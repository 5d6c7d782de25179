import AirSane.Zeroconf.AddressOrder
import Mathlib.Logic.Function.Iterate

/-! # Address messages

The messages that a buffer holds, and what becomes of the addresses when each is
handled once. The loops never leave the first message and its first attribute, so
they handle that message as often as its length fits into the buffer.
-/

namespace AirSane.Netlink
open Text Sets

structure RtAttr where
  rta_type : ℕ
  payload : Octets

/-- An address message; other messages have their type only. -/
structure NlMessage where
  nlmsg_type : ℕ
  ifa_family : ℕ
  attrs : List RtAttr

/-- The address of an `IFA_ADDRESS` attribute. -/
def RtAttr.address (family : ℕ) (a : RtAttr) : Option Sockaddr :=
  if a.rta_type = IFA_ADDRESS then
    if h : family = AF_INET ∧ a.payload.length = 4 then some (.inet ⟨a.payload, h.2⟩ noPort)
    else if h : family = AF_INET6 ∧ a.payload.length = 16 then
      some (.inet6 ⟨a.payload, h.2⟩ noPort)
    else none
  else none

namespace NlMessage

def IsAddress (m : NlMessage) : Prop := m.nlmsg_type = RTM_NEWADDR ∨ m.nlmsg_type = RTM_DELADDR

/-- The address of a message, wherever it stands in the attributes. -/
def address (m : NlMessage) : Option Sockaddr :=
  (m.attrs.filterMap (·.address m.ifa_family)).getLast?

/-- What the kernel tells with a message. -/
def change (m : NlMessage) : Option (Change Sockaddr) :=
  if m.nlmsg_type = RTM_NEWADDR then m.address.map .add
  else if m.nlmsg_type = RTM_DELADDR then m.address.map .remove
  else none

/-- A message with its first attribute only. -/
def firstAttr (m : NlMessage) : NlMessage := { m with attrs := m.attrs.take 1 }

end NlMessage

/-- The messages up to the one that ends them. -/
def undone (msgs : List NlMessage) : List NlMessage :=
  msgs.takeWhile fun m => m.nlmsg_type ≠ NLMSG_DONE

/-- Each message once. -/
def changes (msgs : List NlMessage) : List (Change Sockaddr) := (undone msgs).filterMap (·.change)

variable {buffer : Octets} {family pRta n : ℕ} {len ifalen : ℤ} {m : NlMessage}
  {msgs : List NlMessage} {a : RtAttr} {attrs : List RtAttr}

/-- An address has the length of its family. -/
def RtAttr.Sized (family : ℕ) (a : RtAttr) : Prop :=
  a.rta_type = IFA_ADDRESS → (family = AF_INET → a.payload.length = 4) ∧
    (family = AF_INET6 → a.payload.length = 16)

/-- Attributes from `pRta` on, in `ifalen` bytes. The last one may lack its padding. -/
inductive HoldsAttrs (buffer : Octets) (family : ℕ) : ℕ → ℤ → List RtAttr → Prop where
  | nil {pRta : ℕ} {ifalen : ℤ} (h : ifalen ≤ 0) : HoldsAttrs buffer family pRta ifalen []
  | cons {pRta : ℕ} {ifalen : ℤ} {a : RtAttr} {attrs : List RtAttr}
      (hlen : rta_len buffer pRta = 4 + a.payload.length)
      (hfits : (rta_len buffer pRta : ℤ) ≤ ifalen)
      (htype : rta_type buffer pRta = a.rta_type)
      (hdata : bytes buffer (RTA_DATA pRta) a.payload.length = a.payload)
      (hsized : a.Sized family)
      (hrest : HoldsAttrs buffer family (RTA_NEXT buffer pRta ifalen).2
        (RTA_NEXT buffer pRta ifalen).1 attrs) :
    HoldsAttrs buffer family pRta ifalen (a :: attrs)

/-- Messages from `n` on, in `len` bytes. The last one may lack its padding. -/
inductive HoldsMessages (buffer : Octets) : ℕ → ℤ → List NlMessage → Prop where
  | nil {n : ℕ} {len : ℤ} (h : len ≤ 0) : HoldsMessages buffer n len []
  | cons {n : ℕ} {len : ℤ} {m : NlMessage} {msgs : List NlMessage}
      (hok : NLMSG_OK buffer n len)
      (htype : nlmsg_type buffer n = m.nlmsg_type)
      (hattrs : m.IsAddress → ifa_family buffer n = m.ifa_family ∧
        HoldsAttrs buffer m.ifa_family (IFA_RTA n) (IFA_PAYLOAD buffer n) m.attrs)
      (hrest : HoldsMessages buffer (NLMSG_NEXT buffer n len).2 (NLMSG_NEXT buffer n len).1 msgs) :
    HoldsMessages buffer n len (m :: msgs)

/-- An attribute changes the address to its own one, or not at all. -/
theorem setAddress_eq (htype : rta_type buffer pRta = a.rta_type)
    (hdata : bytes buffer (RTA_DATA pRta) a.payload.length = a.payload) (hsized : a.Sized family)
    (address : Sockaddr) :
    setAddress buffer family pRta address = (a.address family).getD address := by
  unfold setAddress RtAttr.address
  rw [htype]
  by_cases haddr : a.rta_type = IFA_ADDRESS
  · obtain ⟨hinet, hinet6⟩ := hsized haddr
    by_cases hf : family = AF_INET
    · have hlen := hinet hf
      have hread : inAddr buffer (RTA_DATA pRta) = ⟨a.payload, hlen⟩ :=
        List.Vector.eq _ _ ((congrArg (bytes buffer _) hlen.symm).trans hdata)
      rw [if_pos ⟨hf, haddr⟩, if_pos haddr, dif_pos ⟨hf, hlen⟩, hread]
      rfl
    · rw [if_neg fun h => hf h.1, if_pos haddr, dif_neg fun h => hf h.1]
      by_cases hf6 : family = AF_INET6
      · have hlen := hinet6 hf6
        have hread : in6Addr buffer (RTA_DATA pRta) = ⟨a.payload, hlen⟩ :=
          List.Vector.eq _ _ ((congrArg (bytes buffer _) hlen.symm).trans hdata)
        rw [if_pos ⟨hf6, haddr⟩, dif_pos ⟨hf6, hlen⟩, hread]
        rfl
      · rw [if_neg fun h => hf6 h.1, dif_neg fun h => hf6 h.1]
        rfl
  · rw [if_neg fun h => haddr h.2, if_neg fun h => haddr h.2, if_neg haddr]
    rfl

theorem setAddress_twice (address : Sockaddr) :
    setAddress buffer family pRta (setAddress buffer family pRta address) =
      setAddress buffer family pRta address := by
  unfold setAddress
  split_ifs <;> rfl

/-- The loop comes back to the same attribute. -/
theorem readAddress_eq (ifalen : ℤ) (address : Sockaddr) :
    readAddress buffer family pRta ifalen address =
      if RTA_OK buffer pRta ifalen then setAddress buffer family pRta address else address := by
  fun_induction readAddress buffer family pRta ifalen address with
  | case1 ifalen address h ih =>
    rw [ih, setAddress_twice, ite_self, if_pos h.2]
  | case2 ifalen address h =>
    have hnot : ¬ RTA_OK buffer pRta ifalen := fun hok => h ⟨by have := hok.1; omega, hok⟩
    rw [if_neg hnot]

theorem readAddress_of_holds (h : HoldsAttrs buffer family pRta ifalen attrs)
    (address : Sockaddr) : readAddress buffer family pRta ifalen address =
      ((attrs.take 1).filterMap (·.address family)).getLast?.getD address := by
  rw [readAddress_eq]
  cases h with
  | nil h =>
    rw [if_neg fun hok => absurd hok.1 (by omega)]
    rfl
  | @cons _ _ a attrs hlen hfits htype hdata hsized hrest =>
    rw [if_pos ⟨by omega, by omega, hfits⟩, setAddress_eq htype hdata hsized]
    rw [List.take_succ_cons, List.take_zero, List.filterMap_cons]
    cases a.address family <;> rfl

/-- An address that is read has a family. -/
theorem RtAttr.sa_family_ne {addr : Sockaddr} (h : a.address family = some addr) :
    addr.sa_family ≠ AF_UNSPEC := by
  unfold RtAttr.address at h
  split_ifs at h with haddr hinet hinet6 <;> cases h
  · exact (by decide : AF_INET ≠ AF_UNSPEC)
  · exact (by decide : AF_INET6 ≠ AF_UNSPEC)

theorem NlMessage.sa_family_ne {addr : Sockaddr} (h : m.address = some addr) :
    addr.sa_family ≠ AF_UNSPEC := by
  obtain ⟨a, -, ha⟩ := List.mem_filterMap.1 (List.mem_of_getLast? h)
  exact RtAttr.sa_family_ne ha

/-- The address of a message is read before its type makes a difference. -/
theorem handleMessage_of_address {addr : Option Sockaddr}
    (hkind : nlmsg_type buffer n = RTM_NEWADDR ∨ nlmsg_type buffer n = RTM_DELADDR)
    (hread : readAddress buffer (ifa_family buffer n) (IFA_RTA n) (IFA_PAYLOAD buffer n) .zero =
      addr.getD .zero) (hfamily : ∀ a, addr = some a → a.sa_family ≠ AF_UNSPEC) (s : Hotplug) :
    handleMessage buffer n s = Announced.applied
      (if nlmsg_type buffer n = RTM_NEWADDR then addr.map .add else addr.map .remove) s := by
  unfold handleMessage
  rw [if_pos (hkind.imp_right .inl), hread]
  dsimp only
  cases addr with
  | none =>
    rw [Option.map_none, Option.map_none, ite_self]
    exact if_neg (not_not.2 rfl)
  | some a =>
    refine (if_pos (hfamily a rfl)).trans ?_
    by_cases hnew : nlmsg_type buffer n = RTM_NEWADDR
    · rw [if_pos hnew, if_pos hnew]
      exact ite_not ..
    · rw [if_neg hnew, if_neg hnew, if_pos (hkind.resolve_left hnew)]
      rfl

theorem handleMessage_of_holds (htype : nlmsg_type buffer n = m.nlmsg_type)
    (hattrs : m.IsAddress → ifa_family buffer n = m.ifa_family ∧
      HoldsAttrs buffer m.ifa_family (IFA_RTA n) (IFA_PAYLOAD buffer n) m.attrs) (s : Hotplug) :
    handleMessage buffer n s = Announced.applied m.firstAttr.change s := by
  by_cases haddr : m.IsAddress
  · obtain ⟨hfamily, hattrs⟩ := hattrs haddr
    have hread : readAddress buffer (ifa_family buffer n) (IFA_RTA n) (IFA_PAYLOAD buffer n) .zero =
        m.firstAttr.address.getD .zero := by
      rw [hfamily, readAddress_of_holds hattrs]
      rfl
    unfold NlMessage.IsAddress at haddr
    rw [← htype] at haddr
    rw [handleMessage_of_address haddr hread fun a => NlMessage.sa_family_ne]
    unfold NlMessage.change
    rw [show m.firstAttr.nlmsg_type = nlmsg_type buffer n from htype.symm]
    by_cases hnew : nlmsg_type buffer n = RTM_NEWADDR
    · rw [if_pos hnew, if_pos hnew]
    · rw [if_neg hnew, if_neg hnew, if_pos (haddr.resolve_left hnew)]
  · obtain ⟨hnew, hdel⟩ := not_or.1 haddr
    have hnone : m.firstAttr.change = none := (if_neg hnew).trans (if_neg hdel)
    rw [hnone, handleMessage, htype]
    simp [hnew, hdel, Announced.applied]

/-- How often a message of this length fits. -/
def turns (l : ℕ) (len : ℤ) : ℕ := ((len - l) / NLMSG_ALIGN l).toNat + 1

theorem turns_next (hok : NLMSG_OK buffer n len)
    (hnext : NLMSG_OK buffer n (NLMSG_NEXT buffer n len).1) : turns (nlmsg_len buffer n) len =
      turns (nlmsg_len buffer n) (NLMSG_NEXT buffer n len).1 + 1 := by
  obtain ⟨-, hmsg, -⟩ := hok
  obtain ⟨-, -, hfits⟩ := hnext
  have hpos : 0 < NLMSG_ALIGN (nlmsg_len buffer n) := align_pos (by omega)
  unfold turns
  simp only [NLMSG_NEXT] at hfits ⊢
  generalize NLMSG_ALIGN (nlmsg_len buffer n) = w at *
  have hstep : len - nlmsg_len buffer n = len - w - nlmsg_len buffer n + 1 * w := by omega
  have hnonneg : 0 ≤ (len - w - nlmsg_len buffer n) / w := Int.ediv_nonneg (by omega) (by omega)
  rw [hstep, Int.add_mul_ediv_right _ _ (by omega)]
  omega

theorem turns_last (hok : NLMSG_OK buffer n len)
    (hnext : ¬ NLMSG_OK buffer n (NLMSG_NEXT buffer n len).1) :
    turns (nlmsg_len buffer n) len = 1 := by
  obtain ⟨-, hmsg, hfits⟩ := hok
  have hlt : len - nlmsg_len buffer n < NLMSG_ALIGN (nlmsg_len buffer n) := by
    by_contra hge
    have hle : (nlmsg_len buffer n : ℤ) ≤ (NLMSG_NEXT buffer n len).1 := by
      simp only [NLMSG_NEXT]
      omega
    exact hnext ⟨by omega, hmsg, hle⟩
  rw [turns, Int.ediv_eq_zero_of_lt (by omega) hlt]
  rfl

/-- The loop comes back to the same message. -/
theorem parse_of_ok (hok : NLMSG_OK buffer n len) (htype : nlmsg_type buffer n ≠ NLMSG_DONE)
    (s : Hotplug) :
    parse buffer n len s = (handleMessage buffer n)^[turns (nlmsg_len buffer n) len] s := by
  fun_induction parse buffer n len s with
  | case1 len s h ih =>
    by_cases hnext : NLMSG_OK buffer n (NLMSG_NEXT buffer n len).1
    · rw [ih hnext, turns_next hok hnext, Function.iterate_succ_apply]
    · rw [parse, if_neg fun h => hnext h.1, turns_last hok hnext]
      rfl
  | case2 len s h => exact absurd ⟨hok, htype⟩ h

/-- When the loop comes to the same as handling each message once. -/
def HandledOnce (S : Finset Sockaddr) (buffer : Octets) (len : ℤ) (msgs : List NlMessage) : Prop :=
  parse buffer 0 len ⟨S, []⟩ = Announced.after S (changes msgs)

theorem handledOnce_iff (S : Finset Sockaddr) (h : HoldsMessages buffer 0 len msgs) :
    HandledOnce S buffer len msgs ↔ ∀ m ∈ (undone msgs).head?,
      Announced.SameAs S (changes msgs) (turns (nlmsg_len buffer 0) len) m.firstAttr.change := by
  unfold HandledOnce
  cases h with
  | nil h =>
    rw [parse, if_neg fun hp => absurd hp.1.1 (by omega)]
    exact iff_of_true rfl (by simp [undone])
  | @cons _ _ m msgs hok htype hattrs hrest =>
    by_cases hdone : m.nlmsg_type = NLMSG_DONE
    · have hnone : undone (m :: msgs) = [] := by simp [undone, hdone]
      rw [parse, if_neg fun hp => hp.2 (htype.trans hdone), changes, hnone]
      exact iff_of_true rfl (by simp)
    · have hfirst : (undone (m :: msgs)).head? = some m := by simp [undone, hdone]
      have hhandle : handleMessage buffer 0 = Announced.applied m.firstAttr.change :=
        funext (handleMessage_of_holds htype hattrs)
      rw [parse_of_ok hok (htype ▸ hdone), hhandle, eq_comm, hfirst]
      refine (Announced.after_eq_iterate_iff _ _).trans ?_
      simp only [Option.mem_some_iff, forall_eq']
      rfl

/-- A message by itself is handled once, if its first attribute tells its address. -/
theorem handledOnce_single (S : Finset Sockaddr) (h : HoldsMessages buffer 0 len [m])
    (hfirst : m.firstAttr.change = m.change) : HandledOnce S buffer len [m] := by
  unfold HandledOnce
  cases h with
  | cons hok htype hattrs hrest =>
    by_cases hdone : m.nlmsg_type = NLMSG_DONE
    · have hnone : undone [m] = [] := by simp [undone, hdone]
      rw [parse, if_neg fun hp => hp.2 (htype.trans hdone), changes, hnone]
      rfl
    · have hone : undone [m] = [m] := by simp [undone, hdone]
      have hlast : ¬ NLMSG_OK buffer 0 (NLMSG_NEXT buffer 0 len).1 := by
        cases hrest with
        | nil hend => exact fun hok => absurd hok.1 (by omega)
      rw [parse_of_ok hok (htype ▸ hdone), turns_last hok hlast, changes, hone,
        Function.iterate_one, handleMessage_of_holds htype hattrs, hfirst]
      cases hc : m.change <;> simp [hc, Announced.applied, Announced.after]

/-- The news of an address 10.0.0.x. -/
def newAddr (x : UInt8) : Octets :=
  [32, 0, 0, 0, 20, 0, 0, 0, 0, 0, 0, 0, 0, 0, 0, 0] ++ [2, 24, 0, 0, 1, 0, 0, 0] ++
    [8, 0, 1, 0, 10, 0, 0, x]

def newAddrMessage (x : UInt8) : NlMessage where
  nlmsg_type := RTM_NEWADDR
  ifa_family := AF_INET
  attrs := [⟨IFA_ADDRESS, [10, 0, 0, x]⟩]

def newAddress (x : UInt8) : Sockaddr := .inet ⟨[10, 0, 0, x], rfl⟩ noPort

theorem holds_pair :
    HoldsMessages (newAddr 1 ++ newAddr 2) 0 64 [newAddrMessage 1, newAddrMessage 2] := by
  have hsized : ∀ x, RtAttr.Sized AF_INET ⟨IFA_ADDRESS, [10, 0, 0, x]⟩ :=
    fun x _ => ⟨fun _ => rfl, fun h => absurd h (by decide)⟩
  refine .cons (by decide) (by decide) (fun _ => ⟨by decide, ?_⟩)
    (.cons (by decide) (by decide) (fun _ => ⟨by decide, ?_⟩) (.nil (by decide)))
  · exact .cons (by decide) (by decide) (by decide) (by decide) (hsized 1) (.nil (by decide))
  · exact .cons (by decide) (by decide) (by decide) (by decide) (hsized 2) (.nil (by decide))

/-- Of two addresses that are known already, nothing is to be told. -/
theorem handledOnce_iff_known : HandledOnce {newAddress 1, newAddress 2} (newAddr 1 ++ newAddr 2) 64
    [newAddrMessage 1, newAddrMessage 2] := by
  refine (handledOnce_iff _ holds_pair).2 fun m hm => ?_
  obtain rfl : newAddrMessage 1 = m := Option.some.inj hm
  have hchanges : changes [newAddrMessage 1, newAddrMessage 2] =
      [.add (newAddress 1), .add (newAddress 2)] := rfl
  have hfirst : (newAddrMessage 1).firstAttr.change = some (.add (newAddress 1)) := rfl
  rw [hchanges, hfirst]
  refine ⟨fun c hc => ?_, .inl (by simp)⟩
  simp only [List.mem_cons, List.not_mem_nil, or_false] at hc
  rcases hc with rfl | rfl
  · exact ⟨_, by simp, rfl⟩
  · exact ⟨newAddress 2, by simp, rfl⟩

/-- Two addresses arrive, and the first one is noticed. -/
theorem not_handledOnce_pair : ∃ buffer msgs, HoldsMessages buffer 0 64 msgs ∧
    changes msgs = [.add (newAddress 1), .add (newAddress 2)] ∧
    parse buffer 0 64 ⟨∅, []⟩ = ⟨{newAddress 1}, [addressArrived]⟩ ∧
    ¬ HandledOnce ∅ buffer 64 msgs := by
  have hhandle : handleMessage (newAddr 1 ++ newAddr 2) 0 =
      Announced.applied (some (.add (newAddress 1))) := by
    have hholds := holds_pair
    cases hholds with
    | cons hok htype hattrs hrest => exact funext (handleMessage_of_holds htype hattrs)
  have hparse : parse (newAddr 1 ++ newAddr 2) 0 64 ⟨∅, []⟩ =
      ⟨{newAddress 1}, [addressArrived]⟩ := by
    rw [parse_of_ok (by decide) (by decide), hhandle]
    rfl
  refine ⟨_, _, holds_pair, rfl, hparse, fun h => ?_⟩
  unfold HandledOnce at h
  rw [hparse] at h
  exact absurd (congrArg (·.notices.length) h) (by decide)

end AirSane.Netlink
