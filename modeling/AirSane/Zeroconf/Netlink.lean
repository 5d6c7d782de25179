import AirSane.Sets.Announced
import AirSane.Text.Octets
import Mathlib.Data.Vector.Defs

/-! # The netlink notifier

`NetworkHotplugNotifier` keeps the addresses of the host. What the kernel sends
about them is read from a buffer with the macros of the system headers, on a machine
that keeps the low byte first.
-/

namespace AirSane
open Text Sets

def AF_UNSPEC : ℕ := 0
def AF_UNIX : ℕ := 1
def AF_INET : ℕ := 2
def AF_INET6 : ℕ := 10

namespace Netlink

/-- `HttpServer::Sockaddr`, as far as addresses are compared. -/
inductive Sockaddr where
  | un (sun_path : Octets)
  | inet (sin_addr : List.Vector UInt8 4) (sin_port : List.Vector UInt8 2)
  | inet6 (sin6_addr : List.Vector UInt8 16) (sin6_port : List.Vector UInt8 2)
  | other (family : ℕ) (h : family ≠ AF_UNIX ∧ family ≠ AF_INET ∧ family ≠ AF_INET6)
  deriving DecidableEq

namespace Sockaddr

def sa_family : Sockaddr → ℕ
  | .un _ => AF_UNIX
  | .inet .. => AF_INET
  | .inet6 .. => AF_INET6
  | .other f _ => f

/-- All zero. -/
def zero : Sockaddr := .other AF_UNSPEC (by decide)

/-- What is compared first of addresses in one family. -/
def address : Sockaddr → Octets
  | .un path => path
  | .inet addr _ => addr.toList
  | .inet6 addr _ => addr.toList
  | .other .. => []

def port : Sockaddr → Octets
  | .inet _ port => port.toList
  | .inet6 _ port => port.toList
  | _ => []

end Sockaddr

/-- `memcmp` of as many bytes, and `strcmp` of what a null byte ends. -/
def memcmp : Octets → Octets → ℤ
  | [], [] => 0
  | [], _ :: _ => -1
  | _ :: _, [] => 1
  | a :: s, b :: t =>
    if a.toNat < b.toNat then -1 else if b.toNat < a.toNat then 1 else memcmp s t

def CompareAddresses (a b : Sockaddr) : Bool :=
  if a.sa_family ≠ b.sa_family then a.sa_family < b.sa_family
  else if memcmp a.address b.address < 0 then true
  else if memcmp a.address b.address > 0 then false
  else memcmp a.port b.port < 0

def NLMSG_DONE : ℕ := 3
def RTM_NEWADDR : ℕ := 20
def RTM_DELADDR : ℕ := 21
def RTM_GETADDR : ℕ := 22
def IFA_ADDRESS : ℕ := 1

def NLMSG_ALIGN (len : ℕ) : ℕ := (len + 3) / 4 * 4
def RTA_ALIGN (len : ℕ) : ℕ := (len + 3) / 4 * 4

section
variable (buffer : Octets)

/-- A byte of the buffer; what lies behind it does not matter. -/
def byte (p : ℕ) : UInt8 := buffer.getD p 0

def bytes (p n : ℕ) : Octets := (List.range n).map fun i => byte buffer (p + i)

def u16 (p : ℕ) : ℕ := (byte buffer p).toNat + 256 * (byte buffer (p + 1)).toNat
def u32 (p : ℕ) : ℕ := u16 buffer p + 65536 * u16 buffer (p + 2)

def nlmsg_len (n : ℕ) : ℕ := u32 buffer n
def nlmsg_type (n : ℕ) : ℕ := u16 buffer (n + 4)

/-- The family in the `ifaddrmsg` behind the header. -/
def ifa_family (n : ℕ) : ℕ := (byte buffer (n + 16)).toNat

def rta_len (pRta : ℕ) : ℕ := u16 buffer pRta
def rta_type (pRta : ℕ) : ℕ := u16 buffer (pRta + 2)

def NLMSG_OK (n : ℕ) (len : ℤ) : Prop :=
  16 ≤ len ∧ 16 ≤ nlmsg_len buffer n ∧ (nlmsg_len buffer n : ℤ) ≤ len

def RTA_OK (pRta : ℕ) (len : ℤ) : Prop :=
  4 ≤ len ∧ 4 ≤ rta_len buffer pRta ∧ (rta_len buffer pRta : ℤ) ≤ len

instance (n : ℕ) (len : ℤ) : Decidable (NLMSG_OK buffer n len) :=
  inferInstanceAs (Decidable (_ ∧ _))

instance (pRta : ℕ) (len : ℤ) : Decidable (RTA_OK buffer pRta len) :=
  inferInstanceAs (Decidable (_ ∧ _))

/-- The length that is left, and the value of the macro: the next message. -/
def NLMSG_NEXT (n : ℕ) (len : ℤ) : ℤ × ℕ :=
  (len - NLMSG_ALIGN (nlmsg_len buffer n), n + NLMSG_ALIGN (nlmsg_len buffer n))

/-- The length that is left, and the value of the macro: the next attribute. -/
def RTA_NEXT (pRta : ℕ) (len : ℤ) : ℤ × ℕ :=
  (len - RTA_ALIGN (rta_len buffer pRta), pRta + RTA_ALIGN (rta_len buffer pRta))

def IFA_RTA (n : ℕ) : ℕ := n + 24
def IFA_PAYLOAD (n : ℕ) : ℤ := nlmsg_len buffer n - 24
def RTA_DATA (pRta : ℕ) : ℕ := pRta + 4

def inAddr (p : ℕ) : List.Vector UInt8 4 := ⟨bytes buffer p 4, by simp [bytes]⟩
def in6Addr (p : ℕ) : List.Vector UInt8 16 := ⟨bytes buffer p 16, by simp [bytes]⟩

def noPort : List.Vector UInt8 2 := ⟨[0, 0], rfl⟩

/-- One attribute in the loop over them. -/
def setAddress (family pRta : ℕ) (address : Sockaddr) : Sockaddr :=
  if family = AF_INET ∧ rta_type buffer pRta = IFA_ADDRESS then
    .inet (inAddr buffer (RTA_DATA pRta)) noPort
  else if family = AF_INET6 ∧ rta_type buffer pRta = IFA_ADDRESS then
    .inet6 (in6Addr buffer (RTA_DATA pRta)) noPort
  else address

theorem align_pos {n : ℕ} (h : 0 < n) : 0 < (n + 3) / 4 * 4 := by omega

/-- The loop over the attributes. The value of `RTA_NEXT` is not assigned. -/
def readAddress (family pRta : ℕ) (ifalen : ℤ) (address : Sockaddr) : Sockaddr :=
  if ifalen ≠ 0 ∧ RTA_OK buffer pRta ifalen then
    readAddress family pRta (RTA_NEXT buffer pRta ifalen).1
      (setAddress buffer family pRta address)
  else address
termination_by ifalen.toNat
decreasing_by
  rename_i h
  obtain ⟨-, hlen, hrta, -⟩ := h
  have hpos : 0 < RTA_ALIGN (rta_len buffer pRta) := align_pos (by omega)
  simp only [RTA_NEXT]
  omega

/-- The events of the notifier. -/
abbrev addressArrived : Notice := .added
abbrev addressLeft : Notice := .removed

/-- The addresses of the host, and the events raised. -/
abbrev Hotplug := Announced Sockaddr

/-- One message in the loop over them. -/
def handleMessage (n : ℕ) (s : Hotplug) : Hotplug :=
  if nlmsg_type buffer n = RTM_NEWADDR ∨ nlmsg_type buffer n = RTM_DELADDR ∨
      nlmsg_type buffer n = RTM_GETADDR then
    let address := readAddress buffer (ifa_family buffer n) (IFA_RTA n) (IFA_PAYLOAD buffer n)
      .zero
    if address.sa_family ≠ AF_UNSPEC then
      if nlmsg_type buffer n = RTM_NEWADDR then
        if address ∉ s.members then ⟨insert address s.members, s.notices ++ [addressArrived]⟩
        else s
      else if nlmsg_type buffer n = RTM_DELADDR then
        ⟨s.members.erase address, s.notices ++ [addressLeft]⟩
      else s
    else s
  else s

/-- The loop over the messages. The value of `NLMSG_NEXT` is not assigned. -/
def parse (n : ℕ) (len : ℤ) (s : Hotplug) : Hotplug :=
  if NLMSG_OK buffer n len ∧ nlmsg_type buffer n ≠ NLMSG_DONE then
    parse n (NLMSG_NEXT buffer n len).1 (handleMessage buffer n s)
  else s
termination_by len.toNat
decreasing_by
  rename_i h
  obtain ⟨⟨hlen, hmsg, -⟩, -⟩ := h
  have hpos : 0 < NLMSG_ALIGN (nlmsg_len buffer n) := align_pos (by omega)
  simp only [NLMSG_NEXT]
  omega

end

end Netlink
end AirSane
