import AirSane.Web.AccessEnforcement

/-! # The networks that an access file stores

A rule on interfaces stores a network for each address of them. It is made of
the address and the netmask of an IP interface; for any other family it is left
as it was found in memory. Of networks in one IP family each, every later
decision is made, and made from rules and client alone.
-/

namespace AirSane.Web
open Bits

variable {host : Host}

/-- An address of an IP family, and a mask of the same. -/
def Network.Matchable (network : Network) : Prop :=
  (network.address.family = .inet ∨ network.address.family = .inet6) ∧
    network.mask.family = network.address.family

/-- An interface with no address, or with an IP address and its netmask. -/
def Interface.Regular (p : Interface) : Prop :=
  ∀ addr, p.ifa_addr = some addr → (addr.family = .inet ∨ addr.family = .inet6) ∧
    ∃ mask, p.ifa_netmask = some mask ∧ mask.family = addr.family

/-- The rule of a line is one on interfaces. -/
def LocalOn (line name : List Char) : Prop :=
  ∃ kind gap, Parts (trim line) kind gap (ifkeywords.toList ++ name) ∧ Keyword (c_str kind) ∧
    name ≠ []

/-- All interfaces that a rule selects are regular. -/
def RegularOn (host : Host) (name : List Char) : Prop :=
  ∀ is, host.getifaddrs = some is → ∀ p ∈ is, Selects name p → p.Regular

/-- The host, with other content where a network is not initialised. -/
def Host.filled (host : Host) (u : Network) : Host := { host with uninitialised := u }

/-- The file that is read does not depend on what was in memory, its networks are
in one IP family each, and it decides about every client. -/
structure WellFormed (host : Host) (content : Option (List Char)) (file : AccessFile) : Prop where
  initialised : ∀ u, AccessFile.read (host.filled u) content = some file
  matchable : ∀ e ∈ file.mEntries, ∀ n ∈ e.mNetworks, n.Matchable
  compared : ∀ e ∈ file.mEntries, ∀ n ∈ e.mNetworks, ∀ client,
    MatchAddresses client n.address n.mask ≠ none
  decided : ∀ client, file.isAllowed client ≠ none

section
variable {network : Network} {client : Sockaddr}

theorem matchAddresses_ne_none (h : network.Matchable) :
    MatchAddresses client network.address network.mask ≠ none := by
  rcases network with ⟨address, mask⟩
  rcases h with ⟨hf, hm⟩
  cases address with
  | inet a =>
    cases mask with
    | inet m => cases client <;> simp [MatchAddresses, Sockaddr.family]
    | _ => cases hm
  | inet6 a =>
    cases mask with
    | inet6 m => cases client <;> simp [MatchAddresses, Sockaddr.family]
    | _ => cases hm
  | other f => simp [Sockaddr.family] at hf

theorem match_ne_none {e : Entry} (h : ∀ n ∈ e.mNetworks, n.Matchable) :
    e.match client ≠ none := by
  rw [Entry.match]
  generalize e.mNetworks = networks at h
  induction networks with
  | nil => simp [Entry.match.go]
  | cons n networks ih =>
    rw [List.forall_mem_cons] at h
    rw [Entry.match.go]
    cases hm : MatchAddresses client n.address n.mask with
    | none => exact absurd hm (matchAddresses_ne_none h.1)
    | some b =>
      cases b with
      | true => simp
      | false => simpa using ih h.2

theorem isAllowed_ne_none {file : AccessFile}
    (h : ∀ e ∈ file.mEntries, ∀ n ∈ e.mNetworks, n.Matchable) : file.isAllowed client ≠ none := by
  rw [AccessFile.isAllowed]
  split_ifs
  · simp
  · generalize file.mEntries = entries at h
    induction entries with
    | nil => simp [decideBy]
    | cons e entries ih =>
      rw [List.forall_mem_cons] at h
      rw [decideBy]
      cases hm : e.match client with
      | none => exact absurd hm (match_ne_none h.1)
      | some v =>
        cases v with
        | NoMatch => simpa using ih h.2
        | Allow => simp
        | Deny => simp

end

section
variable {name : List Char} {is : List Interface} {q : Interface × Sockaddr}

theorem networkOf_regular (h : q.1.Regular) (ha : q.1.ifa_addr = some q.2) :
    ∃ network, (∀ u, networkOf (host.filled u) q = some network) ∧ network.Matchable := by
  rcases h q.2 ha with ⟨hf, mask, hm, hmask⟩
  rcases q with ⟨p, addr⟩
  have hmask' : p.ifa_netmask = some mask := hm
  refine ⟨⟨addr, mask⟩, fun u => ?_, hf, hmask⟩
  cases addr with
  | inet a => simp [networkOf, Interface.network, hmask']
  | inet6 a => simp [networkOf, Interface.network, hmask']
  | other f => simp [Sockaddr.family] at hf

/-- An interface that is not regular crashes the reader or leaves a network that
cannot be matched, if that was in memory. -/
theorem networkOf_irregular {u : Network} (hu : ¬ u.Matchable) (h : ¬ q.1.Regular)
    (ha : q.1.ifa_addr = some q.2) :
    ∀ network, networkOf (host.filled u) q = some network → ¬ network.Matchable := by
  rcases q with ⟨p, addr⟩
  intro network hn hmatch
  cases addr with
  | other f =>
    have hfilled : network = u := (Option.some.inj hn).symm
    exact hu (hfilled ▸ hmatch)
  | inet a =>
    rcases Option.map_eq_some_iff.1 hn with ⟨mask, hm, rfl⟩
    refine h fun addr' ha' => ?_
    obtain rfl := Option.some.inj (ha.symm.trans ha')
    exact ⟨hmatch.1, mask, hm, hmatch.2⟩
  | inet6 a =>
    rcases Option.map_eq_some_iff.1 hn with ⟨mask, hm, rfl⟩
    refine h fun addr' ha' => ?_
    obtain rfl := Option.some.inj (ha.symm.trans ha')
    exact ⟨hmatch.1, mask, hm, hmatch.2⟩

variable (host) in
theorem mapM_networkOf_regular (h : ∀ p ∈ is, Selects name p → p.Regular) :
    ∃ networks, (∀ u, (selected name is).mapM (networkOf (host.filled u)) = some networks) ∧
      ∀ n ∈ networks, n.Matchable := by
  have hq : ∀ q ∈ selected name is, ∃ network, (∀ u, networkOf (host.filled u) q = some network) ∧
      network.Matchable := by
    intro q hq
    rcases mem_selected.1 hq with ⟨hp, hs, ha⟩
    exact networkOf_regular (h q.1 hp hs) ha
  generalize selected name is = qs at hq
  induction qs with
  | nil => exact ⟨[], fun _ => rfl, by simp⟩
  | cons q qs ih =>
    rw [List.forall_mem_cons] at hq
    rcases hq.1 with ⟨network, hnet, hmatch⟩
    rcases ih hq.2 with ⟨networks, hnets, hall⟩
    refine ⟨network :: networks, fun u => ?_, List.forall_mem_cons.2 ⟨hmatch, hall⟩⟩
    rw [Lists.mapM_cons, hnet, hnets]
    rfl

theorem mapM_networkOf_irregular {u : Network} {p : Interface} {networks : List Network}
    (hu : ¬ u.Matchable) (hp : p ∈ is) (hs : Selects name p) (h : ¬ p.Regular)
    (hn : (selected name is).mapM (networkOf (host.filled u)) = some networks) :
    ∃ n ∈ networks, ¬ n.Matchable := by
  cases ha : p.ifa_addr with
  | none =>
    refine absurd (fun addr haddr => ?_) h
    cases ha.symm.trans haddr
  | some addr =>
    have hmem : (p, addr) ∈ selected name is := mem_selected.2 ⟨hp, hs, ha⟩
    rcases Lists.exists_mem_of_mapM hn hmem with ⟨network, hmem', hnet⟩
    exact ⟨network, hmem', networkOf_irregular (q := (p, addr)) hu h ha network hnet⟩

end

section
variable {rule name : List Char}

theorem setMaskBits_matchable {address : Sockaddr} (bits : ℤ)
    (h : address.family = .inet ∨ address.family = .inet6) :
    Network.Matchable ⟨address, SetMaskBits address bits⟩ := by
  refine ⟨h, ?_⟩
  cases address <;> rfl

theorem parseRule_filled (u : Network) (h : ¬ ifkeywords.toList <+: rule) :
    parseRule (host.filled u) rule = parseRule host rule := by
  have hpre : ifkeywords.toList.isPrefixOf rule = false := by
    rwa [Bool.eq_false_iff, ne_eq, List.isPrefixOf_iff_prefix]
  rw [parseRule, parseRule, hpre]
  rfl

theorem parseRule_address_matchable (h : ¬ ifkeywords.toList <+: rule) {networks : List Network}
    (hr : parseRule host rule = .entry networks) : ∀ n ∈ networks, n.Matchable := by
  have hpre : ifkeywords.toList.isPrefixOf rule = false := by
    rwa [Bool.eq_false_iff, ne_eq, List.isPrefixOf_iff_prefix]
  rw [parseRule, hpre] at hr
  rcases hsplit : addressAndBits rule with ⟨address, bits⟩
  simp only [hsplit, Bool.false_eq_true, if_false] at hr
  split at hr
  · cases hr
    simpa using setMaskBits_matchable _ (.inl rfl)
  · split at hr
    · cases hr
      simpa using setMaskBits_matchable _ (.inr rfl)
    · cases hr

variable (host rule) in
/-- A rule whose interfaces are regular is parsed alike whatever was in memory. -/
theorem parseRule_regular
    (h : ∀ name, rule = ifkeywords.toList ++ name → name ≠ [] → RegularOn host name) :
    ∃ parsed, (∀ u, parseRule (host.filled u) rule = parsed) ∧ parsed ≠ .crash ∧
      ∀ networks, parsed = .entry networks → ∀ n ∈ networks, n.Matchable := by
  rcases local_or_divides rule with ⟨name, rfl⟩ | ⟨hkey, text, tail, hdiv⟩
  · by_cases hne : name = []
    · exact ⟨.illegal, fun u => by rw [parseRule_local, if_pos hne], by simp, by simp⟩
    · cases hi : host.getifaddrs with
      | none =>
        refine ⟨.illegal, fun u => ?_, by simp, by simp⟩
        have hfilled : (host.filled u).getifaddrs = none := hi
        rw [parseRule_local, if_neg hne, hfilled]
      | some is =>
        rcases mapM_networkOf_regular host (h name rfl hne is hi) with
          ⟨networks, hnets, hall⟩
        refine ⟨if networks = [] then .illegal else .entry networks, fun u => ?_, ?_, ?_⟩
        · have hfilled : (host.filled u).getifaddrs = some is := hi
          rw [parseRule_local, if_neg hne, hfilled]
          simp only [hnets]
          cases networks <;> rfl
        · split_ifs <;> simp
        · intro networks' heq
          split_ifs at heq
          cases heq
          exact hall
  · exact ⟨parseRule host rule, fun u => parseRule_filled u hkey, (parseRule_address hkey hdiv).1,
      fun networks hr => parseRule_address_matchable hkey hr⟩

theorem parseRule_irregular {u : Network} (hu : ¬ u.Matchable) (hne : name ≠ [])
    (h : ¬ RegularOn host name) :
    parseRule (host.filled u) (ifkeywords.toList ++ name) = .crash ∨ ∃ networks,
      parseRule (host.filled u) (ifkeywords.toList ++ name) = .entry networks ∧
        ∃ n ∈ networks, ¬ n.Matchable := by
  simp only [RegularOn, not_forall] at h
  rcases h with ⟨is, hi, p, hp, hs, hreg⟩
  have hfilled : (host.filled u).getifaddrs = some is := hi
  rw [parseRule_local, if_neg hne, hfilled]
  cases hm : (selected name is).mapM (networkOf (host.filled u)) with
  | none => exact .inl (by simp [hm])
  | some networks =>
    rcases mapM_networkOf_irregular hu hp hs hreg hm with ⟨n, hn, hbad⟩
    cases networks with
    | nil => cases hn
    | cons m rest => exact .inr ⟨m :: rest, by simp [hm], n, hn, hbad⟩

end

/-- All networks of a file can be matched. -/
def AccessFile.Matchable (file : AccessFile) : Prop :=
  ∀ e ∈ file.mEntries, ∀ n ∈ e.mNetworks, n.Matchable

section
variable {line name : List Char} {file file' : AccessFile}

theorem not_comment {kind gap rule : List Char} (h : Parts line kind gap rule)
    (hk : Keyword (c_str kind)) : line.head? ≠ some '#' := by
  intro hc
  rcases List.exists_cons_of_ne_nil h.kind_ne with ⟨c, rest, rfl⟩
  have hhash : c = '#' := by simpa [h.eq] using hc
  have hmem : '#' ∈ c_str (c :: rest) := by simp [c_str, hhash]
  cases hk with
  | inl hk => exact (kind_chars (Text.forall_mem_of_all (by decide)) hk _ hmem).2 rfl
  | inr hk => exact (kind_chars (Text.forall_mem_of_all (by decide)) hk _ hmem).2 rfl

/-- A line adds entries and errors that do not depend on the file before it, nor,
where the interfaces are regular, on what was in memory. -/
theorem readLine_regular (h : ∀ name, LocalOn line name → RegularOn host name) :
    ∃ added : AccessFile, added.Matchable ∧ ∀ u file,
      AccessFile.readLine (host.filled u) file line =
        some ⟨file.mEntries ++ added.mEntries, file.mErrors ++ added.mErrors⟩ := by
  have hreported (u : Network) (hne : trim line ≠ []) (hc : (trim line).head? ≠ some '#')
      (hp : Entry.parse (host.filled u) (trim line) = some none) (file : AccessFile) :
      AccessFile.readLine (host.filled u) file line =
        some ⟨file.mEntries ++ [], file.mErrors ++ illegalEntry (trim line)⟩ := by
    rw [readLine_eq _ _ hne hc, hp, List.append_nil]
    rfl
  by_cases hskip : trim line = [] ∨ (trim line).head? = some '#'
  · refine ⟨⟨[], []⟩, by simp [AccessFile.Matchable], fun u file => ?_⟩
    rw [List.append_nil, List.append_nil]
    rcases htrim : trim line with _ | ⟨c, rest⟩
    · simp [AccessFile.readLine, htrim]
    · have hc : c = '#' := by simpa [htrim] using hskip
      simp [AccessFile.readLine, htrim, hc]
  · rw [not_or] at hskip
    rcases parts_trim hskip.1 with ⟨kind, gap, rule, hparts⟩ | hword
    · by_cases hk : Keyword (c_str kind)
      · have hkind := kindOf_ne_iff.2 hk
        rcases parseRule_regular host rule fun name hname hne =>
          h name ⟨kind, gap, hname ▸ hparts, hk, hne⟩ with ⟨parsed, hparsed, hcrash, hall⟩
        cases parsed with
        | crash => exact absurd rfl hcrash
        | illegal =>
          refine ⟨⟨[], illegalEntry (trim line)⟩, by simp [AccessFile.Matchable], fun u => ?_⟩
          exact hreported u hskip.1 hskip.2 (by rw [parse_parts hparts, if_neg hkind, hparsed])
        | entry networks =>
          refine ⟨⟨[⟨kindOf (c_str kind), networks⟩], []⟩, ?_, fun u file => ?_⟩
          · simpa [AccessFile.Matchable] using hall
          · rw [readLine_eq _ _ hskip.1 hskip.2, parse_parts hparts, if_neg hkind, hparsed,
              List.append_nil]
            rfl
      · refine ⟨⟨[], illegalEntry (trim line)⟩, by simp [AccessFile.Matchable], fun u => ?_⟩
        have hno : kindOf (c_str kind) = .NoMatch := not_ne_iff.1 (mt kindOf_ne_iff.1 hk)
        exact hreported u hskip.1 hskip.2 (by rw [parse_parts hparts, if_pos hno])
    · refine ⟨⟨[], illegalEntry (trim line)⟩, by simp [AccessFile.Matchable], fun u => ?_⟩
      exact hreported u hskip.1 hskip.2 (parse_word hskip.1 hword)

theorem readLine_irregular {u : Network} (hu : ¬ u.Matchable) (hl : LocalOn line name)
    (h : ¬ RegularOn host name)
    (hr : AccessFile.readLine (host.filled u) file line = some file') : ¬ file'.Matchable := by
  rcases hl with ⟨kind, gap, hparts, hk, hne⟩
  have htrim : trim line ≠ [] := by simp [hparts.eq, hparts.kind_ne]
  rw [readLine_eq _ _ htrim (not_comment hparts hk), parse_parts hparts, if_neg (kindOf_ne_iff.2 hk)] at hr
  intro hm
  rcases parseRule_irregular hu hne h with hcrash | ⟨networks, hentry, n, hn, hbad⟩
  · simp [hcrash] at hr
  · rw [hentry] at hr
    rw [← Option.some.inj hr] at hm
    exact hbad (hm _ (List.mem_append_right _ (List.mem_singleton_self _)) n hn)

theorem readLine_mEntries (h : AccessFile.readLine host file line = some file') :
    file.mEntries <+: file'.mEntries := by
  unfold AccessFile.readLine at h
  split at h
  · exact Option.some.inj h ▸ List.prefix_rfl
  · exact Option.some.inj h ▸ List.prefix_rfl
  · rcases hp : Entry.parse host (trim line) with _ | _ | entry
    · simp [hp] at h
    · rw [hp] at h
      exact Option.some.inj h ▸ List.prefix_rfl
    · rw [hp] at h
      rw [← Option.some.inj h]
      exact List.prefix_append _ _

theorem readLines_regular {lines : List (List Char)} (hm : file.Matchable)
    (h : ∀ line ∈ lines, ∀ name, LocalOn line name → RegularOn host name) :
    ∃ file', file'.Matchable ∧
      ∀ u, lines.foldlM (AccessFile.readLine (host.filled u)) file = some file' := by
  induction lines generalizing file with
  | nil => exact ⟨file, hm, fun _ => rfl⟩
  | cons line lines ih =>
    rw [List.forall_mem_cons] at h
    rcases readLine_regular h.1 with ⟨added, hadded, hline⟩
    have hnext : AccessFile.Matchable
        ⟨file.mEntries ++ added.mEntries, file.mErrors ++ added.mErrors⟩ := by
      intro e he
      exact (List.mem_append.1 he).elim (hm e) (hadded e)
    rcases ih hnext h.2 with ⟨file', hm', hrest⟩
    refine ⟨file', hm', fun u => ?_⟩
    rw [List.foldlM_cons, hline]
    exact hrest u

theorem readLines_mEntries {lines : List (List Char)}
    (h : lines.foldlM (AccessFile.readLine host) file = some file') :
    file.mEntries <+: file'.mEntries := by
  induction lines generalizing file with
  | nil => exact Option.some.inj h ▸ List.prefix_rfl
  | cons line lines ih =>
    rw [List.foldlM_cons] at h
    rcases Option.bind_eq_some_iff.1 h with ⟨next, hnext, hrest⟩
    exact (readLine_mEntries hnext).trans (ih hrest)

theorem readLines_irregular {u : Network} (hu : ¬ u.Matchable) {lines : List (List Char)}
    (hl : line ∈ lines) (hlocal : LocalOn line name) (h : ¬ RegularOn host name)
    (hr : lines.foldlM (AccessFile.readLine (host.filled u)) file = some file') :
    ¬ file'.Matchable := by
  rcases List.append_of_mem hl with ⟨before, after, rfl⟩
  rw [List.foldlM_append] at hr
  rcases Option.bind_eq_some_iff.1 hr with ⟨next, -, hrest⟩
  rw [List.foldlM_cons] at hrest
  rcases Option.bind_eq_some_iff.1 hrest with ⟨next', hnext', hafter⟩
  intro hm
  exact readLine_irregular hu hlocal h hnext' fun e he =>
    hm e ((readLines_mEntries hafter).subset he)

/-- Reading an access file gives networks that are well formed exactly if the
interfaces that its rules speak about all have IP addresses with netmasks. -/
theorem wellFormed_iff (content : Option (List Char)) :
    (∃ file, WellFormed host content file) ↔ ∀ text, content = some text →
      ∀ line ∈ text.splitOn '\n', ∀ name, LocalOn line name → RegularOn host name := by
  constructor
  · rintro ⟨file, hfile⟩ text rfl line hline name hlocal
    by_contra h
    have hbad : ¬ Network.Matchable ⟨.other 0, .other 0⟩ := by
      simp [Network.Matchable, Sockaddr.family]
    have hread := hfile.initialised ⟨.other 0, .other 0⟩
    exact readLines_irregular hbad hline hlocal h hread hfile.matchable
  · intro h
    have hread : ∃ file, file.Matchable ∧
        ∀ u, AccessFile.read (host.filled u) content = some file := by
      cases content with
      | none => exact ⟨⟨[], []⟩, by simp [AccessFile.Matchable], fun _ => rfl⟩
      | some text => exact readLines_regular (by simp [AccessFile.Matchable]) (h text rfl)
    rcases hread with ⟨file, hm, hu⟩
    exact ⟨file, hu, hm, fun e he n hn _ => matchAddresses_ne_none (hm e he n hn),
      fun _ => isAllowed_ne_none hm⟩

/-- A host with one interface, which has a link-layer address. -/
def Host.packet : Host where
  inet_pton := dottedDecimal
  inet_pton6 _ := none
  getifaddrs := some [⟨"eth0".toList, some (.other 17), none⟩]
  uninitialised := ⟨.inet (ip 0 0 0 0), .inet (ip 0 0 0 0)⟩

/-- What was in memory lets any IPv4 client in. -/
theorem not_wellFormed_packet :
    (¬ ∃ file, WellFormed .packet (some "allow local on eth0".toList) file) ∧
      (AccessFile.read .packet (some "allow local on eth0".toList)).bind
        (AccessFile.isAllowed · (.inet (ip 192 0 2 1))) = some true := by
  have hbad : ¬ Network.Matchable ⟨.other 0, .other 0⟩ := by
    simp [Network.Matchable, Sockaddr.family]
  have hparts : Parts (trim "allow local on eth0".toList) "allow".toList [' ']
      (ifkeywords.toList ++ "eth0".toList) :=
    ⟨by decide, Text.forall_mem_of_all (by decide), by decide,
      Text.forall_mem_of_all (by decide), by decide, by simp [ifkeywords, isSpace], by decide⟩
  have hregular : ¬ RegularOn .packet "eth0".toList := by
    intro h
    have hp := h _ rfl _ List.mem_cons_self (.inr rfl) _ rfl
    simp [Sockaddr.family] at hp
  refine ⟨?_, by decide +kernel⟩
  rintro ⟨file, hfile⟩
  exact readLines_irregular hbad (by decide) ⟨_, _, hparts, .inl (by decide), by decide⟩ hregular
    (hfile.initialised ⟨.other 0, .other 0⟩) hfile.matchable

end

end AirSane.Web
