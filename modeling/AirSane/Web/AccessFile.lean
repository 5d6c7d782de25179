import AirSane.Bits.Order
import Mathlib.Data.Int.Notation

/-! # The access file

`AccessFile` as the server has it: the lines of the file become entries with the
networks they speak about, and a client is matched against the entries in order.
What the host says about textual addresses and about its own interfaces is a
parameter, and so is what an uninitialised network holds. Where the code would
crash (a failed assertion, a null netmask) there is no result.
-/

namespace AirSane.Web
open Bits

/-- `HttpServer::Sockaddr` as its address family has it read. -/
inductive Sockaddr where
  | inet (addr : Bytes 4)
  | inet6 (addr : Bytes 16)
  | other (family : ℕ)

inductive Family where
  | inet | inet6 | other (family : ℕ)
  deriving DecidableEq

def Sockaddr.family : Sockaddr → Family
  | .inet _ => .inet
  | .inet6 _ => .inet6
  | .other f => .other f

structure Network where
  address : Sockaddr
  mask : Sockaddr

structure Interface where
  ifa_name : List Char
  ifa_addr : Option Sockaddr
  ifa_netmask : Option Sockaddr

structure Host where
  inet_pton : List Char → Option (Bytes 4)
  inet_pton6 : List Char → Option (Bytes 16)
  getifaddrs : Option (List Interface)
  uninitialised : Network

/-- The loop of `SetMaskBits`. -/
def maskBits {n : ℕ} (bits : ℕ) : Bytes n :=
  (List.range bits).foldl
    (fun data i j => if j.val = i / 8 then data j ||| (1#8 <<< (i % 8)) else data j) fun _ => 0

/-- `SetMaskBits`, which leaves a mask alone that is too short for the bits. -/
def SetMaskBits (mask : Sockaddr) (bits : ℤ) : Sockaddr :=
  match mask with
  | .inet a => .inet (if bits > 32 then a else maskBits bits.toNat)
  | .inet6 a => .inet6 (if bits > 128 then a else maskBits bits.toNat)
  | .other f => .other f

def maskedEq {n : ℕ} (data1 data2 maskdata : Bytes n) : Bool :=
  (List.finRange n).all fun i => data1 i &&& maskdata i = data2 i &&& maskdata i

/-- `MatchAddresses`. -/
def MatchAddresses (inAddr1 inAddr2 inMask : Sockaddr) : Option Bool :=
  if inAddr1.family ≠ inAddr2.family then some false
  else match inAddr1, inAddr2, inMask with
    | .inet a, .inet b, .inet m => some (maskedEq a b m)
    | .inet6 a, .inet6 b, .inet6 m => some (maskedEq a b m)
    | .other _, .other f, .other g => if f = g then some true else none
    | _, _, _ => none

/-- The values of `AccessFile::Entry::mKind` and of `match`. -/
inductive Verdict where
  | NoMatch | Allow | Deny
  deriving DecidableEq

structure Entry where
  mKind : Verdict
  mNetworks : List Network

/-- `AccessFile::Entry::match`. -/
def Entry.match (addr : Sockaddr) (e : Entry) : Option Verdict :=
  go e.mNetworks
where
  go : List Network → Option Verdict
  | [] => some .NoMatch
  | network :: rest => do
    if ← MatchAddresses addr network.address network.mask then return e.mKind else go rest

def isSpace (c : Char) : Bool := c ∈ [' ', '\t', '\n', '\x0b', '\x0c', '\r']

/-- What a C function sees of a string. -/
def c_str (text : List Char) : List Char := text.takeWhile (· ≠ '\x00')

/-- `strcasecmp`, on ASCII letters. -/
def equalsIgnoringCase (a : List Char) (b : String) : Bool := a.map Char.toLower = b.toList

def digitsValue (ds : List Char) : ℕ :=
  ds.foldl (fun acc c => 10 * acc + (c.toNat - '0'.toNat)) 0

/-- `atoi`. -/
def atoi (text : List Char) : ℤ :=
  match text.dropWhile isSpace with
  | '-' :: rest => -(digitsValue (rest.takeWhile Char.isDigit) : ℤ)
  | '+' :: rest => digitsValue (rest.takeWhile Char.isDigit)
  | rest => digitsValue (rest.takeWhile Char.isDigit)

/-- The text before and after the last slash. -/
def splitAtLastSlash (rule : List Char) : Option (List Char × List Char) :=
  match rule.reverse.dropWhile (· ≠ '/') with
  | [] => none
  | _ :: front => some (front.reverse, (rule.reverse.takeWhile (· ≠ '/')).reverse)

/-- The address of an IP rule and its number of bits, -1 if none is given. -/
def addressAndBits (mRule : List Char) : List Char × ℤ :=
  match splitAtLastSlash mRule with
  | some (address, suffix) => (address, atoi suffix)
  | none => (mRule, -1)

inductive Parsed where
  | entry (networks : List Network)
  | illegal
  | crash

/-- One pass of the loop over the interfaces. -/
def Interface.network (host : Host) (p : Interface) (addr : Sockaddr) : Option Network :=
  match addr with
  | .other _ => some host.uninitialised
  | _ => p.ifa_netmask.map fun mask => ⟨addr, mask⟩

def Host.networksOf (host : Host) (matchAll : Bool) (ifname : List Char) :
    List Interface → Option (List Network)
  | [] => some []
  | p :: rest =>
    match p.ifa_addr with
    | some addr => if matchAll || ifname = p.ifa_name then do
        let network ← p.network host addr
        return network :: (← host.networksOf matchAll ifname rest)
      else host.networksOf matchAll ifname rest
    | none => host.networksOf matchAll ifname rest

def ifkeywords : String := "local on "

/-- `AccessFile::Entry::parse` on what follows the kind. -/
def parseRule (host : Host) (mRule : List Char) : Parsed :=
  if ifkeywords.toList.isPrefixOf mRule then
    let ifname := mRule.drop ifkeywords.length
    if ifname = [] then .illegal
    else match host.getifaddrs with
      | none => .illegal
      | some interfaces =>
        match host.networksOf (ifname = ['*']) ifname interfaces with
        | none => .crash
        | some [] => .illegal
        | some networks => .entry networks
  else
    let (address, bits) := addressAndBits mRule
    match host.inet_pton (c_str address) with
    | some a =>
      let mask := SetMaskBits (.inet a) (if bits = -1 then 32 else bits)
      .entry [⟨.inet a, mask⟩]
    | none => match host.inet_pton6 (c_str address) with
      | some a =>
        let mask := SetMaskBits (.inet6 a) (if bits = -1 then 128 else bits)
        .entry [⟨.inet6 a, mask⟩]
      | none => .illegal

/-- `AccessFile::Entry::parse`: the kind is the first word; extracting the rest
fails if there is none. -/
def Entry.parse (host : Host) (line : List Char) : Option (Option Entry) :=
  let text := line.dropWhile isSpace
  let word := text.takeWhile (!isSpace ·)
  let kind := c_str word
  let mRule := (text.dropWhile (!isSpace ·)).dropWhile isSpace
  let mKind := if equalsIgnoringCase kind "allow" then Verdict.Allow
    else if equalsIgnoringCase kind "deny" then .Deny else .NoMatch
  if mKind = .NoMatch ∨ mRule = [] then some none
  else match parseRule host mRule with
    | .entry networks => some (some ⟨mKind, networks⟩)
    | .illegal => some none
    | .crash => none

structure AccessFile where
  mEntries : List Entry
  mErrors : List Char

def trim (line : List Char) : List Char :=
  ((line.dropWhile isSpace).reverse.dropWhile isSpace).reverse

def illegalEntry (line : List Char) : List Char :=
  "illegal entry in access file: ".toList ++ line ++ ['\n']

/-- One pass of the loop in the constructor. -/
def AccessFile.readLine (host : Host) (file : AccessFile) (line : List Char) : Option AccessFile :=
  match trim line with
  | [] => some file
  | '#' :: _ => some file
  | line => do
    match ← Entry.parse host line with
    | none => return { file with mErrors := file.mErrors ++ illegalEntry line }
    | some entry => return { file with mEntries := file.mEntries ++ [entry] }

/-- The constructor of `AccessFile`, on the content of a file that could be
opened or on none. -/
def AccessFile.read (host : Host) (content : Option (List Char)) : Option AccessFile :=
  match content with
  | none => some ⟨[], []⟩
  | some text => (text.splitOn '\n').foldlM (AccessFile.readLine host) ⟨[], []⟩

/-- The loop of `AccessFile::isAllowed`. -/
def decideBy (addr : Sockaddr) : List Entry → Option Bool
  | [] => some false
  | entry :: rest => do
    match ← entry.match addr with
    | .Allow => return true
    | .Deny => return false
    | .NoMatch => decideBy addr rest

/-- `AccessFile::isAllowed`. -/
def AccessFile.isAllowed (file : AccessFile) (addr : Sockaddr) : Option Bool :=
  if file.mEntries.isEmpty then some true else decideBy addr file.mEntries

end AirSane.Web
