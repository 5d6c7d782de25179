import AirSane.Pdf.Lexer

/-! # Objects and pages

A file is read from its end: the place of the cross-reference table, the table and the
trailer, and from there one object after the other where the table says, down to the
images that are drawn on the pages.
-/

namespace Pdf
open Text

inductive Obj where
  | int (n : ℤ)
  | real (s : Octets)
  /-- A keyword, which is no object by itself. -/
  | word (s : Octets)
  | name (s : Octets)
  | text (s : Octets)
  | hex (s : Octets)
  | ref (id generation : ℤ)
  | array (xs : List Obj)
  | dict (entries : List (Octets × Obj))

/-- What is being read: an array, or a dictionary, and its elements so far, the last
one first. -/
structure Frame where
  isDict : Bool
  items : List Obj

/-- The innermost frame comes first. -/
abbrev Stack := List Frame

/-- A list of names and values. -/
def pairs : List Obj → Option (List (Octets × Obj))
  | [] => some []
  | .name key :: v :: xs => (pairs xs).map ((key, v) :: ·)
  | _ => none

def push (x : Obj) : Stack → Option Stack
  | [] => none
  | f :: st => some ({ f with items := x :: f.items } :: st)

/-- A number of an object, a generation and an `R` are a reference. -/
def pushWord (s : Octets) : Stack → Option Stack
  | ⟨isDict, .int generation :: .int id :: xs⟩ :: st =>
    if s = ascii "R" then some (⟨isDict, .ref id generation :: xs⟩ :: st)
    else push (.word s) (⟨isDict, .int generation :: .int id :: xs⟩ :: st)
  | st => push (.word s) st

def closeDict : Stack → Option Stack
  | ⟨true, xs⟩ :: st => (pairs xs.reverse).bind fun entries => push (.dict entries) st
  | _ => none

def closeArray : Stack → Option Stack
  | ⟨false, xs⟩ :: st => push (.array xs.reverse) st
  | _ => none

def feed (st : Stack) : Token → Option Stack
  | .number n => push (.int n) st
  | .real s => push (.real s) st
  | .word s => pushWord s st
  | .name s => push (.name s) st
  | .text s => push (.text s) st
  | .hex s => push (.hex s) st
  | .dictOpen => some (⟨true, []⟩ :: st)
  | .dictClose => closeDict st
  | .arrayOpen => some (⟨false, []⟩ :: st)
  | .arrayClose => closeArray st

/-- The objects and keywords that tokens are. -/
def parse (ts : List Token) : Option (List Obj) :=
  (ts.foldlM feed [⟨false, []⟩]).bind fun
    | [f] => some f.items.reverse
    | _ => none

/-- Tokens that are read as these objects, whatever stands before them. -/
def Feeds (ts : List Token) (xs : List Obj) : Prop :=
  ∀ isDict ys st, ts.foldlM feed (⟨isDict, ys⟩ :: st) =
    some (⟨isDict, xs.reverse ++ ys⟩ :: st)

namespace Obj

def entry (key : String) : Obj → Option Obj
  | .dict entries => (entries.find? (·.1 = ascii key)).map (·.2)
  | _ => none

def asInt : Obj → Option ℤ
  | .int n => some n
  | _ => none

def asName : Obj → Option Octets
  | .name s => some s
  | _ => none

def asRef : Obj → Option ℤ
  | .ref id _ => some id
  | _ => none

def asArray : Obj → Option (List Obj)
  | .array xs => some xs
  | _ => none

def int? (key : String) (x : Obj) : Option ℤ := (x.entry key).bind asInt
def name? (key : String) (x : Obj) : Option Octets := (x.entry key).bind asName
def ref? (key : String) (x : Obj) : Option ℤ := (x.entry key).bind asRef
def array? (key : String) (x : Obj) : Option (List Obj) := (x.entry key).bind asArray

/-- A dictionary of this type. -/
def isOf (type : String) (x : Obj) : Bool := x.name? "Type" = some (ascii type)

end Obj

/-- The text behind the last place where `p` stands. -/
def behindLast (p : Octets) : Octets → Option Octets
  | [] => none
  | b :: s => (behindLast p s).orElse fun _ =>
    if p <+: b :: s then some ((b :: s).drop p.length) else none

def isWord (s : String) (t : Token) : Bool := t = .word (ascii s)

/-- Where the cross-reference table is. -/
def startxref (file : Octets) : Option ℤ :=
  (behindLast (ascii "startxref") file).bind fun s =>
    match (State.run .between s).2 with
    | .number n :: _ => some n
    | _ => none

/-- Entries of a cross-reference table from a number on: the objects in use with their
places, and what follows. -/
def readEntries (id : ℤ) : ℕ → List Obj → Option (List (ℤ × ℤ) × List Obj)
  | 0, xs => some ([], xs)
  | n + 1, .int offset :: .int _ :: .word s :: xs =>
    (readEntries (id + 1) n xs).map fun r =>
      (if s = ascii "n" then (id, offset) :: r.1 else r.1, r.2)
  | _, _ => none

/-- A file that has not been updated has one section in its table. -/
def readTable : List Obj → Option (List (ℤ × ℤ) × Obj)
  | .word s :: .int first :: .int count :: xs =>
    if s = ascii "xref" then
      (readEntries first count.toNat xs).bind fun
        | (table, [.word s, trailer]) =>
          if s = ascii "trailer" then some (table, trailer) else none
        | _ => none
    else none
  | _ => none

/-- The table and the trailer of a file. -/
def readTrailer (file : Octets) : Option (List (ℤ × ℤ) × Obj) := do
  let offset ← startxref file
  let (ts, _) ← readTo (isWord "startxref") .between (file.drop offset.toNat)
  readTable (← parse ts)

/-- The objects by their numbers. -/
structure File where
  bytes : Octets
  table : List (ℤ × ℤ)

namespace File
variable (f : File)

/-- An object, whether it is the dictionary of a stream, and what follows it. -/
def objectAt (id : ℤ) : Option (Obj × Bool × Octets) := do
  let (_, offset) ← f.table.find? (·.1 = id)
  let (ts, stop, rest) ← readTo (fun t => isWord "endobj" t || isWord "stream" t) .between
    (f.bytes.drop offset.toNat)
  match ← parse ts with
  | [.int n, .int _, .word s, x] =>
    if n = id ∧ s = ascii "obj" then some (x, isWord "stream" stop, rest) else none
  | _ => none

def object (id : ℤ) : Option Obj :=
  (f.objectAt id).bind fun
    | (x, false, _) => some x
    | _ => none

/-- A stream: its dictionary, and as many bytes as that says. -/
def stream (id : ℤ) : Option (Obj × Octets) :=
  (f.objectAt id).bind fun
    | (x, true, rest) => (x.int? "Length").bind fun n =>
      if 0 ≤ n ∧ n.toNat ≤ rest.length ∧
          (readTo (fun _ => true) .between (rest.drop n.toNat)).map (fun r => r.2.1) =
            some (.word (ascii "endstream")) then
        some (x, rest.take n.toNat)
      else none
    | _ => none

end File

structure Image where
  width : ℤ
  height : ℤ
  colorSpace : Octets
  bitsPerComponent : ℤ
  data : Octets
  deriving DecidableEq

/-- Numbers of two bytes, the high byte first. -/
def bigEndian : Octets → List ℕ
  | high :: low :: s => (256 * high.toNat + low.toNat) :: bigEndian s
  | [] | [_] => []

/-- Numbers of two bytes, the low byte first. -/
def littleEndian : Octets → List ℕ
  | low :: high :: s => (256 * high.toNat + low.toNat) :: littleEndian s
  | [] | [_] => []

/-- The components of all pixels, in 8 or 16 bits. -/
def Image.samples (im : Image) : List ℕ :=
  if im.bitsPerComponent = 16 then bigEndian im.data else im.data.map UInt8.toNat

structure Page where
  rotate : ℤ
  mediaBox : List Obj
  /-- The transformation of the unit square that the image is drawn in. -/
  matrix : List Obj
  image : Image

namespace File
variable (f : File)

def readImage (id : ℤ) : Option Image := do
  let (x, data) ← f.stream id
  if x.name? "Subtype" = some (ascii "Image") then
    return ⟨← x.int? "Width", ← x.int? "Height", ← x.name? "ColorSpace",
      ← x.int? "BitsPerComponent", data⟩
  else none

/-- A page that one image is drawn on. -/
def readPage (id : ℤ) : Option Page := do
  let x ← f.object id
  if x.isOf "Page" then
    let (_, content) ← f.stream (← x.ref? "Contents")
    match ← parse (State.run .between content).2 with
    | [a, b, c, d, tx, ty, .word cm, .name drawn, .word paint] =>
      if cm = ascii "cm" ∧ paint = ascii "Do" then
        let resources ← x.entry "Resources"
        let .dict objects ← resources.entry "XObject" | none
        let image ← (← objects.find? (·.1 = drawn)).2.asRef
        return ⟨← x.int? "Rotate", ← x.array? "MediaBox", [a, b, c, d, tx, ty],
          ← f.readImage image⟩
      else none
    | _ => none
  else none

end File

/-- The pages of a file in their order. -/
def readPages (file : Octets) : Option (List Page) := do
  let (table, trailer) ← readTrailer file
  let f : File := ⟨file, table⟩
  let catalog ← f.object (← trailer.ref? "Root")
  let pages ← f.object (← catalog.ref? "Pages")
  let kids ← pages.array? "Kids"
  if catalog.isOf "Catalog" ∧ pages.isOf "Pages" ∧ pages.int? "Count" = some kids.length then
    kids.mapM fun kid => kid.asRef.bind f.readPage
  else none

/-- The text of a number. -/
def Numeric (s : Octets) : Prop := Regular s ∧ (isInteger s || isReal s) = true

def numberOf (s : Octets) : Obj := if isInteger s then .int (integerValue s) else .real s

section
variable {ts us : List Token} {xs ys : List Obj} {entries : List (Octets × Obj)} {s : Octets}

theorem numeric_cases (h : Numeric s) : (∃ n, atom s = .number n ∧ numberOf s = .int n) ∨
    atom s = .real s ∧ numberOf s = .real s := by
  unfold atom numberOf
  by_cases hi : isInteger s = true
  · exact .inl ⟨_, if_pos hi, if_pos hi⟩
  · have hr : isReal s = true := by simpa [hi] using h.2
    exact .inr ⟨by rw [if_neg hi, if_pos hr], if_neg hi⟩

namespace Feeds

theorem nil : Feeds [] [] := fun _ _ _ => rfl

theorem word (h : s ≠ ascii "R") : Feeds [.word s] [.word s] := by
  intro isDict ys st
  have hpush (st : Stack) : pushWord s st = push (.word s) st := by
    unfold pushWord
    split
    · exact if_neg h
    · rfl
  rw [List.foldlM_cons, feed, hpush]
  rfl

theorem append (h : Feeds ts xs) (h' : Feeds us ys) : Feeds (ts ++ us) (xs ++ ys) := by
  intro isDict zs st
  rw [List.foldlM_append, h, Option.bind_eq_bind, Option.bind_some, h', List.reverse_append,
    List.append_assoc]

theorem flatMap {α : Type} {f : α → List Token} {g : α → List Obj}
    (h : ∀ a, Feeds (f a) (g a)) (as : List α) : Feeds (as.flatMap f) (as.flatMap g) := by
  induction as with
  | nil => exact nil
  | cons a as ih => exact (h a).append ih

theorem dict (h : Feeds ts xs) (hp : pairs xs = some entries) :
    Feeds (.dictOpen :: (ts ++ [.dictClose])) [.dict entries] := by
  intro isDict ys st
  have hopen : feed (⟨isDict, ys⟩ :: st) .dictOpen =
      some (⟨true, []⟩ :: ⟨isDict, ys⟩ :: st) := rfl
  rw [List.foldlM_cons, hopen, Option.bind_eq_bind, Option.bind_some, List.foldlM_append, h]
  have hclose : feed (⟨true, xs.reverse ++ []⟩ :: ⟨isDict, ys⟩ :: st) .dictClose =
      some (⟨isDict, .dict entries :: ys⟩ :: st) := by
    simp [feed, closeDict, hp, push]
  rw [Option.bind_eq_bind, Option.bind_some, List.foldlM_cons, hclose]
  rfl

theorem array (h : Feeds ts xs) : Feeds (.arrayOpen :: (ts ++ [.arrayClose])) [.array xs] := by
  intro isDict ys st
  have hopen : feed (⟨isDict, ys⟩ :: st) .arrayOpen =
      some (⟨false, []⟩ :: ⟨isDict, ys⟩ :: st) := rfl
  rw [List.foldlM_cons, hopen, Option.bind_eq_bind, Option.bind_some, List.foldlM_append, h]
  have hclose : feed (⟨false, xs.reverse ++ []⟩ :: ⟨isDict, ys⟩ :: st) .arrayClose =
      some (⟨isDict, .array xs :: ys⟩ :: st) := by
    simp [feed, closeArray, push]
  rw [Option.bind_eq_bind, Option.bind_some, List.foldlM_cons, hclose]
  rfl

theorem parse (h : Feeds ts xs) : Pdf.parse ts = some xs := by
  rw [Pdf.parse, h]
  simp

end Feeds

/-- An object that the table leads to, from parts that end in a keyword. -/
theorem File.objectAt_eq {f : File} {id offset : ℕ} {ps : List Part} {k rest : Octets} {x : Obj}
    (hfind : f.table.find? (·.1 = (id : ℤ)) = some ((id : ℤ), (offset : ℤ)))
    (hdrop : f.bytes.drop offset = ps.flatMap Part.print ++ (k ++ LF :: rest)) (hps : Fits ps)
    (hk : k = ascii "endobj" ∨ k = ascii "stream")
    (hnone : ∀ t ∈ ps.flatMap Part.tokens, (isWord "endobj" t || isWord "stream" t) = false)
    (hparse : Pdf.parse (ps.flatMap Part.tokens) =
      some [.int id, .int 0, .word (ascii "obj"), x]) :
    f.objectAt id = some (x, decide (k = ascii "stream"), rest) := by
  have hword : atom k = .word k ∧ Regular k ∧
      (isWord "endobj" (.word k) || isWord "stream" (.word k)) = true ∧
      isWord "stream" (.word k) = decide (k = ascii "stream") := by
    have hall : ∀ b ∈ ascii "endobj" ++ ascii "stream", isRegular b = true :=
      forall_mem_of_all (by decide)
    rcases hk with rfl | rfl
    · exact ⟨by decide, ⟨by decide, fun b hb => hall b (List.mem_append_left _ hb)⟩,
        by decide, by decide⟩
    · exact ⟨by decide, ⟨by decide, fun b hb => hall b (List.mem_append_right _ hb)⟩,
        by decide, by decide⟩
  have hread := readTo_parts _ (t := rest) hps hnone hword.2.1 (hword.1 ▸ hword.2.2.1)
  simp only [objectAt, hfind, Option.bind_eq_bind, Option.bind_some, Int.toNat_natCast, hdrop,
    hread, hparse, hword.1, hword.2.2.2, and_self, if_true]

theorem File.object_eq {f : File} {id : ℤ} {x : Obj} {rest : Octets}
    (h : f.objectAt id = some (x, false, rest)) : f.object id = some x := by
  rw [object, h]
  rfl

/-- The data of a stream of the right length. -/
theorem File.stream_eq {f : File} {id : ℤ} {x : Obj} {data rest : Octets}
    (h : f.objectAt id = some (x, true, data ++ rest))
    (hlength : x.int? "Length" = some (data.length : ℤ))
    (hend : (readTo (fun _ => true) .between rest).map (fun r => r.2.1) =
      some (.word (ascii "endstream"))) : f.stream id = some (x, data) := by
  have hlen : data.length ≤ (data ++ rest).length := by
    rw [List.length_append]
    omega
  rw [stream, h]
  simp only [Option.bind_some, hlength, Int.toNat_natCast, List.drop_left, List.take_left, hend]
  exact if_pos ⟨Int.natCast_nonneg _, hlen, trivial⟩

theorem File.readPage_eq {f : File} {id contents drawn rotate : ℤ} {x y r v : Obj}
    {content key : Octets} {a b c d tx ty : Obj} {objects : List (Octets × Obj)}
    {mediaBox : List Obj} {image : Image}
    (hx : f.object id = some x) (hpage : x.isOf "Page" = true)
    (hcontents : x.ref? "Contents" = some contents) (hstream : f.stream contents = some (y, content))
    (hparse : parse (State.run .between content).2 = some [a, b, c, d, tx, ty,
      .word (ascii "cm"), .name key, .word (ascii "Do")])
    (hresources : x.entry "Resources" = some r)
    (hobjects : r.entry "XObject" = some (.dict objects))
    (hdrawn : objects.find? (·.1 = key) = some (key, v)) (href : v.asRef = some drawn)
    (hrotate : x.int? "Rotate" = some rotate) (hbox : x.array? "MediaBox" = some mediaBox)
    (himage : f.readImage drawn = some image) :
    f.readPage id = some ⟨rotate, mediaBox, [a, b, c, d, tx, ty], image⟩ := by
  simp [readPage, hx, hpage, hcontents, hstream, hparse, hresources, hobjects, hdrawn, href,
    hrotate, hbox, himage]

theorem readPages_eq {file : Octets} {table : List (ℤ × ℤ)} {trailer catalog pages : Obj}
    {root node : ℤ} {kids : List Obj} {found : List Page}
    (htrailer : readTrailer file = some (table, trailer)) (hroot : trailer.ref? "Root" = some root)
    (hcatalog : (File.mk file table).object root = some catalog)
    (htype : catalog.isOf "Catalog" = true) (hnode : catalog.ref? "Pages" = some node)
    (hpages : (File.mk file table).object node = some pages) (htype' : pages.isOf "Pages" = true)
    (hcount : pages.int? "Count" = some (kids.length : ℤ))
    (hkids : pages.array? "Kids" = some kids)
    (hfound : kids.mapM (fun kid => kid.asRef.bind (File.mk file table).readPage) = some found) :
    readPages file = some found := by
  simp [readPages, htrailer, hroot, hcatalog, htype, hnode, hpages, htype', hcount, hkids, hfound]

theorem bigEndian_append {s t : Octets} {n : ℕ} (h : s.length = 2 * n) :
    bigEndian (s ++ t) = bigEndian s ++ bigEndian t := by
  induction n generalizing s with
  | zero =>
    rw [List.eq_nil_of_length_eq_zero h]
    rfl
  | succ n ih =>
    match s, h with
    | high :: low :: s, h =>
      have hs : s.length = 2 * n := by
        simp only [List.length_cons] at h
        omega
      rw [List.cons_append, List.cons_append, bigEndian, ih hs, bigEndian, List.cons_append]

theorem bigEndian_flatMap {α : Type} {f : α → Octets} {as : List α} {n : ℕ}
    (h : ∀ a ∈ as, (f a).length = 2 * n) :
    bigEndian (as.flatMap f) = as.flatMap fun a => bigEndian (f a) := by
  induction as with
  | nil => rfl
  | cons a as ih =>
    rw [List.flatMap_cons, bigEndian_append (h a List.mem_cons_self),
      ih fun x hx => h x (List.mem_cons_of_mem _ hx), List.flatMap_cons]

/-- Entries for consecutive numbers. -/
theorem readEntries_eq {table : List (ℕ × ℕ)} {id : ℕ}
    (h : table.map Prod.fst = List.range' id table.length) (xs : List Obj) :
    readEntries id table.length
        (table.flatMap (fun e => [.int e.2, .int 0, .word (ascii "n")]) ++ xs) =
      some (table.map fun e => ((e.1 : ℤ), (e.2 : ℤ)), xs) := by
  induction table generalizing id with
  | nil => rfl
  | cons e table ih =>
    rw [List.map_cons, List.length_cons, List.range'_succ, List.cons.injEq] at h
    have htail := ih h.2
    rw [List.flatMap_cons, List.length_cons, List.append_assoc]
    simp only [List.cons_append, List.nil_append, readEntries, ← Nat.cast_succ, htail,
      Option.map_some, if_pos, List.map_cons, h.1]

/-- The last place where something stands that begins as nothing behind it does. -/
theorem behindLast_eq {b : UInt8} {p t : Octets} (hp : b ∉ p) (ht : b ∉ t) (s : Octets) :
    behindLast (b :: p) (s ++ (b :: p ++ t)) = some t := by
  have hnone : ∀ s : Octets, b ∉ s → behindLast (b :: p) s = none := by
    intro s hs
    induction s with
    | nil => rfl
    | cons c s ih =>
      have hne : ¬ b :: p <+: c :: s := by
        intro h
        exact hs (h.subset List.mem_cons_self)
      rw [behindLast, ih (fun h => hs (List.mem_cons_of_mem _ h)), if_neg hne]
      rfl
  induction s with
  | nil =>
    have hrest := hnone (p ++ t) (List.not_mem_append hp ht)
    have hpre : b :: p <+: b :: (p ++ t) := ⟨t, rfl⟩
    rw [List.nil_append, List.cons_append, behindLast, hrest, if_pos hpre]
    simp
  | cons c s ih =>
    rw [List.cons_append, behindLast, ih]
    rfl

end
end Pdf
