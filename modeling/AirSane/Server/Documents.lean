import AirSane.Server.Capabilities
import AirSane.Xml.Children

/-! # Documents as they are written

The bytes that stand for the tags and texts of a document, and the tree that they are
read back as.
-/

namespace AirSane
open Text Xml

/-- Tags are on lines of their own, unless there is text behind them. -/
def behindTag (p : List Piece) : Octets :=
  match p.head? with
  | some (.text _) => []
  | _ => crlf

def attributesText (attributes : Octets) : Octets :=
  if attributes = [] then [] else 32 :: attributes

/-- What is written into the stream. -/
def printXml : List Piece → Octets
  | [] => []
  | .start name attributes :: p =>
    LESS :: (ascii name ++ (attributesText attributes ++ [GREATER])) ++ (behindTag p ++ printXml p)
  | .text s :: p => s ++ printXml p
  | .stop name :: p => endTag (ascii name) ++ (crlf ++ printXml p)
  | .empty name :: p => emptyTag (ascii name) ++ (crlf ++ printXml p)

def xmlDeclaration : Octets := ascii "<?xml version='1.0' encoding='UTF-8'?>\r\n"

/-- Pieces that close the elements they open, with the tree of these. -/
inductive Forest : List Piece → List Node → Prop where
  | nil : Forest [] []
  | append {p q : List Piece} {ns ms : List Node} (hp : Forest p ns) (hq : Forest q ms) :
      Forest (p ++ q) (ns ++ ms)
  | leaf {name : String} {s v : Octets} (hn : Name (ascii name)) (hs : Chars s v) :
      Forest (leaf name s) [.element (ascii name) [] (texts v)]
  | empty {name : String} (hn : Name (ascii name)) :
      Forest [.empty name] [.element (ascii name) [] []]
  | element {name : String} {attributes : Octets} {l : Attributes} {p : List Piece}
      {ns : List Node} (hn : Name (ascii name))
      (hl : attributesText attributes = l.flatMap attributeText)
      (ha : ∀ x ∈ l, Name x.1 ∧ Value x.2) (hnew : (l.map Prod.fst).Nodup) (hp : Forest p ns) :
      Forest (.start name attributes :: (p ++ [.stop name])) [.element (ascii name) l ns]

section
variable {p q : List Piece} {ns ms : List Node} {name : String} {s : Octets}

theorem behindTag_append (hp : behindTag p = crlf) (hq : behindTag q = crlf) :
    behindTag (p ++ q) = crlf := by
  cases p with
  | nil => exact hq
  | cons x p => exact hp

/-- The line end behind a tag does not depend on what follows a text's element. -/
theorem printXml_append (hq : behindTag q = crlf) :
    printXml (p ++ q) = printXml p ++ printXml q := by
  induction p with
  | nil => rfl
  | cons x p ih =>
    cases x with
    | start name attributes =>
      have hbehind : behindTag (p ++ q) = behindTag p := by
        cases p with
        | nil => exact hq
        | cons x p => rfl
      rw [List.cons_append, printXml, printXml, ih, hbehind]
      simp only [List.append_assoc, List.cons_append]
    | text s => rw [List.cons_append, printXml, printXml, ih, List.append_assoc]
    | stop name =>
      rw [List.cons_append, printXml, printXml, ih]
      simp only [List.append_assoc]
    | empty name =>
      rw [List.cons_append, printXml, printXml, ih]
      simp only [List.append_assoc]

theorem Forest.behindTag (h : Forest p ns) : behindTag p = crlf := by
  induction h with
  | nil => rfl
  | append hp hq ihp ihq => exact behindTag_append ihp ihq
  | leaf hn hs => rfl
  | empty hn => rfl
  | element hn hl ha hnew hp ih => rfl

theorem content_crlf : Content crlf [] :=
  White.content fun b hb => by
    rcases List.mem_pair.1 hb with rfl | rfl <;> rfl

/-- What is written is read back as its tree. -/
theorem Forest.content (h : Forest p ns) : Content (printXml p) ns := by
  induction h with
  | nil => exact .nil
  | append hp hq ihp ihq =>
    rw [printXml_append hq.behindTag]
    exact ihp.append ihq
  | @leaf name s v hn hs =>
    have helement := (hs.inner.element (t := ⟨ascii name, []⟩) hn
      (fun x hx => absurd hx List.not_mem_nil) List.nodup_nil).append content_crlf
    have hprint : printXml (AirSane.leaf name s) =
        startTag ⟨ascii name, []⟩ ++ (s ++ endTag (ascii name)) ++ crlf := by
      simp only [AirSane.leaf, block, printXml, AirSane.behindTag, List.head?_cons, attributesText,
        startTag,
        List.flatMap_nil, List.append_assoc, List.cons_append, List.nil_append, List.append_nil,
        if_true]
    rw [hprint]
    exact helement
  | empty hn =>
    rw [printXml]
    exact (content_emptyTag hn).append (content_crlf.append .nil)
  | @element name attributes l p ns hn hl ha hnew hp ih =>
    have hstop : AirSane.behindTag [Piece.stop name] = crlf := rfl
    have helement := ((content_crlf.append ih).inner.element (t := ⟨ascii name, l⟩) hn ha
      hnew).append content_crlf
    have hprint : printXml (.start name attributes :: (p ++ [.stop name])) =
        startTag ⟨ascii name, l⟩ ++ (crlf ++ printXml p ++ endTag (ascii name)) ++ crlf := by
      rw [printXml, behindTag_append hp.behindTag hstop, printXml_append hstop, hl, startTag]
      simp only [printXml, List.append_assoc, List.append_nil]
    rw [hprint]
    exact helement

theorem Forest.block (hn : Name (ascii name)) (hp : Forest p ns) :
    Forest (block name p) [.element (ascii name) [] ns] :=
  .element hn rfl (fun _ hx => absurd hx List.not_mem_nil) List.nodup_nil hp

theorem Forest.flatMap {α : Type} {l : List α} {x : α → List Piece} {y : α → List Node}
    (h : ∀ a ∈ l, Forest (x a) (y a)) : Forest (l.flatMap x) (l.flatMap y) := by
  induction l with
  | nil => exact .nil
  | cons a l ih =>
    exact (h a List.mem_cons_self).append (ih fun b hb => h b (List.mem_cons_of_mem _ hb))

/-- A document behind its declaration. -/
theorem Forest.parse {n : Octets} {l : Attributes} (h : Forest p [.element n l ns]) :
    Xml.parse (xmlDeclaration ++ printXml p) = some (.element n l ns) := by
  have hdeclaration : xmlDeclaration = (LESS :: QUESTION ::
      (ascii "xml version='1.0' encoding='UTF-8'" ++ [QUESTION, GREATER])) ++ crlf := by
    decide +kernel
  rw [hdeclaration]
  exact (((content_instruction (by decide +kernel)).append content_crlf).append h.content).parse

/-- Escaped text is read as it was. -/
theorem chars_xmlEscape (h : ∀ b ∈ s, isChar b = true) : Chars (xmlEscape s) s := by
  induction s with
  | nil => exact .nil
  | cons b s ih =>
    have hb := h b List.mem_cons_self
    rw [xmlEscape, List.flatMap_cons]
    refine Chars.append (u := [b]) ?_ (ih fun c hc => h c (List.mem_cons_of_mem _ hc))
    have hreference (name : String) (c : UInt8) (hname : SEMICOLON ∉ ascii name)
        (hc : referenced (ascii name) = some c) :
        Chars (AMPERSAND :: (ascii name ++ [SEMICOLON])) [c] := chars_reference hname hc
    split_ifs with hquot hapos hamp hlt hgt
    · exact hquot ▸ hreference "quot" 34 (by decide) (by decide)
    · exact hapos ▸ hreference "apos" 39 (by decide) (by decide)
    · exact hamp ▸ hreference "amp" 38 (by decide) (by decide)
    · exact hlt ▸ hreference "lt" 60 (by decide) (by decide)
    · exact hgt ▸ hreference "gt" 62 (by decide) (by decide)
    · refine Xml.Plain.chars fun c hc => ?_
      rw [List.mem_singleton.1 hc]
      exact ⟨hlt, hamp, hb⟩

/-- The first element of a tree is the first one that is written. -/
theorem Forest.first (h : Forest p ns) :
    (names ns).head? = (elements p).head?.map ascii := by
  induction h with
  | nil => rfl
  | append hp hq ihp ihq =>
    rw [names_append, elements_append, List.head?_append, List.head?_append, ihp, ihq]
    cases (elements _).head? <;> rfl
  | leaf hn hs => rfl
  | empty hn => rfl
  | element hn hl ha hnew hp ih => rfl

theorem Forest.other (h : Forest p ns)
    (hname : ∀ n ∈ (elements p).head?, ascii n ≠ ascii name) : Other (ascii name) ns := by
  rintro l children rest rfl
  obtain ⟨n, hn, heq⟩ := Option.map_eq_some_iff.1 h.first.symm
  exact hname n hn heq

end

/-- Pieces of one element, and what a reader makes of it. -/
def Single {α : Type} (p : List Piece) (name : String) (r : Attributes → Reader α) (a : α) :
    Prop :=
  ∃ l children, Forest p [.element (ascii name) l children] ∧ r l children = some (a, [])

/-- What a reader makes of all that is written. -/
def Written {α : Type} (p : List Piece) (r : Reader α) (a : α) : Prop :=
  ∃ ns, Forest p ns ∧ r ns = some (a, [])

section
variable {α β : Type} {p q : List Piece} {name : String} {r : Attributes → Reader α} {a : α}
  {b : β} {s v : Octets}

theorem Written.nil : Written [] (pure a) a := ⟨[], .nil, rfl⟩

theorem Single.leaf (hn : Name (ascii name)) (hs : Chars s v) (hv : Shown v) :
    Single (leaf name s) name (fun _ => value) v :=
  ⟨[], texts v, .leaf hn hs, by rw [texts_eq hv]; rfl⟩

theorem Single.empty {x : Reader α} (hn : Name (ascii name)) (hx : x [] = some (a, [])) :
    Single [.empty name] name (fun _ => x) a :=
  ⟨[], [], .empty hn, hx⟩

theorem Written.single {x : Reader α} (h : Written p x a) (hn : Name (ascii name)) :
    Single (block name p) name (fun _ => x) a := by
  obtain ⟨ns, hp, hread⟩ := h
  exact ⟨[], ns, .block hn hp, hread⟩

/-- Children of an element with attributes. -/
theorem Written.element {attributes : Octets} {l : Attributes} (h : Written p (r l) a)
    (hn : Name (ascii name)) (hl : attributesText attributes = l.flatMap attributeText)
    (ha : ∀ x ∈ l, Name x.1 ∧ Value x.2) (hnew : (l.map Prod.fst).Nodup) :
    Single (.start name attributes :: (p ++ [.stop name])) name r a := by
  obtain ⟨ns, hp, hread⟩ := h
  exact ⟨l, ns, .element hn hl ha hnew hp, hread⟩

theorem Single.one {f : α → Reader β} (h : Single p name r a) (hq : Written q (f a) b) :
    Written (p ++ q) (one (ascii name) r >>= f) b := by
  obtain ⟨l, children, hp, hread⟩ := h
  obtain ⟨ns, hns, hrest⟩ := hq
  exact ⟨_, hp.append hns, (bind_of_eq (one_of_eq hread)).trans hrest⟩

theorem Single.only (h : Single p name r a) : Written p (Xml.one (ascii name) r) a := by
  obtain ⟨l, children, hp, hread⟩ := h
  exact ⟨_, hp, one_of_eq hread⟩

theorem Single.present {f : Option α → Reader β} (h : Single p name r a)
    (hq : Written q (f (some a)) b) :
    Written (p ++ q) (Xml.optional (ascii name) r >>= f) b := by
  obtain ⟨l, children, hp, hread⟩ := h
  obtain ⟨ns, hns, hrest⟩ := hq
  exact ⟨_, hp.append hns, (bind_of_eq (optional_of_eq hread)).trans hrest⟩

theorem Written.absent {f : Option α → Reader β} (hq : Written q (f none) b)
    (hname : ∀ n ∈ (elements q).head?, ascii n ≠ ascii name) :
    Written q (Xml.optional (ascii name) r >>= f) b := by
  obtain ⟨ns, hns, hrest⟩ := hq
  exact ⟨ns, hns, (bind_of_eq (optional_of_other (hns.other hname))).trans hrest⟩

/-- An element that is there if something is. -/
theorem Written.optionally (x : Option α) {f : Option α → Reader β}
    (hp : ∀ a ∈ x, Single p name r a) (hnone : x = none → p = []) (hq : Written q (f x) b)
    (hname : ∀ n ∈ (elements q).head?, ascii n ≠ ascii name) :
    Written (p ++ q) (Xml.optional (ascii name) r >>= f) b := by
  cases x with
  | none =>
    rw [hnone rfl, List.nil_append]
    exact hq.absent hname
  | some a => exact (hp a rfl).present hq

/-- Which element comes first. -/
def StartsWith (l : List String) (p : List Piece) : Prop := ∀ n ∈ (elements p).head?, n ∈ l

theorem StartsWith.append {k l : List String} (hp : StartsWith k p) (hq : StartsWith l q) :
    StartsWith (k ++ l) (p ++ q) := by
  intro n hn
  rw [elements_append, List.head?_append, Option.mem_def, Option.or_eq_some_iff] at hn
  rcases hn with hn | ⟨-, hn⟩
  · exact List.mem_append_left _ (hp n hn)
  · exact List.mem_append_right _ (hq n hn)

theorem StartsWith.ne {l : List String} (h : StartsWith l p)
    (hl : ∀ n ∈ l, ascii n ≠ ascii name) : ∀ n ∈ (elements p).head?, ascii n ≠ ascii name :=
  fun n hn => hl n (h n hn)

/-- Elements of one name, one for each entry of a list. -/
theorem Single.many {l : List β} {x : β → List Piece} {y : β → α}
    (h : ∀ c ∈ l, Single (x c) name r (y c)) :
    Written (l.flatMap x) (many (ascii name) r) (l.map y) := by
  induction l with
  | nil => exact ⟨[], .nil, many_of_other other_nil⟩
  | cons c l ih =>
    obtain ⟨attributes, children, hp, hread⟩ := h c List.mem_cons_self
    obtain ⟨ns, hns, hrest⟩ := ih fun d hd => h d (List.mem_cons_of_mem _ hd)
    refine ⟨.element (ascii name) attributes children :: ns, hp.append hns, ?_⟩
    rw [Xml.many, if_pos rfl, all_of_eq hread, Option.bind_some, hrest]
    rfl

/-- A document that a reader makes something of. -/
theorem Single.document (h : Single p name r a) :
    (Xml.parse (xmlDeclaration ++ printXml p)).bind (fun n => all (Xml.one (ascii name) r) [n]) =
      some a := by
  obtain ⟨l, children, hp, hread⟩ := h
  rw [hp.parse, Option.bind_some, all_of_eq (one_of_eq hread)]

end
end AirSane
