import AirSane.Xml.Reader

/-! # Children in their order

Readers for elements whose children come in a fixed order, as the sequences of a schema
have them: one child, a child that may be there, and any number of children of one name.
-/

namespace Xml
open Text

abbrev Attributes := List (Octets × Octets)

/-- What is made of the first children, and the rest of them. -/
abbrev Reader (α : Type) := StateT (List Node) Option α

section
variable {α β : Type}

/-- A reader for all children. -/
def all (r : Reader α) (ns : List Node) : Option α :=
  match r ns with
  | some (a, []) => some a
  | _ => none

/-- The text of an element without child elements. -/
def value : Reader Octets
  | [] => some ([], [])
  | [.text s] => some (s, [])
  | _ => none

def one (name : Octets) (r : Attributes → Reader α) : Reader α
  | .element n attributes children :: ns =>
    if n = name then (all (r attributes) children).map (·, ns) else none
  | _ => none

abbrev valueOf (name : Octets) : Reader Octets := one name fun _ => value

def optional (name : Octets) (r : Attributes → Reader α) : Reader (Option α)
  | .element n attributes children :: ns =>
    if n = name then (all (r attributes) children).map (some ·, ns)
    else some (none, .element n attributes children :: ns)
  | ns => some (none, ns)

def many (name : Octets) (r : Attributes → Reader α) : Reader (List α)
  | .element n attributes children :: ns =>
    if n = name then
      (all (r attributes) children).bind fun a => (many name r ns).map fun x => (a :: x.1, x.2)
    else some ([], .element n attributes children :: ns)
  | ns => some ([], ns)

abbrev valuesOf (name : Octets) : Reader (List Octets) := many name fun _ => value

/-- The names of elements. -/
def names (ns : List Node) : List Octets :=
  ns.filterMap fun
    | .text _ => none
    | .element name _ _ => some name

/-- Other children begin. -/
def Other (name : Octets) (ns : List Node) : Prop :=
  ∀ attributes children rest, ns ≠ .element name attributes children :: rest

variable {name n : Octets} {r : Attributes → Reader α} {attributes : Attributes} {a : α}
  {ns children rest : List Node}

theorem bind_of_eq {x : Reader α} {f : α → Reader β} (h : x ns = some (a, rest)) :
    (x >>= f) ns = f a rest := by
  change (x ns).bind (fun y => f y.1 y.2) = f a rest
  rw [h, Option.bind_some]

theorem all_of_eq {x : Reader α} (h : x ns = some (a, [])) : all x ns = some a := by
  rw [all, h]

theorem one_of_eq (h : r attributes children = some (a, [])) :
    one name r (.element name attributes children :: ns) = some (a, ns) := by
  rw [one, if_pos rfl, all_of_eq h, Option.map_some]

/-- Text that is more than white space. -/
def Shown (s : Octets) : Prop := s.all isWhite = false

theorem texts_eq {s : Octets} (h : Shown s) : texts s = [.text s] := by
  rw [texts, h]
  rfl

theorem names_append : names (ns ++ rest) = names ns ++ names rest := List.filterMap_append ..

theorem other_nil : Other name [] := fun _ _ _ h => List.cons_ne_nil _ _ h.symm

theorem other_cons (h : n ≠ name) : Other name (.element n attributes children :: ns) :=
  fun _ _ _ he => h (Node.element.inj (List.cons.inj he).1).1

theorem optional_of_eq (h : r attributes children = some (a, [])) :
    optional name r (.element name attributes children :: ns) = some (some a, ns) := by
  rw [optional, if_pos rfl, all_of_eq h, Option.map_some]

theorem optional_of_other (h : Other name ns) : optional name r ns = some (none, ns) := by
  rw [optional.eq_def]
  split
  · split_ifs with hn
    · exact absurd rfl (hn ▸ h _ _ _)
    · rfl
  · rfl

theorem many_of_other (h : Other name ns) : many name r ns = some ([], ns) := by
  rw [many.eq_def]
  split
  · split_ifs with hn
    · exact absurd rfl (hn ▸ h _ _ _)
    · rfl
  · rfl

end
end Xml
