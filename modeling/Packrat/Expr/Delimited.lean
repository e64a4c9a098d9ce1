import Packrat.Expr.Build

/-!
# Delimited lists

A list of elements between an opening and a closing expression, with separators between the
elements. Only the element is required. The elements are a first one and a repetition of
"separator, element"; a list that may be empty makes that whole part optional.
-/

namespace Packrat

/-- The description of a delimited list. -/
structure Delimited where
  /-- What is listed. -/
  element : Expr
  /-- What stands between two elements. -/
  separator : Option Expr := none
  /-- What stands in front of the list. -/
  opening : Option Expr := none
  /-- What stands behind the list. -/
  closing : Option Expr := none
  /-- The least number of elements. -/
  least : Nat := 0
  /-- The largest number of elements; unlimited if absent. -/
  most : Option Nat := none

namespace Delimited

/-- An element with the separator in front of it. -/
def next (d : Delimited) : Expr :=
  match d.separator with
  | some separator =>
    .sequence .val [separator.skipped, d.element.kept]
      { apply := (Recipe.single (.take ⟨1, d.element.type⟩)).build }
  | none => d.element

/-- The value of a non-empty list: the first element and the others. -/
def cons (first rest : Handle) (slots : Slots) : Except Fault Value := do
  let (v, slots) ← slots.take first
  let (vs, _) ← slots.take rest
  return .list (v :: vs.items)

/-- A first element and as many others as `others` allows. -/
def nonempty (d : Delimited) (others : Count) : Expr :=
  let rest := d.next.repeated others
  .sequence .list [d.element.kept, rest.kept]
    { apply := cons ⟨0, d.element.type⟩ ⟨1, rest.type⟩ }

/-- The number of elements after the first. -/
def others (least : Nat) (most : Option Nat) (h : ∀ m ∈ most, least ≤ m) : Count where
  least := least - 1
  most := most.map (· - 1)
  ordered := by
    intro m hm
    obtain ⟨k, hk, rfl⟩ := Option.map_eq_some_iff.mp hm
    have := h k hk
    omega

/-- The elements without what stands around them. -/
def elements (d : Delimited) (h : ∀ m ∈ d.most, d.least ≤ m) : Expr :=
  if d.most = some 0 then
    .mapTo .list .empty fun _ => .list []
  else
    let list := d.nonempty (others d.least d.most h)
    if d.least = 0 then .orDefault .list list (.list []) else list

/-- Puts the opening and closing expressions around the elements. -/
def enclose (d : Delimited) (elements : Expr) : Expr :=
  if d.opening.isNone && d.closing.isNone then elements
  else
    let opening := d.opening.toList.map Expr.skipped
    let closing := d.closing.toList.map Expr.skipped
    .sequence .list (opening ++ elements.kept :: closing)
      { apply := (Recipe.single (.take ⟨opening.length, elements.type⟩)).build }

/-- The expression of a delimited list; refused if its bounds are out of order. -/
def toExpr? (d : Delimited) : Except Defect Expr :=
  match h : d.most with
  | none => .ok (d.enclose (d.elements (by simp [h])))
  | some most =>
    if hle : d.least ≤ most then .ok (d.enclose (d.elements (by simpa [h] using hle)))
    else .error (.emptyRange d.least most)

end Delimited

end Packrat
