import Packrat.Defect
import Packrat.Value

/-!
# Step values of a sequence

A sequence collects one slot per step: the value of the step under the type that the step declared,
or nothing if the step is only there to be matched. The value of the sequence is then made from the
slots through handles. A handle names a step and the type that is expected there, so a handle that
belongs to another sequence is refused unless that step happens to fit.

A `Recipe` is a build function given as data: a list of items read from left to right. It is generic
in how steps are named, because a recipe is first written with names and then resolved to handles.
-/

namespace Packrat

/-- The stored value of a step. -/
structure Slot where
  /-- The type the step declared. -/
  type : ValueType
  /-- What the step produced. -/
  value : Value

/-- One slot per step; a step that is only matched leaves an empty one. -/
abbrev Slots := List (Option Slot)

/-- Names a stored value by its step and type. -/
structure Handle where
  /-- The index of the step. -/
  step : Nat
  /-- The type that the step is expected to have. -/
  type : ValueType
deriving DecidableEq

namespace Slots

/-- The value behind a handle, if the step exists, its value is there, and the types agree. -/
def find? (slots : Slots) (h : Handle) : Option Value :=
  match slots[h.step]? with
  | some (some slot) => if slot.type = h.type then some slot.value else none
  | _ => none

/-- Reads the value behind a handle and leaves it in place. -/
def get (slots : Slots) (h : Handle) : Except Fault Value :=
  match slots.find? h with
  | some v => .ok v
  | none => .error (.missingValue h.step)

/-- Moves the value behind a handle out of its slot. -/
def take (slots : Slots) (h : Handle) : Except Fault (Value × Slots) :=
  match slots.find? h with
  | some v => .ok (v, slots.set h.step none)
  | none => .error (.missingValue h.step)

end Slots

/-- One ingredient of a recipe, with steps named by `η`. -/
inductive Item (η : Type) where
  /-- The value of a step, which stays available. -/
  | get (h : η)
  /-- The value of a step, which is then gone. -/
  | take (h : η)
  /-- A fixed value. -/
  | const (v : Value)

namespace Item

/-- The value of an item, and the slots that remain. -/
def read (slots : Slots) : Item Handle → Except Fault (Value × Slots)
  | .get h => (slots.get h).map fun v => (v, slots)
  | .take h => slots.take h
  | .const v => .ok (v, slots)

/-- The values of a list of items, read from left to right. -/
def readAll (slots : Slots) : List (Item Handle) → Except Fault (List Value)
  | [] => .ok []
  | item :: rest => do
    let (v, slots) ← item.read slots
    let vs ← readAll slots rest
    return v :: vs

end Item

/-- How the value of a sequence is made, with steps named by `η`. -/
inductive Recipe (η : Type) where
  /-- The list of the items. -/
  | list (items : List (Item η))
  /-- The list of the items under a tag. -/
  | tagged (name : String) (items : List (Item η))
  /-- A single item. -/
  | single (item : Item η)

namespace Recipe

/-- The value that a recipe makes of the slots. -/
def build (recipe : Recipe Handle) (slots : Slots) : Except Fault Value :=
  match recipe with
  | .list items => (Item.readAll slots items).map .list
  | .tagged name items => (Item.readAll slots items).map fun vs => .tag name (.list vs)
  | .single item => (item.read slots).map Prod.fst

end Recipe

/-- The handles that were given a name, the latest first. -/
abbrev Handles := List (String × Handle)

namespace Handles

/-- The latest handle with this name. -/
def find? (handles : Handles) (name : String) : Option Handle := handles.lookup name

/-- Gives a handle a name, which then no longer stands for an earlier handle. -/
def insert (handles : Handles) (name : String) (h : Handle) : Handles := (name, h) :: handles

/-- The handle with this name, which has to exist. -/
def get (handles : Handles) (name : String) : Except Fault Handle :=
  match handles.find? name with
  | some h => .ok h
  | none => .error (.unknownName name)

end Handles

/-- Replaces the name in an item by its handle. -/
def Item.resolve (handles : Handles) : Item String → Except Fault (Item Handle)
  | .get name => (handles.get name).map .get
  | .take name => (handles.get name).map .take
  | .const v => .ok (.const v)

/-- Replaces the names in a list of items by their handles. -/
def Item.resolveAll (handles : Handles) : List (Item String) → Except Fault (List (Item Handle))
  | [] => .ok []
  | item :: rest => do
    let item ← item.resolve handles
    let items ← resolveAll handles rest
    return item :: items

/-- Replaces the names in a recipe by their handles. -/
def Recipe.resolve (handles : Handles) : Recipe String → Except Fault (Recipe Handle)
  | .list items => (Item.resolveAll handles items).map .list
  | .tagged name items => (Item.resolveAll handles items).map (.tagged name)
  | .single item => (item.resolve handles).map .single

end Packrat
