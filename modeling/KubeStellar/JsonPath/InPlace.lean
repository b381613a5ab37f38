import KubeStellar.JsonPath.Eval
import Mathlib.Logic.Function.Basic

/-! # Evaluation in place

`pkg/jsonpath/eval.go` with the maps and slices that it updates. A map or a slice is a cell, so a value that has been
put at several places is one map there, and an update of one is seen at all of them.
-/

namespace KubeStellar.JsonPath.InPlace

open Fuel

open Json (Step Label)

/-- What an `any` holds. -/
inductive Value (R A : Type) where
  | null
  | leaf (a : A)
  | ref (r : R)
deriving DecidableEq

inductive Cell (K R A : Type) where
  | array (elts : List (Value R A))
  | object (members : List (K × Value R A))

abbrev Heap (K R A : Type) := R → Cell K R A

/-- What is done with a child. -/
abbrev Body (K R A : Type) := Heap K R A → Value R A → Except Stop (Heap K R A × Value R A)

variable {K R A : Type} [DecidableEq K]

namespace Cell

def child : Cell K R A → Step K → Option (Value R A)
  | .array elts, .index i => elts[i]?
  | .object members, .key k => Json.lookup k members
  | _, _ => none

def put : Cell K R A → Step K → Value R A → Cell K R A
  | .array elts, .index i, x => .array (elts.set i x)
  | .object members, .key k, x => .object (Json.assign k x members)
  | cell, _, _ => cell

omit [DecidableEq K] in
def label : Cell K R A → Label K A
  | .array elts => .array elts.length
  | .object members => .object (members.map Prod.fst)

end Cell

omit [DecidableEq K] in
def Heap.label (h : Heap K R A) : Value R A → Label K A
  | .null => .null
  | .leaf a => .leaf a
  | .ref r => (h r).label

variable [DecidableEq R]

def Heap.write (h : Heap K R A) (r : R) (step : Step K) (x : Value R A) : Heap K R A :=
  Function.update h r ((h r).put step x)

variable (body : Body K R A)

/-- `typed[index] = …(typed[index])`, where a key that is not in the map gives null. The index of a slice is below its
length. -/
def visit (r : R) (h : Heap K R A) (step : Step K) : Except Stop (Heap K R A) := do
  let (h, elt) ← body h (((h r).child step).getD .null)
  return h.write r step elt

def visitEach (h : Heap K R A) (data : Value R A) (steps : List (Step K)) : Except Stop (Heap K R A) :=
  match data with
  | .ref r => steps.foldlM (visit body r) h
  | _ => .ok h

/-- `for index := range typed`. -/
def forEachChild (h : Heap K R A) (data : Value R A) : Except Stop (Heap K R A) :=
  visitEach body h data (h.label data).steps

omit [DecidableEq K] [DecidableEq R] in
def definiteIn (range : Range) (definite : Bool) : Bool :=
  definite && range.afterEnd == some (wrap (range.start + 1)) && range.stride.val == 1

def apply (fn : Value R A → Value R A) :
    Nat → Heap K R A → Value R A → List (Selector K) → Bool → Except Stop (Heap K R A × Value R A)
  | 0, _, _, _, _ => .error .outOfFuel
  | _ + 1, h, data, [], _ => .ok (h, fn data)
  | fuel + 1, h, data, .name name :: path, definite =>
    match data with
    | .ref r =>
      match h r with
      | .object typed =>
        if definite || (Json.lookup name typed).isSome then do
          let h ← visit (fun h elt => apply fn fuel h elt path definite) r h (.key name)
          return (h, data)
        else .ok (h, data)
      | .array _ => .ok (h, data)
    | _ => .ok (h, data)
  | fuel + 1, h, data, .range range :: path, definite =>
    match data with
    | .ref r =>
      match h r with
      | .array typed => do
        let h ← rangeLoop
          (fun h index => visit (fun h elt => apply fn fuel h elt path (definiteIn range definite)) r h (.index index))
          (range.limit typed.length) range.stride fuel range.start h
        return (h, data)
      | .object _ => .ok (h, data)
    | _ => .ok (h, data)
  | fuel + 1, h, data, .list list :: path, definite =>
    list.foldlM (fun state sub => apply fn fuel state.1 state.2 (sub :: path) definite) (h, data)
  | fuel + 1, h, data, .everyChild :: path, _ => do
    let h ← forEachChild (fun h elt => apply fn fuel h elt path false) h data
    return (h, data)
  | fuel + 1, h, data, .recurse :: path, _ => do
    let (h, data) ← apply fn fuel h data path false
    let h ← forEachChild (fun h elt => apply fn fuel h elt (.recurse :: path) false) h data
    return (h, data)

variable {step step' : Step K}

section Cells

variable {cell : Cell K R A} {x c : Value R A}

omit [DecidableEq R]

omit [DecidableEq K] in
theorem mem_steps_iff {label : Label K A} : step ∈ label.steps ↔ label.Has step := by
  cases label <;> cases step <;> simp [Label.steps, Label.Has]

theorem Cell.has_label_iff : cell.label.Has step ↔ ∃ c, cell.child step = some c := by
  rw [← Option.isSome_iff_exists]
  cases cell <;> cases step <;> simp [Cell.label, Label.Has, Cell.child, Json.lookup_isSome_iff]

theorem Cell.takes_put (cell : Cell K R A) (step : Step K) (x : Value R A) :
    (cell.put step x).label.Takes step' ↔ cell.label.Takes step' := by
  cases cell <;> cases step <;> cases step' <;> simp [Cell.put, Cell.label, Label.Takes]

theorem Cell.child_put (cell : Cell K R A) (step step' : Step K) (x : Value R A) : (cell.put step x).child step' =
    if step' = step ∧ cell.label.Takes step then some x else cell.child step' := by
  cases cell <;> cases step <;> cases step' <;>
    simp [Cell.put, Cell.child, Cell.label, Label.Takes, Json.lookup_assign]
  rename_i elts i j
  rw [List.getElem?_set]
  by_cases hIndex : i = j <;> by_cases hLess : i < elts.length <;> simp_all [eq_comm]

end Cells

variable {r r' : R} {h : Heap K R A}

theorem Heap.write_same (h : Heap K R A) (r : R) (step : Step K) (x : Value R A) :
    h.write r step x r = (h r).put step x :=
  Function.update_self _ _ _

theorem Heap.write_other (h : Heap K R A) (hRef : r' ≠ r) (step : Step K) (x : Value R A) :
    h.write r step x r' = h r' :=
  Function.update_of_ne hRef _ _

theorem Heap.child_write (h : Heap K R A) (r r' : R) (step step' : Step K) (x : Value R A) :
    (h.write r step x r').child step' =
      if (r' = r ∧ step' = step) ∧ (h r).label.Takes step then some x else (h r').child step' := by
  by_cases hRef : r' = r
  · subst hRef
    simp only [Heap.write_same, Cell.child_put, true_and]
  · rw [Heap.write_other h hRef, if_neg fun hSame => hRef hSame.1.1]

theorem Heap.takes_write (h : Heap K R A) (r r' : R) (step step' : Step K) (x : Value R A) :
    (h.write r step x r').label.Takes step' ↔ (h r').label.Takes step' := by
  by_cases hRef : r' = r
  · rw [hRef, Heap.write_same, Cell.takes_put]
  · rw [Heap.write_other h hRef]

section MoreFuel

variable {body body' : Body K R A}
  (hBody : ∀ h x, Below Stop.outOfFuel (body h x) (body' h x))

include hBody

theorem below_visit (r : R) (h : Heap K R A) (step : Step K) :
    Below Stop.outOfFuel (visit body r h step) (visit body' r h step) :=
  (hBody _ _).bind fun _ => .refl _

theorem below_visitEach (h : Heap K R A) (data : Value R A) (steps : List (Step K)) :
    Below Stop.outOfFuel (visitEach body h data steps) (visitEach body' h data steps) := by
  cases data with
  | null | leaf a => exact .refl _
  | ref r => exact Below.foldlM (below_visit hBody r) _ _

end MoreFuel

end KubeStellar.JsonPath.InPlace
