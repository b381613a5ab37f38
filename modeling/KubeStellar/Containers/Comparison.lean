import KubeStellar.Containers.MapTypes

/-! # Comparison of sets and of maps

The comparisons of `pkg/placement/set-types.go` and `map-types.go`, which look at the elements that one
side has and the other lacks. Two collections are equal for them iff they have the same elements.
-/

namespace KubeStellar

open List

structure Comparison where
  lessOrEqual : Bool
  greaterOrEqual : Bool

def Comparison.isEqual (comp : Comparison) : Bool := comp.lessOrEqual && comp.greaterOrEqual

/-- What can be read of a `Set`: it is read like a map without values. -/
abbrev AnySet {E : Type} (r : Setoid E) := AnyMap r Unit

namespace AnySet

variable {E : Type} {r : Setoid E} (set1 set2 left right : AnySet r)

def has (elt : E) : Bool := (set1.get elt).isSome

def elements : List E := set1.visit.map Prod.fst

def setLessOrEqual : Bool := set1.elements.all set2.has

def setCompare : Comparison := ⟨setLessOrEqual set1 set2, setLessOrEqual set2 set1⟩

def setEqual : Bool :=
  if set1.lenIsCheap then set1.len == set2.len && setLessOrEqual set1 set2 else (setCompare set1 set2).isEqual

/-- The calls that enumerate `right - left`. -/
def setEnumerateDifferences : List (SetWrite E) :=
  (left.elements.filter fun elt => !right.has elt).map .remove ++
    (right.elements.filter fun elt => !left.has elt).map .add

theorem setLessOrEqual_iff : setLessOrEqual set1 set2 = true ↔
    ∀ elt, (set1.get elt).isSome = true → (set2.get elt).isSome = true := by
  have hAll := AnyMap.forall_visit_iff (m := set1) (p := fun elt _ => (set2.get elt).isSome = true)
    fun elt elt' _ hRel hSome => set2.get_congr hRel ▸ hSome
  simp only [setLessOrEqual, elements, all_map, all_eq_true]
  refine hAll.trans (forall_congr' fun elt => ?_)
  rw [Option.isSome_iff_exists (x := set1.get elt), forall_exists_index]

theorem setEqual_iff : setEqual set1 set2 = true ↔ ∀ elt, set1.has elt = set2.has elt := by
  have hSame : (∀ elt, set1.has elt = set2.has elt) ↔
      setLessOrEqual set1 set2 = true ∧ setLessOrEqual set2 set1 = true := by
    simp only [setLessOrEqual_iff, ← forall_and, ← iff_iff_implies_and_implies, ← Bool.eq_iff_iff, has]
  rw [hSame, setEqual]
  split
  · rw [Bool.and_eq_true, beq_iff_eq, and_comm]
    refine and_congr_right fun hSub => ?_
    rw [AnyMap.len_eq_iff ((setLessOrEqual_iff set1 set2).mp hSub), setLessOrEqual_iff]
  · exact Bool.and_eq_true_iff

theorem setEnumerateDifferences_writes : (setEnumerateDifferences left right).map SetWrite.asMapWrite =
    (AnyMap.mapEnumerateDifferencesParametric (fun _ _ => true) left right).map MapChange.asMapWrite := by
  simp only [setEnumerateDifferences, AnyMap.mapEnumerateDifferencesParametric, map_append, map_map, elements]
  congr 1
  · generalize left.visit = visit
    induction visit with
    | nil => rfl
    | cons e visit ih => cases hGet : right.get e.1 <;> simp_all [has, SetWrite.asMapWrite, MapChange.asMapWrite]
  · generalize right.visit = visit
    induction visit with
    | nil => rfl
    | cons e visit ih => cases hGet : left.get e.1 <;> simp_all [has, SetWrite.asMapWrite, MapChange.asMapWrite]

theorem setEnumerateDifferences_eq_nil_iff : setEnumerateDifferences left right = [] ↔
    ∀ elt, left.has elt = right.has elt := by
  have hNil := congrArg (· = []) (setEnumerateDifferences_writes left right)
  simp only [map_eq_nil_iff, eq_iff_iff] at hNil
  refine hNil.trans (AnyMap.differences_eq_nil_iff.trans (forall_congr' fun elt => ?_))
  rw [has, has]
  cases left.get elt <;> cases right.get elt <;> simp

end AnySet

/-- The value at each class of keys. -/
def AnyMap.content {K V : Type} {r : Setoid K} (m : AnyMap r V) : Quotient r → Option V :=
  Quotient.lift m.get fun _ _ hRel => m.get_congr hRel

theorem AnySet.replay_setEnumerateDifferences {E : Type} {r : Setoid E} [DecidableEq (Quotient r)]
    (left right : AnySet r) :
    SetWrite.replay left.content ((setEnumerateDifferences left right).map (SetWrite.mapElt (Quotient.mk r))) =
      right.content := by
  have hWrites : ((setEnumerateDifferences left right).map (SetWrite.mapElt (Quotient.mk r))).map SetWrite.asMapWrite =
      (AnyMap.mapEnumerateDifferencesParametric (fun _ _ => true) left right).map fun change =>
        change.asMapWrite.mapKey (Quotient.mk r) := by
    have hMap := congrArg (List.map (MapWrite.mapKey (Quotient.mk r))) (setEnumerateDifferences_writes left right)
    simpa only [map_map, Function.comp_def, SetWrite.asMapWrite_mapElt] using hMap
  funext q
  obtain ⟨elt, rfl⟩ := Quotient.exists_rep q
  rw [SetWrite.replay, hWrites]
  rcases AnyMap.replay_differences (fun _ _ => Quotient.eq) left.content elt rfl with ⟨hSame, hAfter⟩ | ⟨-, hAfter⟩
  · refine hAfter.trans (?_ : left.get elt = right.get elt)
    revert hSame
    cases left.get elt <;> cases right.get elt <;> simp
  · exact hAfter

/-- For any sets and maps: they are compared by what they hold, and the enumerated differences turn the left one into
the right one, up to values that are equal for the comparison. -/
theorem comparisons_extensional {E K V : Type} {r : Setoid E} {q : Setoid K} [DecidableEq (Quotient r)]
    [DecidableEq (Quotient q)] (isEqual : V → V → Bool) :
    (∀ left right : AnySet r, (AnySet.setEqual left right = true ↔ ∀ elt, left.has elt = right.has elt) ∧
      SetWrite.replay left.content ((AnySet.setEnumerateDifferences left right).map (SetWrite.mapElt (Quotient.mk r))) =
        right.content ∧
      (AnySet.setEnumerateDifferences left right = [] ↔ ∀ elt, left.has elt = right.has elt)) ∧
    ∀ left right : AnyMap q V, (AnyMap.mapEqualParametric isEqual left right = true ↔
        ∀ k, Option.Rel (fun v w => isEqual v w = true) (left.get k) (right.get k)) ∧
      (∀ k, Option.Rel (fun v w => v = w ∨ isEqual w v = true) (MapWrite.replay left.content
        ((AnyMap.mapEnumerateDifferencesParametric isEqual left right).map fun change =>
          change.asMapWrite.mapKey (Quotient.mk q)) (Quotient.mk q k)) (right.get k)) ∧
      (AnyMap.mapEnumerateDifferencesParametric isEqual left right = [] ↔
        ∀ k, Option.Rel (fun v w => isEqual w v = true) (left.get k) (right.get k)) := by
  refine ⟨fun left right => ⟨AnySet.setEqual_iff left right, AnySet.replay_setEnumerateDifferences left right,
    AnySet.setEnumerateDifferences_eq_nil_iff left right⟩,
    fun left right => ⟨AnyMap.mapEqualParametric_iff, fun k => ?_,
    AnyMap.differences_eq_nil_iff⟩⟩
  rcases AnyMap.replay_differences (fun _ _ => Quotient.eq) left.content k rfl with ⟨hSame, hAfter⟩ | ⟨-, hAfter⟩
  · refine hAfter ▸ (?_ : Option.Rel _ (left.get k) (right.get k))
    revert hSame
    cases left.get k <;> cases right.get k <;> simp +contextual
  · rw [hAfter]
    cases right.get k <;> simp

variable {Elt : Type} (ord : RangeOrder)

def visitableToSlice (set : MapSet Elt) : List Elt := (ord.visit set).map Prod.fst

variable [DecidableEq Elt] (ord : RangeOrder)

theorem mem_visitableToSlice_iff (set : MapSet Elt) (elt : Elt) :
    elt ∈ visitableToSlice ord set ↔ set.has elt = true :=
  ord.mem_visit_keys_iff set elt

theorem has_addAll_visitableToSlice_iff (set other : MapSet Elt) (elt : Elt) :
    (set.addAll (visitableToSlice ord other)).has elt = true ↔ other.has elt = true ∨ set.has elt = true := by
  rw [MapSet.has_addAll_iff, mem_visitableToSlice_iff]

def setEqual (set1 set2 : MapSet Elt) : Bool :=
  AnySet.setEqual (.ofGoMap ord set1) (.ofGoMap ord set2)

theorem setEqual_iff (set1 set2 : MapSet Elt) :
    setEqual ord set1 set2 = true ↔ ∀ elt, set1.has elt = true ↔ set2.has elt = true :=
  (AnySet.setEqual_iff _ _).trans (forall_congr' fun _ => Bool.eq_iff_iff)

def setEnumerateDifferences (left right : MapSet Elt) : List (SetWrite Elt) :=
  AnySet.setEnumerateDifferences (.ofGoMap ord left) (.ofGoMap ord right)

theorem setEnumerateDifferences_eq_nil_iff (left right : MapSet Elt) :
    setEnumerateDifferences ord left right = [] ↔ ∀ elt, left.has elt = true ↔ right.has elt = true :=
  (AnySet.setEnumerateDifferences_eq_nil_iff _ _).trans (forall_congr' fun _ => Bool.eq_iff_iff)

variable {K V : Type} [DecidableEq K]

def mapEnumerateDifferencesParametric (isEqual : V → V → Bool) (ord : RangeOrder) (left right : GoMap K V) :
    List (MapChange K V) :=
  AnyMap.mapEnumerateDifferencesParametric isEqual (.ofGoMap ord left) (.ofGoMap ord right)

theorem mapEnumerateDifferencesParametric_eq_nil_iff (isEqual : V → V → Bool) (ord : RangeOrder)
    (left right : GoMap K V) : mapEnumerateDifferencesParametric isEqual ord left right = [] ↔
      ∀ k, Option.Rel (fun v w => isEqual w v = true) (left.get k) (right.get k) :=
  AnyMap.differences_eq_nil_iff

end KubeStellar
