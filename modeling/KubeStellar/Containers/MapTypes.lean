import KubeStellar.Library.ChangeStream
import Mathlib.Data.Quot

/-! # Differences of maps

`MapEnumerateDifferences` of `pkg/placement/map-types.go`, the receiver that turns the changes it reports into puts and
deletes, and `MapMap` of `map-map.go`, which tells an observer of each change. The calls that a receiver gets are a
list of `MapChange`s.
-/

namespace KubeStellar

open List MapWrite

variable {K V : Type}

/-- A call on a `MapChangeReceiver`. -/
inductive MapChange (K V : Type) where
  | create (key : K) (val : V)
  | update (key : K) (oldVal newVal : V)
  | deleteWithFinal (key : K) (val : V)

namespace MapChange

def key : MapChange K V → K
  | create key _ => key
  | update key _ _ => key
  | deleteWithFinal key _ => key

def after : MapChange K V → Option V
  | create _ val => some val
  | update _ _ newVal => some newVal
  | deleteWithFinal _ _ => none

def asMapWrite : MapChange K V → MapWrite K V
  | create key val => .put key val
  | update key _ newVal => .put key newVal
  | deleteWithFinal key _ => .delete key

def mapKey {L : Type} (f : K → L) : MapChange K V → MapChange L V
  | create key val => create (f key) val
  | update key oldVal newVal => update (f key) oldVal newVal
  | deleteWithFinal key val => deleteWithFinal (f key) val

@[simp] theorem key_asMapWrite (change : MapChange K V) : change.asMapWrite.key = change.key := by
  cases change <;> rfl

@[simp] theorem after_asMapWrite (change : MapChange K V) : change.asMapWrite.after = change.after := by
  cases change <;> rfl

end MapChange

/-- What can be read of a `Map` that compares its keys by `r`. -/
structure AnyMap (r : Setoid K) (V : Type) where
  lenIsCheap : Bool
  len : Nat
  get : K → Option V
  visit : List (K × V)
  distinct : visit.Pairwise fun e e' => ¬ r e.1 e'.1
  get_eq_some_iff : ∀ k v, get k = some v ↔ ∃ k', r k' k ∧ (k', v) ∈ visit
  len_eq : len = visit.length

namespace AnyMap

variable {r : Setoid K} (isEqual : V → V → Bool) (left right : AnyMap r V)

def mapEqualParametric : Bool :=
  left.len == right.len && left.visit.all fun tup1 => (right.get tup1.1).any (isEqual tup1.2)

/-- The calls that enumerate `right - left`. -/
def mapEnumerateDifferencesParametric : List (MapChange K V) :=
  left.visit.filterMap (fun tup =>
    match right.get tup.1 with
    | none => some (.deleteWithFinal tup.1 tup.2)
    | some valRight => if !isEqual valRight tup.2 then some (.update tup.1 tup.2 valRight) else none) ++
  right.visit.filterMap (fun tup =>
    match left.get tup.1 with
    | none => some (.create tup.1 tup.2)
    | some _ => none)

variable {isEqual left right} {k k' : K} (m : AnyMap r V) {m : AnyMap r V}

theorem get_congr (hRel : r k k') : m.get k = m.get k' := by
  ext v
  rw [m.get_eq_some_iff, m.get_eq_some_iff]
  exact exists_congr fun _ => and_congr_left fun _ =>
    ⟨fun hRel' => r.trans hRel' hRel, fun hRel' => r.trans hRel' (r.symm hRel)⟩

theorem get_of_mem_visit {e : K × V} (hMem : e ∈ m.visit) : m.get e.1 = some e.2 :=
  (m.get_eq_some_iff e.1 e.2).mpr ⟨e.1, r.refl e.1, hMem⟩

theorem forall_visit_iff {p : K → V → Prop} (hCongr : ∀ k k' v, r k' k → p k' v → p k v) :
    (∀ e ∈ m.visit, p e.1 e.2) ↔ ∀ k v, m.get k = some v → p k v := by
  refine ⟨fun hAll k v hGet => ?_, fun hAll e hMem => hAll e.1 e.2 (get_of_mem_visit hMem)⟩
  obtain ⟨k', hRel, hMem⟩ := (m.get_eq_some_iff k v).mp hGet
  exact hCongr k k' v hRel (hAll (k', v) hMem)

def classes (m : AnyMap r V) : List (Quotient r) := m.visit.map fun e => Quotient.mk r e.1

theorem classes_nodup : m.classes.Nodup :=
  pairwise_map.mpr (m.distinct.imp fun hDist hEq => hDist (Quotient.exact hEq))

theorem mem_classes_iff (k : K) : Quotient.mk r k ∈ m.classes ↔ (m.get k).isSome = true := by
  rw [classes, mem_map, Option.isSome_iff_exists]
  constructor
  · rintro ⟨e, hMem, hEq⟩
    exact ⟨e.2, (m.get_eq_some_iff k e.2).mpr ⟨e.1, Quotient.exact hEq, hMem⟩⟩
  · rintro ⟨v, hGet⟩
    obtain ⟨k', hRel, hMem⟩ := (m.get_eq_some_iff k v).mp hGet
    exact ⟨(k', v), hMem, Quotient.sound hRel⟩

/-- One inclusion and the lengths decide whether two maps have the same keys. -/
theorem len_eq_iff (hSub : ∀ k, (left.get k).isSome = true → (right.get k).isSome = true) :
    left.len = right.len ↔ ∀ k, (right.get k).isSome = true → (left.get k).isSome = true := by
  have hLen : ∀ m : AnyMap r V, m.len = m.classes.length := fun m => m.len_eq.trans (length_map _).symm
  have hSubset : left.classes ⊆ right.classes := by
    intro q hMem
    obtain ⟨k, rfl⟩ := Quotient.exists_rep q
    exact (right.mem_classes_iff k).mpr (hSub k ((left.mem_classes_iff k).mp hMem))
  have hSubperm := subperm_of_subset left.classes_nodup hSubset
  simp only [hLen, ← mem_classes_iff]
  constructor
  · exact fun hEq k => (hSubperm.perm_of_length_le (Nat.le_of_eq hEq.symm)).mem_iff.mpr
  · intro hBack
    refine Nat.le_antisymm hSubperm.length_le (subperm_of_subset right.classes_nodup fun q hMem => ?_).length_le
    obtain ⟨k, rfl⟩ := Quotient.exists_rep q
    exact hBack k hMem

theorem mapEqualParametric_iff : mapEqualParametric isEqual left right = true ↔
    ∀ k, Option.Rel (fun v w => isEqual v w = true) (left.get k) (right.get k) := by
  have hAll := forall_visit_iff (m := left) (p := fun k v => (right.get k).any (isEqual v) = true)
    fun k k' v hRel hAny => right.get_congr hRel ▸ hAny
  -- what the comparison finds at a key, apart from keys of the right map only
  have hKey : ∀ k, Option.Rel (fun v w => isEqual v w = true) (left.get k) (right.get k) ↔
      (∀ v, left.get k = some v → (right.get k).any (isEqual v) = true) ∧
        ((right.get k).isSome = true → (left.get k).isSome = true) := by
    intro k
    cases left.get k <;> cases right.get k <;> simp
  rw [mapEqualParametric, Bool.and_eq_true, beq_iff_eq, all_eq_true, hAll, and_comm]
  simp only [hKey, forall_and]
  refine and_congr_right fun hFound => len_eq_iff fun k hSome => ?_
  obtain ⟨v, hGet⟩ := Option.isSome_iff_exists.mp hSome
  have hAny := hFound k v hGet
  revert hAny
  cases right.get k <;> simp

theorem of_mem_differences {change : MapChange K V}
    (hMem : change ∈ mapEnumerateDifferencesParametric isEqual left right) (hRel : r change.key k) :
    change.after = right.get k ∧ ¬ Option.Rel (fun v w => isEqual w v = true) (left.get k) (right.get k) := by
  rw [← left.get_congr hRel, ← right.get_congr hRel]
  rcases mem_append.mp hMem with hMem | hMem
  · obtain ⟨⟨k', v⟩, hVisit, hChange⟩ := mem_filterMap.mp hMem
    have hLeft := get_of_mem_visit hVisit
    cases hRight : right.get k' with
    | none =>
      obtain rfl : .deleteWithFinal k' v = change := by simpa [hRight] using hChange
      simp [MapChange.key, MapChange.after, hRight, hLeft]
    | some w =>
      obtain ⟨hEqual, rfl⟩ : isEqual w v = false ∧ .update k' v w = change := by simpa [hRight] using hChange
      simp [MapChange.key, MapChange.after, hRight, hLeft, hEqual]
  · obtain ⟨⟨k', w⟩, hVisit, hChange⟩ := mem_filterMap.mp hMem
    have hRight := get_of_mem_visit hVisit
    cases hLeft : left.get k' with
    | some v => simp [hLeft] at hChange
    | none =>
      obtain rfl : .create k' w = change := by simpa [hLeft] using hChange
      simp [MapChange.key, MapChange.after, hRight, hLeft]

theorem exists_mem_differences (hNot : ¬ Option.Rel (fun v w => isEqual w v = true) (left.get k) (right.get k)) :
    ∃ change ∈ mapEnumerateDifferencesParametric isEqual left right, r change.key k := by
  cases hLeft : left.get k with
  | some v =>
    obtain ⟨k', hRel, hVisit⟩ := (left.get_eq_some_iff k v).mp hLeft
    rw [hLeft, ← right.get_congr hRel] at hNot
    cases hRight : right.get k' with
    | none =>
      refine ⟨.deleteWithFinal k' v, mem_append_left _ (mem_filterMap.mpr ⟨_, hVisit, ?_⟩), hRel⟩
      simp [hRight]
    | some w =>
      refine ⟨.update k' v w, mem_append_left _ (mem_filterMap.mpr ⟨_, hVisit, ?_⟩), hRel⟩
      simpa [hRight] using hNot
  | none =>
    cases hRight : right.get k with
    | none => simp [hLeft, hRight] at hNot
    | some w =>
      obtain ⟨k', hRel, hVisit⟩ := (right.get_eq_some_iff k w).mp hRight
      refine ⟨.create k' w, mem_append_right _ (mem_filterMap.mpr ⟨_, hVisit, ?_⟩), hRel⟩
      simp [(left.get_congr hRel).trans hLeft]

theorem differences_eq_nil_iff : mapEnumerateDifferencesParametric isEqual left right = [] ↔
    ∀ k, Option.Rel (fun v w => isEqual w v = true) (left.get k) (right.get k) := by
  rw [eq_nil_iff_forall_not_mem]
  constructor
  · intro hNone k
    by_contra hNot
    obtain ⟨change, hMem, -⟩ := exists_mem_differences hNot
    exact hNone change hMem
  · exact fun hSame change hMem => (of_mem_differences hMem (r.refl _)).2 (hSame change.key)

/-- What replaying the enumerated changes makes of a value, whatever was there before. -/
theorem replay_differences {Q : Type} [DecidableEq Q] {c : K → Q} (hClass : ∀ k k', c k = c k' ↔ r k k')
    (f : Q → Option V) (k : K) {after : Option V}
    (hAfter : replay f ((mapEnumerateDifferencesParametric isEqual left right).map fun change =>
      change.asMapWrite.mapKey c) (c k) = after) :
    Option.Rel (fun v w => isEqual w v = true) (left.get k) (right.get k) ∧ after = f (c k) ∨
      ¬ Option.Rel (fun v w => isEqual w v = true) (left.get k) (right.get k) ∧ after = right.get k := by
  have hRel : ∀ change : MapChange K V, (change.asMapWrite.mapKey c).key = c k ↔ r change.key k := by simp [hClass]
  subst hAfter
  by_cases hSame : Option.Rel (fun v w => isEqual w v = true) (left.get k) (right.get k)
  · refine .inl ⟨hSame, replay_of_forall_ne (forall_mem_map.mpr fun change hMem hKey => ?_)⟩
    exact (of_mem_differences hMem ((hRel change).mp hKey)).2 hSame
  · obtain ⟨change, hMem, hKey⟩ := exists_mem_differences hSame
    refine .inr ⟨hSame, replay_eq_of_agree (forall_mem_map.mpr fun change hMem hKey => ?_) ?_⟩
    · rw [after_mapKey, MapChange.after_asMapWrite]
      exact (of_mem_differences hMem ((hRel change).mp hKey)).1
    · exact fun hNone => absurd ((hRel change).mpr hKey) (hNone _ (mem_map_of_mem hMem))

end AnyMap

variable [DecidableEq K] (inner : GoMap K V)

/-- The effect of one call on the map behind `MappingReceiverDiscardsPrevious`. -/
def mappingReceiverDiscardsPrevious : MapChange K V → GoMap K V
  | .create key val => inner.put key val
  | .update key _ newVal => inner.put key newVal
  | .deleteWithFinal key _ => inner.delete key

variable (changes : List (MapChange K V))

def receiveAll : GoMap K V :=
  changes.foldl mappingReceiverDiscardsPrevious inner

theorem get_foldl_write (m : GoMap K V) (ws : List (MapWrite K V)) :
    (ws.foldl GoMap.write m).get = replay m.get ws := by
  induction ws generalizing m with
  | nil => rfl
  | cons w ws ih => rw [foldl_cons, ih, GoMap.get_write, replay, replay, foldl_cons]

theorem get_receiveAll : (receiveAll inner changes).get = replay inner.get (changes.map MapChange.asMapWrite) := by
  have hStep : mappingReceiverDiscardsPrevious = fun (inner : GoMap K V) change => inner.write change.asMapWrite := by
    funext inner change
    cases change <;> rfl
  rw [receiveAll, hStep, ← get_foldl_write, foldl_map]

def eqSetoid (K : Type) : Setoid K := ⟨Eq, eq_equivalence⟩

/-- A built-in map, with the order in which it is visited. -/
def AnyMap.ofGoMap (ord : RangeOrder) (m : GoMap K V) : AnyMap (eqSetoid K) V where
  lenIsCheap := true
  len := m.len
  get := m.get
  visit := ord.visit m
  distinct := pairwise_map.mp (ord.visit_nodup m)
  get_eq_some_iff k v := by
    refine (ord.mem_visit_iff m k v).symm.trans ⟨fun hMem => ⟨k, rfl, hMem⟩, ?_⟩
    rintro ⟨k', rfl, hMem⟩
    exact hMem
  len_eq := (ord.perm m).length_eq.symm

variable [DecidableEq V] (ord : RangeOrder)

def mapEnumerateDifferences (ord : RangeOrder) (left right : GoMap K V) : List (MapChange K V) :=
  AnyMap.mapEnumerateDifferencesParametric (fun v w => decide (v = w)) (.ofGoMap ord left) (.ofGoMap ord right)

theorem get_receiveAll_mapEnumerateDifferences (inner left right : GoMap K V) (k : K) :
    (receiveAll inner (mapEnumerateDifferences ord left right)).get k =
      if left.get k = right.get k then inner.get k else right.get k := by
  have hMap : (mapEnumerateDifferences ord left right).map MapChange.asMapWrite =
      (mapEnumerateDifferences ord left right).map fun change => change.asMapWrite.mapKey id :=
    map_congr_left fun change _ => by cases change <;> rfl
  have hSame : Option.Rel (fun v w => decide (w = v) = true) (left.get k) (right.get k) ↔
      left.get k = right.get k := by
    cases left.get k <;> cases right.get k <;> simp [eq_comm]
  rw [get_receiveAll, hMap]
  rcases AnyMap.replay_differences (r := eqSetoid K) (c := id) (fun _ _ => Iff.rfl) inner.get k rfl with
    ⟨hRel, hAfter⟩ | ⟨hRel, hAfter⟩
  · exact hAfter.trans (if_pos (hSame.mp hRel)).symm
  · exact hAfter.trans (if_neg fun hEq => hRel (hSame.mpr hEq)).symm

variable {K V : Type} [DecidableEq K] (mm : GoMap K V) (w : MapWrite K V)

namespace MapMap

def put (mm : GoMap K V) (key : K) (val : V) : GoMap K V × List (MapChange K V) :=
  match mm.get key with
  | some oldVal => (mm.put key val, [.update key oldVal val])
  | none => (mm.put key val, [.create key val])

def delete (mm : GoMap K V) (key : K) : GoMap K V × List (MapChange K V) :=
  match mm.get key with
  | some oldVal => (mm.delete key, [.deleteWithFinal key oldVal])
  | none => (mm, [])

def write (mm : GoMap K V) : MapWrite K V → GoMap K V × List (MapChange K V)
  | .put key val => put mm key val
  | .delete key => delete mm key

theorem put_fst (key : K) (val : V) : (put mm key val).1 = mm.put key val := by
  rw [put]
  split <;> rfl

theorem delete_fst (key : K) : (delete mm key).1 = mm.delete key := by
  rw [delete]
  split
  · rfl
  · next hNone => exact (GoMap.delete_of_not_has (by rw [GoMap.has, hNone]; rfl)).symm

theorem write_fst : (write mm w).1 = mm.write w := by
  cases w with
  | put key val => exact put_fst mm key val
  | delete key => exact delete_fst mm key

theorem write_content : (write mm w).1.get = on mm.get w := by
  rw [write_fst, GoMap.get_write]

theorem write_accounts : (write mm w).1.get = replay mm.get ((write mm w).2.map MapChange.asMapWrite) := by
  rw [write_content]
  cases w with
  | put key val =>
    rw [write, put]
    split <;> rfl
  | delete key =>
    rw [write, delete]
    split
    · rfl
    · next hNone => exact on_eq_self hNone

end MapMap

end KubeStellar
