import KubeStellar.Containers.MapFactored
import KubeStellar.Containers.HashMap
import KubeStellar.Library.Run
import Mathlib.Algebra.BigOperators.Group.List.Basic
import Mathlib.Data.Setoid.Basic

/-! # Indexed sets

`pkg/placement/set-indexed.go`: a set of tuples kept as a map from one part of a tuple to the set of the other parts,
over any representation, and the view of the set as that map. A set that becomes empty is taken out.
-/

namespace KubeStellar

open List Option

variable {T K V S M : Type}

structure Indexing (T K V S M : Type) where
  factoring : Factorer T K V
  valSetFactory : K → S
  vals : SetOps V S
  rep : MapOps K S M
  keyEq : Setoid K
  valEq : Setoid V
  vals_lawful : vals.Lawful valEq
  rep_lawful : rep.Lawful keyEq
  factory_empty : ∀ key, vals.visit (valSetFactory key) = []

variable {key : K} {valSet : S} {val : V}

namespace Indexing

variable (ix : Indexing T K V S M)

def tupleEq : Setoid T := (ix.keyEq.prod ix.valEq).comap ix.factoring

/-- The change of the map of sets, what `Add` returns and what the observer of the map is told. -/
def add (rep : M) (tup : T) : M × Bool × List (MapChange K S) :=
  let key := (ix.factoring tup).1
  let val := (ix.factoring tup).2
  let addVal := fun valSet => (ix.vals.add valSet val).1
  match ix.rep.get rep key with
  | some valSet => (ix.rep.modify rep key addVal, (ix.vals.add valSet val).2, [])
  | none =>
    let valSet := ix.valSetFactory key
    let put := ix.rep.put rep key valSet
    (ix.rep.modify put.1 key addVal, (ix.vals.add valSet val).2, put.2)

def remove (rep : M) (tup : T) : M × Bool × List (MapChange K S) :=
  let key := (ix.factoring tup).1
  let val := (ix.factoring tup).2
  match ix.rep.get rep key with
  | none => (rep, false, [])
  | some valSet =>
    let removed := ix.rep.modify rep key fun valSet => (ix.vals.remove valSet val).1
    if !(ix.vals.remove valSet val).2 then (removed, false, [])
    else if ix.vals.isEmpty (ix.vals.remove valSet val).1 then
      let deleted := ix.rep.delete removed key
      (deleted.1, true, deleted.2)
    else (removed, true, [])

variable {ix} {rep : M} {tup : T}

theorem get_add_of_rel (hRel : ix.keyEq key (ix.factoring tup).1) : ix.rep.get (ix.add rep tup).1 key =
    some (ix.vals.add ((ix.rep.get rep key).getD (ix.valSetFactory (ix.factoring tup).1)) (ix.factoring tup).2).1 := by
  rw [ix.rep_lawful.get_congr rep hRel, add]
  cases hGet : ix.rep.get rep (ix.factoring tup).1 with
  | some valSet =>
    simp only [ix.rep_lawful.get_modify_of_rel _ _ _ _ hRel, ix.rep_lawful.get_congr rep hRel, hGet, map_some,
      getD_some]
  | none =>
    simp only [ix.rep_lawful.get_modify_of_rel _ _ _ _ hRel, ix.rep_lawful.get_put_of_rel _ _ _ _ hRel, map_some,
      getD_none]

theorem get_add_of_not_rel (hRel : ¬ ix.keyEq key (ix.factoring tup).1) :
    ix.rep.get (ix.add rep tup).1 key = ix.rep.get rep key := by
  rw [add]
  cases hGet : ix.rep.get rep (ix.factoring tup).1 with
  | some valSet => exact ix.rep_lawful.get_modify_of_not_rel _ _ _ _ hRel
  | none =>
    exact (ix.rep_lawful.get_modify_of_not_rel _ _ _ _ hRel).trans (ix.rep_lawful.get_put_of_not_rel _ _ _ _ hRel)

def left (ix : Indexing T K V S M) (val : V) (valSet : S) : Option S :=
  if (ix.vals.remove valSet val).2 = true ∧ ix.vals.isEmpty (ix.vals.remove valSet val).1 = true then none
  else some (ix.vals.remove valSet val).1

theorem get_remove_of_rel (hRel : ix.keyEq key (ix.factoring tup).1) : ix.rep.get (ix.remove rep tup).1 key =
    (ix.rep.get rep key).bind (ix.left (ix.factoring tup).2) := by
  rw [ix.rep_lawful.get_congr rep hRel, remove]
  cases hGet : ix.rep.get rep (ix.factoring tup).1 with
  | none => exact (ix.rep_lawful.get_congr rep hRel).trans hGet
  | some valSet =>
    have hRemoved : ix.rep.get (ix.rep.modify rep (ix.factoring tup).1 fun valSet =>
        (ix.vals.remove valSet (ix.factoring tup).2).1) key = some (ix.vals.remove valSet (ix.factoring tup).2).1 := by
      rw [ix.rep_lawful.get_modify_of_rel _ _ _ _ hRel, ix.rep_lawful.get_congr rep hRel, hGet, map_some]
    simp only [bind_some, left]
    split
    · next hSame => simp_all
    · next hChanged =>
      split
      · next hEmpty => rw [if_pos ⟨by simpa using hChanged, hEmpty⟩, ix.rep_lawful.get_delete_of_rel _ _ _ hRel]
      · next hNonempty => rw [if_neg fun hBoth => hNonempty hBoth.2, hRemoved]

theorem get_remove_of_not_rel (hRel : ¬ ix.keyEq key (ix.factoring tup).1) :
    ix.rep.get (ix.remove rep tup).1 key = ix.rep.get rep key := by
  have hModify := ix.rep_lawful.get_modify_of_not_rel rep (ix.factoring tup).1
    (fun valSet => (ix.vals.remove valSet (ix.factoring tup).2).1) key hRel
  rw [remove]
  cases ix.rep.get rep (ix.factoring tup).1 with
  | none => rfl
  | some valSet =>
    dsimp only
    split
    · exact hModify
    · split
      · exact (ix.rep_lawful.get_delete_of_not_rel _ _ _ hRel).trans hModify
      · exact hModify

theorem has_valSetFactory (val : V) : ix.vals.has (ix.valSetFactory key) val = false :=
  (ix.vals_lawful.isEmpty_iff _).mp (by rw [ix.vals_lawful.isEmpty_eq, ix.factory_empty]; rfl) val

theorem nonempty_add : ix.vals.isEmpty (ix.vals.add valSet val).1 = false :=
  (ix.vals_lawful.isEmpty_eq_false_iff _).mpr
    ⟨val, (ix.vals_lawful.has_add_iff valSet val val).mpr (.inl (ix.valEq.refl val))⟩

theorem left_eq_some_iff {remaining : S} (hNonempty : ix.vals.isEmpty valSet = false) :
    ix.left val valSet = some remaining ↔
      remaining = (ix.vals.remove valSet val).1 ∧ ix.vals.isEmpty remaining = false := by
  rw [left]
  split
  · next hBoth =>
    refine iff_of_false (some_ne_none remaining).symm ?_
    rintro ⟨rfl, hLeft⟩
    rw [hBoth.2] at hLeft
    cases hLeft
  · next hKept =>
    refine some_inj.trans ⟨?_, fun hLeft => hLeft.1.symm⟩
    rintro rfl
    refine ⟨rfl, Bool.eq_false_iff.mpr fun hEmpty => hKept ⟨?_, hEmpty⟩⟩
    -- a set from which nothing was removed is as it was
    obtain ⟨val', hHas⟩ := (ix.vals_lawful.isEmpty_eq_false_iff valSet).mp hNonempty
    by_cases hRel : ix.valEq val' val
    · rw [ix.vals_lawful.remove_changed, ← ix.vals_lawful.has_congr valSet hRel, hHas]
    · have hStill := (ix.vals_lawful.has_remove_iff valSet val val').mpr ⟨hRel, hHas⟩
      rw [(ix.vals_lawful.isEmpty_iff _).mp hEmpty val'] at hStill
      cases hStill

end Indexing

structure IndexedSet (ix : Indexing T K V S M) where
  rep : M
  nonempty : ∀ key valSet, ix.rep.get rep key = some valSet → ix.vals.isEmpty valSet = false

variable {ix : Indexing T K V S M} {gi : IndexedSet ix} {e : K × S}

namespace IndexedSet

def empty (ix : Indexing T K V S M) : IndexedSet ix where
  rep := ix.rep.empty
  nonempty key valSet hGet := by
    rw [ix.rep_lawful.get_empty] at hGet
    cases hGet

def isEmpty (gi : IndexedSet ix) : Bool := ix.rep.isEmpty gi.rep

def len (gi : IndexedSet ix) : Nat := (ix.rep.visit gi.rep).foldl (fun ans tup => ans + ix.vals.len tup.2) 0

def has (gi : IndexedSet ix) (tup : T) : Bool :=
  match ix.rep.get gi.rep (ix.factoring tup).1 with
  | none => false
  | some valSet => ix.vals.has valSet (ix.factoring tup).2

def visit (gi : IndexedSet ix) : List T :=
  (ix.rep.visit gi.rep).flatMap fun tup => (ix.vals.visit tup.2).map fun val => ix.factoring.symm (tup.1, val)

def add (gi : IndexedSet ix) (tup : T) : IndexedSet ix × Bool × List (MapChange K S) where
  fst.rep := (ix.add gi.rep tup).1
  fst.nonempty key valSet hGet := by
    by_cases hRel : ix.keyEq key (ix.factoring tup).1
    · rw [Indexing.get_add_of_rel hRel] at hGet
      cases hGet
      exact Indexing.nonempty_add
    · rw [Indexing.get_add_of_not_rel hRel] at hGet
      exact gi.nonempty key valSet hGet
  snd := (ix.add gi.rep tup).2

def remove (gi : IndexedSet ix) (tup : T) : IndexedSet ix × Bool × List (MapChange K S) where
  fst.rep := (ix.remove gi.rep tup).1
  fst.nonempty key valSet hGet := by
    by_cases hRel : ix.keyEq key (ix.factoring tup).1
    · rw [Indexing.get_remove_of_rel hRel, bind_eq_some_iff] at hGet
      obtain ⟨old, hOld, hLeft⟩ := hGet
      exact ((Indexing.left_eq_some_iff (gi.nonempty key old hOld)).mp hLeft).2
    · rw [Indexing.get_remove_of_not_rel hRel] at hGet
      exact gi.nonempty key valSet hGet
  snd := (ix.remove gi.rep tup).2

def write (gi : IndexedSet ix) : SetWrite T → IndexedSet ix × List (MapChange K S)
  | .add tup => ((gi.add tup).1, (gi.add tup).2.2)
  | .remove tup => ((gi.remove tup).1, (gi.remove tup).2.2)

theorem has_iff (gi : IndexedSet ix) (tup : T) : gi.has tup = true ↔ ∃ valSet,
    ix.rep.get gi.rep (ix.factoring tup).1 = some valSet ∧ ix.vals.has valSet (ix.factoring tup).2 = true := by
  rw [has]
  cases ix.rep.get gi.rep (ix.factoring tup).1 with
  | none => simp
  | some valSet => simp

theorem has_symm_of_get (hGet : ix.rep.get gi.rep key = some valSet) (val : V) :
    gi.has (ix.factoring.symm (key, val)) = ix.vals.has valSet val := by
  simp only [has, Equiv.apply_symm_apply, hGet]

theorem has_add_iff (gi : IndexedSet ix) (tup tup' : T) :
    (gi.add tup).1.has tup' = true ↔ ix.tupleEq tup' tup ∨ gi.has tup' = true := by
  rw [has_iff, has_iff]
  by_cases hRel : ix.keyEq (ix.factoring tup').1 (ix.factoring tup).1
  · simp only [add, Indexing.get_add_of_rel hRel, some_inj, exists_eq_left', ix.vals_lawful.has_add_iff]
    refine or_congr (and_iff_right hRel).symm ?_
    cases ix.rep.get gi.rep (ix.factoring tup').1 with
    | none => simp [Indexing.has_valSetFactory]
    | some valSet => simp
  · simp only [add, Indexing.get_add_of_not_rel hRel]
    exact (or_iff_right fun hTuple => hRel hTuple.1).symm

theorem has_remove_iff (gi : IndexedSet ix) (tup tup' : T) :
    (gi.remove tup).1.has tup' = true ↔ ¬ ix.tupleEq tup' tup ∧ gi.has tup' = true := by
  rw [has_iff, has_iff]
  by_cases hRel : ix.keyEq (ix.factoring tup').1 (ix.factoring tup).1
  · simp only [remove, Indexing.get_remove_of_rel hRel]
    cases hGet : ix.rep.get gi.rep (ix.factoring tup').1 with
    | none => simp
    | some valSet =>
      simp only [bind_some, Indexing.left_eq_some_iff (gi.nonempty _ _ hGet), some_inj, exists_eq_left']
      refine ⟨?_, fun ⟨hNe, hHas⟩ => ?_⟩
      · rintro ⟨_, ⟨rfl, _⟩, hHas⟩
        obtain ⟨hNe, hHas⟩ := (ix.vals_lawful.has_remove_iff _ _ _).mp hHas
        exact ⟨fun hTuple => hNe hTuple.2, hHas⟩
      · have hStill := (ix.vals_lawful.has_remove_iff valSet (ix.factoring tup).2 (ix.factoring tup').2).mpr
          ⟨fun hVal => hNe ⟨hRel, hVal⟩, hHas⟩
        exact ⟨_, ⟨rfl, (ix.vals_lawful.isEmpty_eq_false_iff _).mpr ⟨_, hStill⟩⟩, hStill⟩
  · simp only [remove, Indexing.get_remove_of_not_rel hRel]
    exact (and_iff_right fun hTuple => hRel hTuple.1).symm

theorem add_changed (gi : IndexedSet ix) (tup : T) : (gi.add tup).2.1 = !gi.has tup := by
  simp only [add, Indexing.add, has]
  cases ix.rep.get gi.rep (ix.factoring tup).1 with
  | none => simp only [ix.vals_lawful.add_changed, Indexing.has_valSetFactory]
  | some valSet => exact ix.vals_lawful.add_changed valSet (ix.factoring tup).2

theorem remove_changed (gi : IndexedSet ix) (tup : T) : (gi.remove tup).2.1 = gi.has tup := by
  simp only [remove, Indexing.remove, has]
  cases ix.rep.get gi.rep (ix.factoring tup).1 with
  | none => rfl
  | some valSet =>
    simp only [ix.vals_lawful.remove_changed]
    cases ix.vals.has valSet (ix.factoring tup).2 with
    | false => rfl
    | true =>
      simp only [Bool.not_true, Bool.false_eq_true, if_false]
      split <;> rfl

theorem mem_visit_iff (gi : IndexedSet ix) (tup : T) : tup ∈ gi.visit ↔
    ∃ valSet, ((ix.factoring tup).1, valSet) ∈ ix.rep.visit gi.rep ∧ (ix.factoring tup).2 ∈ ix.vals.visit valSet := by
  rw [visit, mem_flatMap]
  refine ⟨?_, fun ⟨valSet, hMem, hVal⟩ => ⟨_, hMem, List.mem_map.mpr ⟨_, hVal, ?_⟩⟩⟩
  · rintro ⟨⟨key, valSet⟩, hMem, hTup⟩
    obtain ⟨val, hVal, rfl⟩ := List.mem_map.mp hTup
    rw [Equiv.apply_symm_apply]
    exact ⟨valSet, hMem, hVal⟩
  · exact ix.factoring.symm_apply_apply tup

theorem length_visit (gi : IndexedSet ix) : gi.visit.length = gi.len := by
  rw [visit, length_flatMap, len, sum_eq_foldl, foldl_map]
  simp only [length_map, ix.vals_lawful.len_eq]

theorem visit_nonempty (hMem : e ∈ ix.rep.visit gi.rep) : ix.vals.isEmpty e.2 = false :=
  gi.nonempty e.1 e.2 ((ix.rep_lawful.get_eq_some_iff gi.rep e.1 e.2).mpr ⟨e.1, ix.keyEq.refl e.1, hMem⟩)

theorem visit_eq_nil_iff (gi : IndexedSet ix) : gi.visit = [] ↔ ix.rep.visit gi.rep = [] := by
  refine ⟨fun hNil => eq_nil_iff_forall_not_mem.mpr fun e hMem => ?_, fun hNil => by rw [visit, hNil]; rfl⟩
  have hNonempty := visit_nonempty hMem
  rw [ix.vals_lawful.isEmpty_eq, map_eq_nil_iff.mp (flatMap_eq_nil_iff.mp hNil e hMem)] at hNonempty
  cases hNonempty

def setOps (ix : Indexing T K V S M) : SetOps T (IndexedSet ix) where
  empty := empty ix
  isEmpty := isEmpty
  len := len
  has := has
  visit := visit
  add gi tup := ((gi.add tup).1, (gi.add tup).2.1)
  remove gi tup := ((gi.remove tup).1, (gi.remove tup).2.1)

theorem setOps_lawful (ix : Indexing T K V S M) : (setOps ix).Lawful ix.tupleEq where
  visit_empty := (visit_eq_nil_iff _).mpr ix.rep_lawful.visit_empty
  visit_distinct gi := by
    refine pairwise_flatMap.mpr ⟨fun e _ => pairwise_map.mpr ?_, ?_⟩
    · refine (ix.vals_lawful.visit_distinct e.2).imp fun {val val'} hDist hTuple => hDist ?_
      have hVal := hTuple.2
      rwa [Equiv.apply_symm_apply, Equiv.apply_symm_apply] at hVal
    · refine (ix.rep_lawful.visit_distinct gi.rep).imp fun {e e'} hDist tup hMem tup' hMem' hTuple => hDist ?_
      obtain ⟨val, _, rfl⟩ := List.mem_map.mp hMem
      obtain ⟨val', _, rfl⟩ := List.mem_map.mp hMem'
      have hKey := hTuple.1
      rwa [Equiv.apply_symm_apply, Equiv.apply_symm_apply] at hKey
  has_iff gi tup := by
    refine (gi.has_iff tup).trans ⟨?_, ?_⟩
    · rintro ⟨valSet, hGet, hHas⟩
      obtain ⟨key, hKey, hMem⟩ := (ix.rep_lawful.get_eq_some_iff _ _ _).mp hGet
      obtain ⟨val, hVal, hMem'⟩ := (ix.vals_lawful.has_iff _ _).mp hHas
      refine ⟨ix.factoring.symm (key, val), ?_, (gi.mem_visit_iff _).mpr ⟨valSet, ?_, ?_⟩⟩
      · exact ⟨by rwa [Equiv.apply_symm_apply], by rwa [Equiv.apply_symm_apply]⟩
      · rwa [Equiv.apply_symm_apply]
      · rwa [Equiv.apply_symm_apply]
    · rintro ⟨tup', hTuple, hMem⟩
      obtain ⟨valSet, hMem, hVal⟩ := (gi.mem_visit_iff tup').mp hMem
      exact ⟨valSet, (ix.rep_lawful.get_eq_some_iff _ _ _).mpr ⟨_, hTuple.1, hMem⟩,
        (ix.vals_lawful.has_iff _ _).mpr ⟨_, hTuple.2, hVal⟩⟩
  len_eq gi := gi.length_visit.symm
  isEmpty_eq gi := by
    rw [Bool.eq_iff_iff, List.isEmpty_iff]
    refine Iff.trans ?_ gi.visit_eq_nil_iff.symm
    rw [← List.isEmpty_iff, ← ix.rep_lawful.isEmpty_eq]
    rfl
  has_add_iff := has_add_iff
  add_changed := add_changed
  has_remove_iff := has_remove_iff
  remove_changed := remove_changed

end IndexedSet

variable {First Second : Type}

/-- `NewMapRelation2`, whose maps are visited in a given order. -/
def mapRelation2 [DecidableEq First] [DecidableEq Second] (ord : RangeOrder) :
    Indexing (First × Second) First Second (MapSet Second) (GoMap First (MapSet Second)) where
  factoring := Equiv.refl _
  valSetFactory _ := ∅
  vals := mapSetOps ord
  rep := mapMapOps (MapSet Second) ord
  keyEq := eqSetoid First
  valEq := eqSetoid Second
  vals_lawful := mapSetOps_lawful ord
  rep_lawful := mapMapOps_lawful _ ord
  factory_empty _ := (mapSetOps_lawful ord).visit_empty

def hashRelation2 {hashDomainFirst : HashDomain First} {hashDomainSecond : HashDomain Second}
    (hFirst : hashDomainFirst.Lawful) (hSecond : hashDomainSecond.Lawful) :
    Indexing (First × Second) First Second (HashMap hashDomainSecond Unit)
      (HashMap hashDomainFirst (HashMap hashDomainSecond Unit)) where
  factoring := Equiv.refl _
  valSetFactory _ := newHashSet hashDomainSecond []
  vals := hashSetOps hashDomainSecond
  rep := hashMapOps hashDomainFirst (HashMap hashDomainSecond Unit)
  keyEq := boolSetoid hashDomainFirst.equal hFirst.equiv
  valEq := boolSetoid hashDomainSecond.equal hSecond.equiv
  vals_lawful := hashSetOps_lawful hSecond
  rep_lawful := hashMapOps_lawful hFirst _
  factory_empty _ := (hashSetOps_lawful hSecond).visit_empty

structure Index2 (K V S : Type) where
  isEmpty : Bool
  len : Nat
  get : K → Option S
  visit : List (K × S)
  visit1to2 : K → List V

namespace IndexedSet

def getIndex1to2 (gi : IndexedSet ix) : Index2 K V S where
  isEmpty := gi.isEmpty
  len := gi.len
  get := ix.rep.get gi.rep
  visit := ix.rep.visit gi.rep
  visit1to2 key :=
    match ix.rep.get gi.rep key with
    | some valSet => ix.vals.visit valSet
    | none => []

theorem get_of_mem_visit (hMem : e ∈ gi.getIndex1to2.visit) : gi.getIndex1to2.get e.1 = some e.2 :=
  (ix.rep_lawful.get_eq_some_iff gi.rep e.1 e.2).mpr ⟨e.1, ix.keyEq.refl e.1, hMem⟩

theorem isSome_get_iff (gi : IndexedSet ix) (key : K) : (gi.getIndex1to2.get key).isSome = true ↔
    ∃ e ∈ gi.getIndex1to2.visit, ix.keyEq e.1 key := by
  refine isSome_iff_exists.trans ⟨fun ⟨valSet, hGet⟩ => ?_, fun ⟨e, hMem, hRel⟩ => ⟨e.2, ?_⟩⟩
  · obtain ⟨key', hRel, hMem⟩ := (ix.rep_lawful.get_eq_some_iff gi.rep key valSet).mp hGet
    exact ⟨(key', valSet), hMem, hRel⟩
  · exact (ix.rep_lawful.get_eq_some_iff gi.rep key e.2).mpr ⟨e.1, hRel, hMem⟩

theorem one_le_len_of_mem_visit (hMem : e ∈ ix.rep.visit gi.rep) : 1 ≤ ix.vals.len e.2 := by
  have hNonempty := visit_nonempty hMem
  rw [ix.vals_lawful.isEmpty_eq] at hNonempty
  rw [ix.vals_lawful.len_eq]
  exact length_pos_iff.mpr fun hNil => by
    rw [hNil] at hNonempty
    cases hNonempty

theorem foldl_add_iff {E : Type} {f : E → Nat} {l : List E} (hPos : ∀ e ∈ l, 1 ≤ f e) (n : Nat) :
    n + l.length ≤ l.foldl (fun ans e => ans + f e) n ∧
      (l.foldl (fun ans e => ans + f e) n = n + l.length ↔ ∀ e ∈ l, f e = 1) := by
  induction l generalizing n with
  | nil => simp
  | cons e l ih =>
    rw [forall_mem_cons] at hPos
    obtain ⟨hLe, hIff⟩ := ih hPos.2 (n + f e)
    rw [foldl_cons, length_cons, forall_mem_cons, ← hIff]
    omega

theorem len_getIndex1to2_iff (gi : IndexedSet ix) : gi.getIndex1to2.len = gi.getIndex1to2.visit.length ↔
    ∀ e ∈ gi.getIndex1to2.visit, ix.vals.len e.2 = 1 := by
  have hIff := (foldl_add_iff (fun e (hMem : e ∈ gi.getIndex1to2.visit) => one_le_len_of_mem_visit hMem) 0).2
  rwa [Nat.zero_add] at hIff

/-- The indexed set that additions and removals leave. -/
def after (ix : Indexing T K V S M) (ws : List (SetWrite T)) : IndexedSet ix := (emitAll write (empty ix) ws).1

theorem has_after_iff (ws : List (SetWrite T)) (tup : T) : (after ix ws).has tup = true ↔
    Run.Since (fun w => ∃ tup', w = .add tup' ∧ ix.tupleEq tup tup')
      (fun w => ∃ tup', w = .remove tup' ∧ ix.tupleEq tup tup')
      ws := by
  induction ws using List.reverseRecOn with
  | nil =>
    rw [iff_false_right Run.not_since_nil]
    exact Bool.eq_false_iff.mp ((setOps_lawful ix).has_empty tup)
  | append_singleton ws w ih =>
    rw [after, emitAll_append, Run.since_append_singleton, ← ih]
    cases w with
    | add tup' => exact (has_add_iff _ tup' tup).trans (by simp [after])
    | remove tup' => exact (has_remove_iff _ tup' tup).trans (by simp [after])

/-- After any additions and removals the index is a map from the keys to the sets of the values that go with them, but
for its length: that is the number of tuples, which is the number of keys just when each has one value. -/
theorem getIndex1to2_map_and_len_iff (ix : Indexing T K V S M) (ws : List (SetWrite T)) :
    (∀ tup, (after ix ws).has tup = true ↔ Run.Since (fun w => ∃ tup', w = .add tup' ∧ ix.tupleEq tup tup')
      (fun w => ∃ tup', w = .remove tup' ∧ ix.tupleEq tup tup') ws) ∧
    (∀ key, ((after ix ws).getIndex1to2.get key).isSome = true ↔
      ∃ e ∈ (after ix ws).getIndex1to2.visit, ix.keyEq e.1 key) ∧
    ((after ix ws).getIndex1to2.visit.Pairwise fun e e' => ¬ ix.keyEq e.1 e'.1) ∧
    (∀ e ∈ (after ix ws).getIndex1to2.visit, (after ix ws).getIndex1to2.get e.1 = some e.2) ∧
    (∀ key valSet, (after ix ws).getIndex1to2.get key = some valSet →
      (∀ val, ix.vals.has valSet val = (after ix ws).has (ix.factoring.symm (key, val))) ∧
      ix.vals.isEmpty valSet = false) ∧
    ((after ix ws).getIndex1to2.len = (after ix ws).getIndex1to2.visit.length ↔
      ∀ e ∈ (after ix ws).getIndex1to2.visit, ix.vals.len e.2 = 1) := by
  refine ⟨has_after_iff ws, fun key => isSome_get_iff _ key, ix.rep_lawful.visit_distinct _,
    fun e hMem => get_of_mem_visit hMem, fun key valSet hGet => ⟨fun val => ?_, ?_⟩, len_getIndex1to2_iff _⟩
  · exact (has_symm_of_get hGet val).symm
  · exact nonempty _ key valSet hGet

/-- Two keys with one value each. -/
theorem getIndex1to2_map_and_len_iff_two_keys :
    (after (mapRelation2 .insertion) [.add ("a", 1), .add ("b", 2)]).getIndex1to2.len =
      (after (mapRelation2 .insertion) [.add ("a", 1), .add ("b", 2)]).getIndex1to2.visit.length :=
  (getIndex1to2_map_and_len_iff (mapRelation2 .insertion) [.add ("a", 1), .add ("b", 2)]).2.2.2.2.2.mpr (by decide)

/-- One key with two values: the length is 2 and one key is visited. -/
theorem getIndex1to2_len_ne_of_two_values :
    (after (mapRelation2 .insertion) [.add ("a", 1), .add ("a", 2)]).getIndex1to2.len = 2 ∧
      (after (mapRelation2 .insertion) [.add ("a", 1), .add ("a", 2)]).getIndex1to2.visit.map Prod.fst = ["a"] := by
  decide

end IndexedSet

end KubeStellar
