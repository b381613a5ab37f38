import KubeStellar.Containers.MapTypes

/-! # Differencers

`SetUpdateToMatch` and `MapUpdateToMatch` of `pkg/placement/map-set-differencer.go` and the differencer of slices. A
map is told again for every key of the next value, changed or not.
-/

namespace KubeStellar

open List GoMap

variable {K V : Type} [DecidableEq K] (ord : RangeOrder)

def mapUpdateToMatch (ord : RangeOrder) (current target : GoMap K V) : GoMap K V × List (MapWrite K V) :=
  let tuples := ord.visit target
  let goners := tuples.foldl (fun goners tup => goners.delete tup.1) current
  let writes := tuples.map (fun tup => .put tup.1 tup.2) ++ (ord.visit goners).map fun oldTup => .delete oldTup.1
  (writes.foldl GoMap.write current, writes)

theorem get_foldl_delete (m : GoMap K V) (l : List (K × V)) (k : K) :
    (l.foldl (fun m e => m.delete e.1) m).get k = if k ∈ l.map Prod.fst then none else m.get k := by
  induction l generalizing m with
  | nil => rfl
  | cons e rest ih =>
    rw [foldl_cons, ih, get_delete]
    by_cases hKey : k = e.1
    · simp [hKey]
    · rw [if_neg hKey]
      exact if_congr (by rw [map_cons, mem_cons, or_iff_right hKey]) rfl rfl

theorem get_deleteAll (m gone : GoMap K V) (k : K) :
    ((ord.visit gone).foldl (fun m e => m.delete e.1) m).get k = if gone.has k = true then none else m.get k :=
  (get_foldl_delete m _ k).trans (if_congr (ord.mem_visit_keys_iff gone k) rfl rfl)

theorem mem_mapUpdateToMatch_iff (current target : GoMap K V) (w : MapWrite K V) :
    w ∈ (mapUpdateToMatch ord current target).2 ↔ (∃ k v, target.get k = some v ∧ w = .put k v) ∨
      (∃ k v, current.get k = some v ∧ target.get k = none ∧ w = .delete k) := by
  have hGoners : ∀ k v, ((ord.visit target).foldl (fun goners tup => goners.delete tup.1) current).get k = some v ↔
      target.get k = none ∧ current.get k = some v := by
    intro k v
    rw [get_deleteAll, GoMap.has]
    cases target.get k <;> simp
  simp only [mapUpdateToMatch, mem_append, mem_map, Prod.exists, RangeOrder.mem_visit_iff, hGoners]
  constructor
  · rintro (⟨k, v, hGet, rfl⟩ | ⟨k, v, ⟨hTarget, hCurrent⟩, rfl⟩)
    · exact .inl ⟨k, v, hGet, rfl⟩
    · exact .inr ⟨k, v, hCurrent, hTarget, rfl⟩
  · rintro (⟨k, v, hGet, rfl⟩ | ⟨k, v, hCurrent, hTarget, rfl⟩)
    · exact .inl ⟨k, v, hGet, rfl⟩
    · exact .inr ⟨k, v, ⟨hTarget, hCurrent⟩, rfl⟩

theorem after_of_mem_mapUpdateToMatch {ord : RangeOrder} {current target : GoMap K V} {w : MapWrite K V}
    (hMem : w ∈ (mapUpdateToMatch ord current target).2) : w.after = target.get w.key := by
  rcases (mem_mapUpdateToMatch_iff ord current target w).mp hMem with ⟨k, v, hGet, rfl⟩ | ⟨k, v, _, hGet, rfl⟩ <;>
    exact hGet.symm

theorem replay_mapUpdateToMatch (current target : GoMap K V) :
    MapWrite.replay current.get (mapUpdateToMatch ord current target).2 = target.get := by
  funext k
  refine MapWrite.replay_eq_of_agree (fun w hMem hKey => hKey ▸ after_of_mem_mapUpdateToMatch hMem) ?_
  intro hNone
  cases hTarget : target.get k with
  | some v => exact absurd rfl (hNone _ ((mem_mapUpdateToMatch_iff _ _ _ _).mpr (.inl ⟨k, v, hTarget, rfl⟩)))
  | none =>
    cases hCurrent : current.get k with
    | none => rfl
    | some v =>
      exact absurd rfl (hNone _ ((mem_mapUpdateToMatch_iff _ _ _ _).mpr (.inr ⟨k, v, hCurrent, hTarget, rfl⟩)))

theorem get_mapUpdateToMatch (current target : GoMap K V) : (mapUpdateToMatch ord current target).1.get = target.get :=
  (get_foldl_write _ _).trans (replay_mapUpdateToMatch ord current target)

variable {E : Type} [DecidableEq E] (sets : MapSet E × MapSet E) (target : List E)

def setUpdateStep (sets : MapSet E × MapSet E) (newElt : E) : (MapSet E × MapSet E) × List (SetWrite E) :=
  ((sets.1.add newElt, sets.2.delete newElt), if sets.1.has newElt then [] else [.add newElt])

def setUpdateToMatch (ord : RangeOrder) (current : MapSet E) (target : List E) : MapSet E × List (SetWrite E) :=
  let added := emitAll setUpdateStep (current, current) target
  let goners := ord.visit added.1.2
  (goners.foldl (fun current oldElt => current.delete oldElt.1) added.1.1,
    added.2 ++ goners.map fun oldElt => .remove oldElt.1)

theorem setUpdateStep_current (e : E) :
    (emitAll setUpdateStep sets target).1.1.get e = if e ∈ target then some () else sets.1.get e := by
  induction target generalizing sets with
  | nil => simp [emitAll]
  | cons newElt target ih =>
    rw [emitAll, ih, setUpdateStep, MapSet.add, get_put]
    by_cases hEq : e = newElt <;> simp [hEq]

theorem setUpdateStep_goners (e : E) :
    (emitAll setUpdateStep sets target).1.2.get e = if e ∈ target then none else sets.2.get e := by
  induction target generalizing sets with
  | nil => simp [emitAll]
  | cons newElt target ih =>
    rw [emitAll, ih, setUpdateStep, get_delete]
    by_cases hEq : e = newElt <;> simp [hEq]

theorem mem_setUpdateStep_iff (w : SetWrite E) :
    w ∈ (emitAll setUpdateStep sets target).2 ↔ ∃ e ∈ target, sets.1.get e = none ∧ w = .add e := by
  induction target generalizing sets with
  | nil => simp [emitAll]
  | cons newElt target ih =>
    simp only [emitAll, mem_append, ih, setUpdateStep, MapSet.add, get_put, exists_mem_cons_iff]
    by_cases hHas : sets.1.has newElt = true
    · have hSome : sets.1.get newElt ≠ none := Option.isSome_iff_ne_none.mp hHas
      rw [if_pos hHas]
      constructor
      · rintro (hMem | ⟨e, hMem, hGet, rfl⟩)
        · cases hMem
        · exact .inr ⟨e, hMem, by grind, rfl⟩
      · rintro (⟨hGet, _⟩ | ⟨e, hMem, hGet, rfl⟩)
        · exact absurd hGet hSome
        · exact .inr ⟨e, hMem, by grind, rfl⟩
    · have hNone : sets.1.get newElt = none := Option.not_isSome_iff_eq_none.mp hHas
      rw [if_neg hHas, mem_singleton]
      constructor
      · rintro (rfl | ⟨e, hMem, hGet, rfl⟩)
        · exact .inl ⟨hNone, rfl⟩
        · exact .inr ⟨e, hMem, by grind, rfl⟩
      · rintro (⟨_, rfl⟩ | ⟨e, hMem, hGet, rfl⟩)
        · exact .inl rfl
        · by_cases hEq : e = newElt
          · exact .inl (by rw [hEq])
          · exact .inr ⟨e, hMem, by rw [if_neg hEq, hGet], rfl⟩

variable (current : MapSet E) (target : List E)

theorem mem_setUpdateToMatch_iff (w : SetWrite E) :
    w ∈ (setUpdateToMatch ord current target).2 ↔ (∃ e ∈ target, current.get e = none ∧ w = .add e) ∨
      (∃ e, e ∉ target ∧ current.get e = some () ∧ w = .remove e) := by
  simp only [setUpdateToMatch, mem_append, mem_setUpdateStep_iff, mem_map, Prod.exists,
    RangeOrder.mem_visit_iff, setUpdateStep_goners]
  refine or_congr Iff.rfl ?_
  constructor
  · rintro ⟨e, _, hGet, rfl⟩
    by_cases hMem : e ∈ target
    · simp [hMem] at hGet
    · exact ⟨e, hMem, by simpa [hMem] using hGet, rfl⟩
  · rintro ⟨e, hMem, hGet, rfl⟩
    exact ⟨e, (), by simpa [hMem] using hGet, rfl⟩

theorem replay_setUpdateToMatch (e : E) :
    SetWrite.replay current.get (setUpdateToMatch ord current target).2 e = if e ∈ target then some () else none := by
  refine SetWrite.replay_eq_target ?_ ?_ ?_ ?_ e <;> intro elt
  · rw [mem_setUpdateToMatch_iff]
    rintro (⟨_, hMem, _, hEq⟩ | ⟨_, _, _, hEq⟩) <;> cases hEq
    exact hMem
  · rw [mem_setUpdateToMatch_iff]
    rintro (⟨_, hMem, _, hEq⟩ | ⟨_, hMem, _, hEq⟩) <;> cases hEq
    exact hMem
  · intro hTarget hNone
    exact (mem_setUpdateToMatch_iff _ _ _ _).mpr (.inl ⟨elt, hTarget, hNone, rfl⟩)
  · intro hTarget hSome
    obtain ⟨_, hGet⟩ := Option.ne_none_iff_exists'.mp hSome
    exact (mem_setUpdateToMatch_iff _ _ _ _).mpr (.inr ⟨elt, hTarget, hGet, rfl⟩)

theorem get_setUpdateToMatch (e : E) :
    (setUpdateToMatch ord current target).1.get e = if e ∈ target then some () else none := by
  rw [setUpdateToMatch, get_deleteAll, GoMap.has, setUpdateStep_goners, setUpdateStep_current]
  by_cases hMem : e ∈ target
  · simp [hMem]
  · cases current.get e <;> simp [hMem]

variable {E : Type}

def sliceContainsParametric (isEqual : E → E → Bool) (slice : List E) (seek : E) : Bool :=
  slice.any fun elt => isEqual elt seek

/-- The Boolean that the receiver gets is true for an addition. -/
def SliceDifference.receive (isEqual : E → E → Bool) (current newWhole : List E) : List E × List (SetWrite E) :=
  (newWhole,
    (current.filter fun oldElt => !sliceContainsParametric isEqual newWhole oldElt).map .remove ++
      (newWhole.filter fun newElt => !sliceContainsParametric isEqual current newElt).map .add)

variable [DecidableEq E]

def sliceDifferencer (current newWhole : List E) : List E × List (SetWrite E) :=
  SliceDifference.receive (fun a b => decide (a = b)) current newWhole

theorem replay_sliceDifferencer {f : E → Option Unit} {current : List E} (newWhole : List E)
    (hCurrent : ∀ e, f e = if e ∈ current then some () else none) (e : E) :
    SetWrite.replay f (sliceDifferencer current newWhole).2 e = if e ∈ newWhole then some () else none := by
  have hIn (slice : List E) (e : E) : sliceContainsParametric (fun a b => decide (a = b)) slice e =
      decide (e ∈ slice) := by
    rw [Bool.eq_iff_iff]
    simp [sliceContainsParametric]
  refine SetWrite.replay_eq_target ?_ ?_ ?_ ?_ e <;> intro elt <;>
    simp [sliceDifferencer, SliceDifference.receive, hIn, hCurrent] <;> tauto

end KubeStellar
