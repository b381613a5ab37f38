import KubeStellar.Containers.MapTypes

/-! # Factored maps and their observers

`genericFactoredMap` of `pkg/placement/map-factored.go`, as `NewFactoredMapMap` makes it, and the aggregation of
`NewFactoredMapMapAggregator`. One observer is told of the changes of the whole map, one of the inner maps and one of
the outer keys.
-/

namespace KubeStellar

open FactoredMap MapWrite Option

/-- A factoring of `W` into `A` and `B`; `First` and `Second` of the source are the function and its inverse. -/
abbrev Factorer (W A B : Type) := W ≃ A × B

inductive Notice (W A B V : Type) where
  | unified (change : MapChange W V)
  /-- The Boolean that the observer gets is true for an addition. -/
  | outerKey (change : SetWrite A)
  | outer (write : MapWrite A (GoMap B V))

namespace Notice

variable {W A B V : Type}

def unified? : Notice W A B V → Option (MapChange W V)
  | unified change => some change
  | _ => none

def outerKey? : Notice W A B V → Option (SetWrite A)
  | outerKey change => some change
  | _ => none

def outer? : Notice W A B V → Option (MapWrite A (GoMap B V))
  | outer write => some write
  | _ => none

end Notice

variable {W A B V G : Type} [DecidableEq A] [DecidableEq B] (keyDecomposer : Factorer W A B)
  (m : FactoredMap A B Unit)

namespace GenericFactoredMap

variable (fm : FactoredMap A B V)

def put (wholeKey : W) (val : V) : FactoredMap A B V × List (Notice W A B V) :=
  let decomposedKey := keyDecomposer wholeKey
  (fm.put decomposedKey.1 decomposedKey.2 val,
    match fm.index decomposedKey.1 with
    | none =>
      [.outerKey (.add decomposedKey.1), .unified (.create wholeKey val),
        .outer (.put decomposedKey.1 (GoMap.put ∅ decomposedKey.2 val))]
    | some innerMap =>
      match innerMap.get decomposedKey.2 with
      | some oldVal =>
        [.unified (.update wholeKey oldVal val), .outer (.put decomposedKey.1 (innerMap.put decomposedKey.2 val))]
      | none =>
        [.unified (.create wholeKey val), .outer (.put decomposedKey.1 (innerMap.put decomposedKey.2 val))])

def delete (wholeKey : W) : FactoredMap A B V × List (Notice W A B V) :=
  let decomposedKey := keyDecomposer wholeKey
  match fm.index decomposedKey.1 with
  | none => (fm, [])
  | some innerMap =>
    match innerMap.get decomposedKey.2 with
    | none => (fm, [])
    | some oldVal =>
      (fm.delete decomposedKey.1 decomposedKey.2,
        if (innerMap.delete decomposedKey.2).isEmpty then
          [.outerKey (.remove decomposedKey.1), .outer (.delete decomposedKey.1),
            .unified (.deleteWithFinal wholeKey oldVal)]
        else
          [.outer (.put decomposedKey.1 (innerMap.delete decomposedKey.2)),
            .unified (.deleteWithFinal wholeKey oldVal)])

def write : MapWrite W V → FactoredMap A B V × List (Notice W A B V)
  | .put wholeKey val => put keyDecomposer fm wholeKey val
  | .delete wholeKey => delete keyDecomposer fm wholeKey

end GenericFactoredMap

/-- What the observer of the inner maps of `NewFactoredMapMap` is told. -/
def factoredMapMap (m : FactoredMap A B V) (w : MapWrite (A × B) V) :
    FactoredMap A B V × List (MapWrite A (GoMap B V)) :=
  let told := GenericFactoredMap.write (Equiv.refl _) m w
  (told.1, told.2.filterMap Notice.outer?)

variable (aggregate : A → GoMap B V → G)

def factoredMapMapAggregator (m : FactoredMap A B V) (w : MapWrite (A × B) V) :
    FactoredMap A B V × List (MapWrite A G) :=
  let told := factoredMapMap m w
  (told.1, told.2.map (MapWrite.mapVal aggregate))

/-- What `NewFactoredMapMapAggregator` makes of the calls on the observer of the inner maps. -/
def aggregationCalls (notices : List (Notice W A B V)) : List (MapWrite A G) :=
  (notices.filterMap Notice.outer?).map (MapWrite.mapVal aggregate)

namespace GenericFactoredMap

variable {keyDecomposer} (fm : FactoredMap A B V) (w : MapWrite W V) (aggregate : A → GoMap B V → G) (wholeKey : W)

theorem outer_put (val : V) : (put keyDecomposer fm wholeKey val).2.filterMap Notice.outer? =
    [.put (keyDecomposer wholeKey).1
      (((fm.index (keyDecomposer wholeKey).1).getD ∅).put (keyDecomposer wholeKey).2 val)] := by
  dsimp only [put]
  cases fm.index (keyDecomposer wholeKey).1 with
  | none => rfl
  | some innerMap =>
    dsimp only
    cases innerMap.get (keyDecomposer wholeKey).2 <;> rfl

variable (keyDecomposer) in
theorem delete_cases :
    (fm.content (keyDecomposer wholeKey) = none ∧
      fm.delete (keyDecomposer wholeKey).1 (keyDecomposer wholeKey).2 = fm ∧
      delete keyDecomposer fm wholeKey = (fm, [])) ∨
    ∃ inner w, fm.content (keyDecomposer wholeKey) ≠ none ∧ fm.index (keyDecomposer wholeKey).1 = some inner ∧
      (delete keyDecomposer fm wholeKey).1 = fm.delete (keyDecomposer wholeKey).1 (keyDecomposer wholeKey).2 ∧
      (delete keyDecomposer fm wholeKey).2.filterMap Notice.outer? = [w] ∧ w.key = (keyDecomposer wholeKey).1 ∧
      w.after = if (inner.delete (keyDecomposer wholeKey).2).isEmpty = true then none
        else some (inner.delete (keyDecomposer wholeKey).2) := by
  generalize hKey : keyDecomposer wholeKey = key
  simp only [delete, hKey, FactoredMap.content, FactoredMap.get]
  cases hIndex : fm.index key.1 with
  | none => exact .inl ⟨rfl, delete_of_index_eq_none hIndex key.2, rfl⟩
  | some inner =>
    dsimp only
    cases hGet : inner.get key.2 with
    | none =>
      refine .inl ⟨hGet, ?_, rfl⟩
      rw [FactoredMap.delete, hIndex]
      exact if_pos (by simp [GoMap.has, hGet])
    | some oldVal =>
      dsimp only
      refine .inr ⟨inner, if (inner.delete key.2).isEmpty then .delete key.1 else .put key.1 (inner.delete key.2),
        by simp [hGet], rfl, rfl, ?_, ?_, ?_⟩ <;> split <;> rfl

theorem write_fst : (write keyDecomposer fm w).1 = fm.write (w.mapKey keyDecomposer) := by
  cases w with
  | put wholeKey val => rfl
  | delete wholeKey =>
    rcases delete_cases keyDecomposer fm wholeKey with ⟨-, hSame, hTold⟩ | ⟨_, _, -, -, hTold, -⟩
    · rw [write, hTold]
      exact hSame.symm
    · exact hTold

theorem write_index : (write keyDecomposer fm w).1.index =
    replay fm.index ((write keyDecomposer fm w).2.filterMap Notice.outer?) := by
  funext a
  cases w with
  | put wholeKey val =>
    rw [write, outer_put]
    exact index_put fm _ a _ val
  | delete wholeKey =>
    rcases delete_cases keyDecomposer fm wholeKey with
      ⟨-, -, hTold⟩ | ⟨inner, w, -, hIndex, hFst, hTold, hKey, hAfter⟩
    · rw [write, hTold]
      rfl
    · rw [write, hFst, hTold, replay, List.foldl_cons, List.foldl_nil, on, hKey, hAfter]
      by_cases hEq : a = (keyDecomposer wholeKey).1
      · rw [if_pos hEq, hEq, index_delete_self hIndex]
      · rw [if_neg hEq, index_delete_of_ne fm _ hEq]

theorem write_nonempty {fm : FactoredMap A B V} {w : MapWrite W V} {u : MapWrite A (GoMap B V)}
    (hMem : u ∈ (write keyDecomposer fm w).2.filterMap Notice.outer?) {inner : GoMap B V}
    (hTold : u.after = some inner) :
    inner.isEmpty = false := by
  cases w with
  | put wholeKey val =>
    rw [write, outer_put] at hMem
    rw [List.mem_singleton.mp hMem] at hTold
    cases hTold
    exact put_isEmpty _ _ val
  | delete wholeKey =>
    rcases delete_cases keyDecomposer fm wholeKey with
      ⟨-, -, hEq⟩ | ⟨found, w, -, -, -, hEq, -, hAfter⟩
    · rw [write, hEq] at hMem
      cases hMem
    · rw [write, hEq] at hMem
      rw [List.mem_singleton.mp hMem, hAfter] at hTold
      split at hTold
      · cases hTold
      · rename_i hEmpty
        cases hTold
        exact Bool.not_eq_true _ ▸ hEmpty

theorem write_aggregation : (fun a => ((write keyDecomposer fm w).1.index a).map (aggregate a)) =
      replay (fun a => (fm.index a).map (aggregate a))
        (aggregationCalls aggregate (write keyDecomposer fm w).2) := by
  rw [aggregationCalls, replay_mapVal, write_index]

/-- The content of the map under its whole keys. -/
def content (keyDecomposer : Factorer W A B) (fm : FactoredMap A B V) (key : W) : Option V :=
  fm.content (keyDecomposer key)

theorem content_eq_bind (key : W) : content keyDecomposer fm key =
    (fm.index (keyDecomposer key).1).bind fun innerMap => innerMap.get (keyDecomposer key).2 := rfl

variable [DecidableEq W] (ops : List (MapWrite W V)) {mm : GoMap W V}

theorem write_content : content keyDecomposer (write keyDecomposer fm w).1 = on (content keyDecomposer fm) w := by
  funext key
  rw [content, write_fst, content_write, on, on, key_mapKey, after_mapKey]
  exact if_congr keyDecomposer.apply_eq_iff_eq rfl rfl

theorem write_unified (hSame : mm.get = content keyDecomposer fm) :
    (write keyDecomposer fm w).2.filterMap Notice.unified? = (MapMap.write mm w).2 := by
  cases w with
  | put wholeKey val =>
    rw [MapMap.write, MapMap.put, hSame, content_eq_bind]
    simp only [write, put]
    cases fm.index (keyDecomposer wholeKey).1 with
    | none => rfl
    | some innerMap =>
      dsimp only
      rw [bind_some]
      cases innerMap.get (keyDecomposer wholeKey).2 <;> rfl
  | delete wholeKey =>
    rw [MapMap.write, MapMap.delete, hSame, content_eq_bind]
    simp only [write, delete]
    cases fm.index (keyDecomposer wholeKey).1 with
    | none => rfl
    | some innerMap =>
      dsimp only
      rw [bind_some]
      cases innerMap.get (keyDecomposer wholeKey).2 with
      | none => rfl
      | some oldVal =>
        dsimp only
        split <;> rfl

theorem emitAll_unified (hSame : mm.get = content keyDecomposer fm) :
    (emitAll (write keyDecomposer) fm ops).2.filterMap Notice.unified? = (emitAll MapMap.write mm ops).2 := by
  induction ops generalizing fm mm with
  | nil => rfl
  | cons w ops ih =>
    rw [emitAll, emitAll, List.filterMap_append, write_unified fm w hSame, ih]
    rw [MapMap.write_content, write_content, hSame]

omit [DecidableEq W] in
theorem write_outerKey : SetWrite.Exact (fun a => (fm.index a).isSome = true)
    (fun a => ((write keyDecomposer fm w).1.index a).isSome = true)
    ((write keyDecomposer fm w).2.filterMap Notice.outerKey?) := by
  have hOthers : ∀ a, a ≠ (keyDecomposer w.key).1 →
      (fm.index a).isSome = ((write keyDecomposer fm w).1.index a).isSome := by
    intro a hNe
    rw [write_fst]
    cases w with
    | put wholeKey val =>
      rw [mapKey, FactoredMap.write, FactoredMap.index_put]
      exact congrArg _ (if_neg hNe).symm
    | delete wholeKey => exact congrArg _ (FactoredMap.index_delete_of_ne fm _ hNe).symm
  refine Eq.mpr (congrArg _ ?_) (SetWrite.Exact.of_others _ hOthers)
  cases w with
  | put wholeKey val =>
    simp only [write, put, key, FactoredMap.index_put, if_true, Option.isSome_some]
    cases fm.index (keyDecomposer wholeKey).1 with
    | none => rfl
    | some innerMap =>
      dsimp only
      cases innerMap.get (keyDecomposer wholeKey).2 <;> rfl
  | delete wholeKey =>
    simp only [write, delete, key]
    cases hIndex : fm.index (keyDecomposer wholeKey).1 with
    | none => simp [hIndex]
    | some innerMap =>
      dsimp only
      cases innerMap.get (keyDecomposer wholeKey).2 with
      | none => simp [hIndex]
      | some oldVal =>
        simp only [FactoredMap.index_delete_self hIndex]
        split <;> rfl

omit [DecidableEq W] in
theorem index_isSome_iff (a : A) : (fm.index a).isSome = true ↔
    ∃ key val, content keyDecomposer fm key = some val ∧ (keyDecomposer key).1 = a := by
  rw [isSome_iff_ne_none, ne_eq, index_eq_none_iff, not_forall]
  constructor
  · rintro ⟨b, hSome⟩
    obtain ⟨val, hGet⟩ := ne_none_iff_exists'.mp hSome
    refine ⟨keyDecomposer.symm (a, b), val, ?_, by rw [keyDecomposer.apply_symm_apply]⟩
    rw [content, keyDecomposer.apply_symm_apply]
    exact hGet
  · rintro ⟨key, val, hGet, rfl⟩
    refine ⟨(keyDecomposer key).2, fun hNone => ?_⟩
    cases hNone.symm.trans hGet

variable (keyDecomposer)

theorem emitAll_content :
    content keyDecomposer (emitAll (write keyDecomposer) ∅ ops).1 = replay (fun _ => none) ops :=
  emitAll_view (content keyDecomposer) on (fun fm w => write_content fm w) ∅ ops

omit [DecidableEq W] in
theorem emitAll_aggregation (fm : FactoredMap A B V) (ops : List (MapWrite W V)) :
    (fun a => ((emitAll (write keyDecomposer) fm ops).1.index a).map (aggregate a)) =
      replay (fun a => (fm.index a).map (aggregate a))
        (aggregationCalls aggregate (emitAll (write keyDecomposer) fm ops).2) := by
  induction ops generalizing fm with
  | nil => rfl
  | cons w ops ih =>
    rw [emitAll, ih, write_aggregation, aggregationCalls, aggregationCalls, aggregationCalls, List.filterMap_append,
      List.map_append, replay_append]

def current (ops : List (MapWrite W V)) : W → Option V := MapWrite.replay (fun _ => none) ops

def OuterKey (f : W → Option V) (a : A) : Prop := ∃ key val, f key = some val ∧ (keyDecomposer key).1 = a

theorem index_emitAll_isSome_iff (a : A) :
    ((emitAll (write keyDecomposer) ∅ ops).1.index a).isSome = true ↔ OuterKey keyDecomposer (current ops) a := by
  rw [index_isSome_iff, emitAll_content]
  rfl

theorem get_of_index_emitAll {ops : List (MapWrite W V)} {a : A} {innerMap : GoMap B V}
    (hIndex : (emitAll (write keyDecomposer) ∅ ops).1.index a = some innerMap) (b : B) :
    innerMap.get b = current ops (keyDecomposer.symm (a, b)) := by
  rw [current, ← emitAll_content keyDecomposer ops, content_eq_bind, keyDecomposer.apply_symm_apply, hIndex, bind_some]

/-- After every sequence of puts and deletes: the aggregations are those of the current inner maps, the changes of the
whole map have been told as by a plain map, and the next call tells exactly how the outer keys change. -/
theorem observers_exact (aggregate : A → GoMap B V → G) (ops : List (MapWrite W V)) :
    (∀ a g, MapWrite.replay (fun _ => none) (aggregationCalls aggregate (emitAll (write keyDecomposer) ∅ ops).2) a =
        some g ↔ ∃ innerMap, (emitAll (write keyDecomposer) ∅ ops).1.index a = some innerMap ∧
          aggregate a innerMap = g) ∧
    (∀ a, ((emitAll (write keyDecomposer) ∅ ops).1.index a).isSome = true ↔ OuterKey keyDecomposer (current ops) a) ∧
    (∀ a innerMap b, (emitAll (write keyDecomposer) ∅ ops).1.index a = some innerMap →
        innerMap.get b = current ops (keyDecomposer.symm (a, b))) ∧
    (emitAll (write keyDecomposer) ∅ ops).2.filterMap Notice.unified? = (emitAll MapMap.write ∅ ops).2 ∧
    ∀ op, SetWrite.Exact (OuterKey keyDecomposer (current ops)) (OuterKey keyDecomposer (current (ops ++ [op])))
      ((write keyDecomposer (emitAll (write keyDecomposer) ∅ ops).1 op).2.filterMap Notice.outerKey?) := by
  refine ⟨fun a g => ?_, index_emitAll_isSome_iff keyDecomposer ops,
    fun a innerMap b hIndex => get_of_index_emitAll keyDecomposer hIndex b, emitAll_unified ∅ ops rfl, fun op => ?_⟩
  · have hTold := congrFun (emitAll_aggregation keyDecomposer aggregate ∅ ops) a
    rw [← map_eq_some_iff]
    exact iff_of_eq (congrArg (· = some g) hTold.symm)
  · have hAfter : content keyDecomposer (write keyDecomposer (emitAll (write keyDecomposer) ∅ ops).1 op).1 =
        current (ops ++ [op]) := by
      rw [write_content, emitAll_content, current, replay_append]
      rfl
    refine (write_outerKey _ op).congr (fun a => (index_emitAll_isSome_iff keyDecomposer ops a).symm) fun a => ?_
    rw [index_isSome_iff, hAfter]
    rfl

end GenericFactoredMap

theorem factoredMapMap_fst (m : FactoredMap A B V) (w : MapWrite (A × B) V) : (factoredMapMap m w).1 = m.write w := by
  refine (GenericFactoredMap.write_fst m w).trans ?_
  cases w <;> rfl

theorem factoredMapMap_index (m : FactoredMap A B V) (w : MapWrite (A × B) V) :
    (factoredMapMap m w).1.index = replay m.index (factoredMapMap m w).2 :=
  GenericFactoredMap.write_index m w

theorem factoredMapMap_delete_iff (m : FactoredMap A B V) (key : A × B) :
    (factoredMapMap m (.delete key)).2 = [] ↔ m.content key = none := by
  rcases GenericFactoredMap.delete_cases (Equiv.refl _) m key with
    ⟨hNone, -, hTold⟩ | ⟨_, _, hSome, -, -, hTold, -⟩
  · exact iff_of_true (by rw [factoredMapMap, GenericFactoredMap.write, hTold]; rfl) hNone
  · exact iff_of_false (by rw [factoredMapMap, GenericFactoredMap.write, hTold]; simp) hSome

/-- `NewSetChangeProjector`: an element of the set has a part that is told and a part that is not. -/
def setChangeProjector (m : FactoredMap A B Unit) : SetWrite (A × B) → FactoredMap A B Unit × List (SetWrite A)
  | .add tup => (m.put tup.1 tup.2 (), if (m.index tup.1).isSome then [] else [.add tup.1])
  | .remove tup =>
    match m.index tup.1 with
    | none => (m, [])
    | some vals =>
      if !vals.has tup.2 then (m, [])
      else (m.delete tup.1 tup.2, if (vals.delete tup.2).isEmpty then [.remove tup.1] else [])

def outerKeys (m : FactoredMap A B Unit) (a : A) : Option Unit := (m.index a).map fun _ => ()

variable (w : SetWrite (A × B))

theorem setChangeProjector_eq :
    setChangeProjector m w = ((GenericFactoredMap.write (Equiv.refl _) m w.asMapWrite).1,
      (GenericFactoredMap.write (Equiv.refl _) m w.asMapWrite).2.filterMap Notice.outerKey?) := by
  cases w with
  | add tup =>
    simp only [setChangeProjector, SetWrite.asMapWrite, GenericFactoredMap.write, GenericFactoredMap.put,
      Equiv.refl_apply]
    cases m.index tup.1 with
    | none => rfl
    | some vals =>
      dsimp only
      cases vals.get tup.2 <;> rfl
  | remove tup =>
    simp only [setChangeProjector, SetWrite.asMapWrite, GenericFactoredMap.write, GenericFactoredMap.delete,
      Equiv.refl_apply]
    cases m.index tup.1 with
    | none => rfl
    | some vals =>
      cases hGet : vals.get tup.2 with
      | none => simp [GoMap.has, hGet]
      | some _ =>
        simp only [GoMap.has, hGet, Option.isSome_some, Bool.not_true, Bool.false_eq_true, if_false]
        by_cases hEmpty : (vals.delete tup.2).isEmpty = true <;> simp only [hEmpty, if_true] <;> rfl

theorem setChangeProjector_fst : (setChangeProjector m w).1 = m.write w.asMapWrite := by
  rw [setChangeProjector_eq, GenericFactoredMap.write_fst]
  cases w <;> rfl

theorem setChangeProjector_exact :
    SetWrite.Exact (fun a => (m.index a).isSome = true) (fun a => ((setChangeProjector m w).1.index a).isSome = true)
      (setChangeProjector m w).2 := by
  rw [setChangeProjector_eq]
  exact GenericFactoredMap.write_outerKey m w.asMapWrite

theorem setChangeProjector_accounts :
    outerKeys (setChangeProjector m w).1 = SetWrite.replay (outerKeys m) (setChangeProjector m w).2 := by
  have hKeys : ∀ (m : FactoredMap A B Unit) a, outerKeys m a = some () ↔ (m.index a).isSome = true := by
    intro m a
    rw [outerKeys]
    cases m.index a <;> simp
  funext a
  refine Option.ext fun _ => ?_
  exact (hKeys _ a).trans ((setChangeProjector_exact m w).replay_eq_some_iff (hKeys m) a).symm

end KubeStellar
