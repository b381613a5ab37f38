import KubeStellar.SetBinder.Assembly

/-! # Aggregation in the organizer

Whatever is written to the full map of a scope, the maps that the sections of that scope make follow it: a
distribution has the OR of the bits of its entries, and a mode has the version of one of the entries.
-/

namespace KubeStellar.SetBinder

open List

variable (versions : GoMap ObjectName WorkloadPartDetails)

def IsOr (bits : DistributionBits) : Prop :=
  (bits.returnSingletonState = true ↔
    ∃ ep details, versions.get ep = some details ∧ details.returnSingletonState = true) ∧
  (bits.createOnly = true ↔ ∃ ep details, versions.get ep = some details ∧ details.createOnly = true)

def HasVersion (val : ProjectionModeVal) : Prop :=
  ∃ ep details, versions.get ep = some details ∧ details.apiVersion = val.apiVersion

def HasVal {Obj : Type} [DecidableEq Obj] (problem : GoMap Obj ProjectionModeVal) (val : ProjectionModeVal) : Prop :=
  ∃ obj, problem.get obj = some val

variable {Obj K V W : Type} {R : V → W → Prop}

section Folds

variable [DecidableEq Obj] (ord : RangeOrder) (pairs : List (ObjectName × WorkloadPartDetails))
  (ans : WorkloadPartDetails)

/-- The loop of `detailsSansEP`. -/
def sansEPStep (ans : WorkloadPartDetails) (pair : ObjectName × WorkloadPartDetails) : WorkloadPartDetails :=
  ⟨pair.2.apiVersion, ans.returnSingletonState || pair.2.returnSingletonState,
    ans.createOnly || pair.2.createOnly⟩

theorem foldl_sansEPStep_singleton : (pairs.foldl sansEPStep ans).returnSingletonState = true ↔
      ans.returnSingletonState = true ∨ ∃ pair ∈ pairs, pair.2.returnSingletonState = true := by
  induction pairs generalizing ans with
  | nil => simp
  | cons pair pairs ih => simp [ih, sansEPStep, or_assoc]

theorem foldl_sansEPStep_createOnly : (pairs.foldl sansEPStep ans).createOnly = true ↔
      ans.createOnly = true ∨ ∃ pair ∈ pairs, pair.2.createOnly = true := by
  induction pairs generalizing ans with
  | nil => simp
  | cons pair pairs ih => simp [ih, sansEPStep, or_assoc]

theorem foldl_last_mem {f : W → K × V → W} (hStep : ∀ w pair, R pair.2 (f w pair)) (pairs : List (K × V)) (w : W)
    (hNe : pairs ≠ []) : ∃ pair ∈ pairs, R pair.2 (pairs.foldl f w) := by
  have hFold : pairs.foldl f w = f (pairs.dropLast.foldl f w) (pairs.getLast hNe) := by
    conv_lhs => rw [← dropLast_append_getLast hNe, foldl_append]
    rfl
  exact ⟨pairs.getLast hNe, getLast_mem hNe, hFold ▸ hStep _ _⟩

theorem visit_ne_nil {m : GoMap K V} (hNe : m.isEmpty = false) : ord.visit m ≠ [] := by
  intro hNil
  have hPerm := ord.perm m
  rw [hNil] at hPerm
  rw [GoMap.isEmpty, nil_perm.mp hPerm] at hNe
  cases hNe

theorem isOr_detailsSansEP (versions : GoMap ObjectName WorkloadPartDetails) :
    IsOr versions (detailsSansEP ord versions).distributionBits := by
  constructor
  · exact (foldl_sansEPStep_singleton (ord.visit versions) ⟨"", false, false⟩).trans
      (by simp [RangeOrder.mem_visit_iff])
  · exact (foldl_sansEPStep_createOnly (ord.visit versions) ⟨"", false, false⟩).trans
      (by simp [RangeOrder.mem_visit_iff])

theorem hasVersion_detailsSansEP {versions : GoMap ObjectName WorkloadPartDetails} (hNe : versions.isEmpty = false) :
    HasVersion versions ⟨(detailsSansEP ord versions).apiVersion⟩ := by
  obtain ⟨pair, hMem, hLast⟩ := foldl_last_mem (f := sansEPStep)
    (R := fun details ans => details.apiVersion = ans.apiVersion)
    (fun _ _ => rfl) (ord.visit versions) ⟨"", false, false⟩ (visit_ne_nil ord hNe)
  exact ⟨pair.1, pair.2, (ord.mem_visit_iff versions pair.1 pair.2).mp hMem, hLast⟩

theorem hasVal_pickThe1 {problem : GoMap Obj ProjectionModeVal} (hNe : problem.isEmpty = false) :
    HasVal problem (pickThe1 ord problem) := by
  obtain ⟨pair, hMem, hLast⟩ := foldl_last_mem (f := fun _ pair => pair.2) (R := Eq) (fun _ _ => rfl)
    (ord.visit problem) (⟨""⟩ : ProjectionModeVal) (visit_ne_nil ord hNe)
  refine ⟨pair.1, ?_⟩
  rw [pickThe1, ← hLast]
  exact (ord.mem_visit_iff problem pair.1 pair.2).mp hMem

end Folds

variable {aggregate : FactoredMap ProjectionModeKey Obj ProjectionModeVal} {sections : ScopeSections Obj}
  {index : ScopeIndex Obj}

section Tracks

variable [DecidableEq Obj] (ord : RangeOrder)
  {versions : ProjectionModeKey × Obj → Option (GoMap ObjectName WorkloadPartDetails)}

/-- The sections of a scope follow the versions under the distribution tuples. -/
structure Tracks (versions : ProjectionModeKey × Obj → Option (GoMap ObjectName WorkloadPartDetails))
    (aggregate : FactoredMap ProjectionModeKey Obj ProjectionModeVal) (sections : ScopeSections Obj) : Prop where
  bits : ∀ nndt, Option.Rel IsOr (versions nndt) (sections.distributions.get nndt)
  version : ∀ nndt, Option.Rel HasVersion (versions nndt) (aggregate.content nndt)
  mode : ∀ mk, Option.Rel HasVal (aggregate.index mk) (sections.modes.get mk)

open ScopeSections

theorem foldl_apply_modes (writes : List (MapWrite ProjectionModeKey ProjectionModeVal))
    (sections : ScopeSections Obj) :
    (writes.map ScopeWrite.modes).foldl apply sections =
      { sections with modes := writes.foldl GoMap.write sections.modes } := by
  induction writes generalizing sections with
  | nil => rfl
  | cons write writes ih => exact ih _

open MapWrite

theorem Tracks.changeReceiver (hTracks : Tracks versions aggregate sections)
    (write : MapWrite (ProjectionModeKey × Obj) (GoMap ObjectName WorkloadPartDetails))
    (hNe : ∀ inner, write.after = some inner → inner.isEmpty = false) :
    Tracks (on versions write) (SetBinder.changeReceiver ord aggregate write).1
      ((SetBinder.changeReceiver ord aggregate write).2.foldl apply sections) := by
  rw [SetBinder.changeReceiver, foldl_cons, foldl_apply_modes]
  refine ⟨?_, ?_, ?_⟩
  · dsimp only [apply]
    rw [GoMap.get_write]
    refine rel_on hTracks.bits (by simp) ?_
    rw [after_mapVal, after_mapVal]
    cases write.after with
    | none => exact Option.Rel.none
    | some inner => exact Option.Rel.some (isOr_detailsSansEP ord inner)
  · rw [factoredMapMapAggregator, factoredMapMap_fst, FactoredMap.content_write]
    refine rel_on hTracks.version (by simp) ?_
    rw [after_mapVal, after_mapVal]
    cases hAfter : write.after with
    | none => exact Option.Rel.none
    | some inner => exact Option.Rel.some (hasVersion_detailsSansEP ord (hNe inner hAfter))
  · dsimp only [apply, factoredMapMapAggregator]
    rw [factoredMapMap_index, get_foldl_write]
    exact rel_replay_mapVal hTracks.mode fun w hMem inner hAfter =>
      hasVal_pickThe1 ord (GenericFactoredMap.write_nonempty hMem hAfter)

theorem Tracks.changes (hTracks : Tracks versions aggregate sections)
    (writes : List (MapWrite (ProjectionModeKey × Obj) (GoMap ObjectName WorkloadPartDetails)))
    (hNe : ∀ write ∈ writes, ∀ inner, write.after = some inner → inner.isEmpty = false) :
    Tracks (replay versions writes) (emitAll (SetBinder.changeReceiver ord) aggregate writes).1
      ((emitAll (SetBinder.changeReceiver ord) aggregate writes).2.foldl apply sections) := by
  induction writes generalizing versions aggregate sections with
  | nil => exact hTracks
  | cons write writes ih =>
    rw [emitAll, foldl_append]
    exact ih (hTracks.changeReceiver ord write (hNe write mem_cons_self)) fun w hMem => hNe w (mem_cons_of_mem _ hMem)

theorem Tracks.write (hTracks : Tracks index.whatWhereFull.index index.aggregate sections)
    (w : MapWrite ((ProjectionModeKey × Obj) × ObjectName) WorkloadPartDetails) :
    Tracks (index.write ord w).1.whatWhereFull.index (index.write ord w).1.aggregate
      ((index.write ord w).2.foldl apply sections) := by
  dsimp only [ScopeIndex.write]
  rw [factoredMapMap_index]
  exact hTracks.changes ord _ fun u hMem inner hAfter => GenericFactoredMap.write_nonempty hMem hAfter

theorem ScopeIndex.write_content (index : ScopeIndex Obj)
    (w : MapWrite ((ProjectionModeKey × Obj) × ObjectName) WorkloadPartDetails) :
    (index.write ord w).1.whatWhereFull.content = on index.whatWhereFull.content w := by
  rw [ScopeIndex.write, factoredMapMap_fst, FactoredMap.content_write]

end Tracks

/-- The sections of a scope are the join that `contributes` says. -/
structure ScopeJoined {Obj : Type} [DecidableEq Obj] (sections : ScopeSections Obj)
    (contributes : ProjectionModeKey × Obj → ObjectName → WorkloadPartDetails → Prop) : Prop where
  keys : ∀ nndt, sections.distributions.has nndt = true ↔ ∃ ep details, contributes nndt ep details
  returnSingletonState : ∀ nndt bits, sections.distributions.get nndt = some bits →
    (bits.returnSingletonState = true ↔
      ∃ ep details, contributes nndt ep details ∧ details.returnSingletonState = true)
  createOnly : ∀ nndt bits, sections.distributions.get nndt = some bits →
    (bits.createOnly = true ↔ ∃ ep details, contributes nndt ep details ∧ details.createOnly = true)
  modeKeys : ∀ mk, sections.modes.has mk = true ↔ ∃ obj, sections.distributions.has (mk, obj) = true
  versions : ∀ mk val, sections.modes.get mk = some val →
    ∃ obj ep details, contributes (mk, obj) ep details ∧ details.apiVersion = val.apiVersion

variable {v : Option V} {A B : Type} [DecidableEq Obj]

theorem isSome_of_rel {w : Option W} (hRel : Option.Rel R v w) : v.isSome = w.isSome := by
  cases hRel <;> rfl

theorem exists_of_rel_some {w : W} (hRel : Option.Rel R v (some w)) : ∃ u, v = some u ∧ R u w := by
  cases hRel with
  | some h => exact ⟨_, rfl, h⟩

theorem isSome_index_iff [DecidableEq A] [DecidableEq B] (m : FactoredMap A B V) (a : A) :
    (m.index a).isSome = true ↔ ∃ b v, m.content (a, b) = some v := by
  rw [← not_iff_not, Option.not_isSome_iff_eq_none, FactoredMap.index_eq_none_iff]
  simp [FactoredMap.content, Option.eq_none_iff_forall_ne_some]

theorem content_of_index [DecidableEq A] [DecidableEq B] {m : FactoredMap A B V} {a : A} {inner : GoMap B V}
    (hIndex : m.index a = some inner) (b : B) : m.content (a, b) = inner.get b := by
  rw [FactoredMap.content, FactoredMap.get, hIndex, Option.bind_some]

theorem Tracks.joined (hTracks : Tracks index.whatWhereFull.index index.aggregate sections)
    {contributes : ProjectionModeKey × Obj → ObjectName → WorkloadPartDetails → Prop}
    (hFull : ∀ nndt ep details, index.whatWhereFull.content (nndt, ep) = some details ↔ contributes nndt ep details) :
    ScopeJoined sections contributes where
  keys nndt := by
    rw [GoMap.has, ← isSome_of_rel (hTracks.bits nndt), isSome_index_iff]
    simp only [hFull]
  returnSingletonState nndt bits hGet := by
    obtain ⟨versions, hIndex, hOr⟩ := exists_of_rel_some (hGet ▸ hTracks.bits nndt)
    simp only [hOr.1, ← hFull, content_of_index hIndex]
  createOnly nndt bits hGet := by
    obtain ⟨versions, hIndex, hOr⟩ := exists_of_rel_some (hGet ▸ hTracks.bits nndt)
    simp only [hOr.2, ← hFull, content_of_index hIndex]
  modeKeys mk := by
    rw [GoMap.has, ← isSome_of_rel (hTracks.mode mk), isSome_index_iff]
    simp only [GoMap.has, ← isSome_of_rel (hTracks.bits _), isSome_of_rel (hTracks.version _),
      Option.isSome_iff_exists]
  versions mk val hGet := by
    obtain ⟨problem, hIndex, obj, hObj⟩ := exists_of_rel_some (hGet ▸ hTracks.mode mk)
    rw [← content_of_index hIndex] at hObj
    obtain ⟨versions, hVersions, ep, details, hDetails, hVersion⟩ :=
      exists_of_rel_some (hObj ▸ hTracks.version (mk, obj))
    refine ⟨obj, ep, details, (hFull _ _ _).mp ?_, hVersion⟩
    rw [content_of_index hVersions, hDetails]

end KubeStellar.SetBinder
