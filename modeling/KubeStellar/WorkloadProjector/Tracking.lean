import KubeStellar.WorkloadProjector.Finish

/-! # Which changes of a SyncerConfig a transaction follows up

The relations of a destination can change through its distributions, through the versions of its resources
and through its upsync sets. Only the first of these are recorded in every case.
-/

namespace KubeStellar.WorkloadProjector

open List

variable {Obj : Type} [DecidableEq Obj] {destination : SinglePlacement} {modes : ResourceModes}

def KeepsObjects (modes : ResourceModes) (maps maps' : ScopeMaps Obj) (destination : SinglePlacement) : Prop :=
  ∀ gr obj, (modes gr).toEdge = true → (Distributed maps' destination gr obj ↔ Distributed maps destination gr obj)

def KeepsVersions (modes : ResourceModes) (maps maps' : ScopeMaps Obj) (destination : SinglePlacement) : Prop :=
  ∀ gr obj, (modes gr).toEdge = true → Distributed maps destination gr obj →
    modeOf maps' destination gr = modeOf maps destination gr

theorem sameEntries_iff (env : Env) (maps maps' : ScopeMaps Obj) (destination : SinglePlacement) :
    (∀ gr obj, entry (scopeObjects env maps' destination) gr obj = entry (scopeObjects env maps destination) gr obj) ↔
      KeepsObjects env.resourceModes maps maps' destination ∧
        KeepsVersions env.resourceModes maps maps' destination := by
  constructor
  · intro hSame
    have hIff : ∀ gr obj pmv, _ ↔ _ := fun gr obj pmv =>
      (entry_scopeObjects_iff env maps' destination gr obj pmv).symm.trans
        (hSame gr obj ▸ entry_scopeObjects_iff env maps destination gr obj pmv)
    constructor
    · intro gr obj hEdge
      exact ⟨fun h => ((hIff gr obj _).mp ⟨h, hEdge, rfl⟩).1, fun h => ((hIff gr obj _).mpr ⟨h, hEdge, rfl⟩).1⟩
    · intro gr obj hEdge hOld
      exact ((hIff gr obj _).mpr ⟨hOld, hEdge, rfl⟩).2.2.symm
  · rintro ⟨hObjects, hVersions⟩ gr obj
    refine Option.ext fun pmv => ?_
    rw [entry_scopeObjects_iff, entry_scopeObjects_iff]
    constructor
    · rintro ⟨hNew, hEdge, hMode⟩
      have hOld := (hObjects gr obj hEdge).mp hNew
      exact ⟨hOld, hEdge, hMode.trans (hVersions gr obj hEdge hOld)⟩
    · rintro ⟨hOld, hEdge, hMode⟩
      exact ⟨(hObjects gr obj hEdge).mpr hOld, hEdge, hMode.trans (hVersions gr obj hEdge hOld).symm⟩

theorem keepsObjects_of_index {maps maps' : ScopeMaps Obj}
    (hIndex : maps'.distributionsForSync.index destination = maps.distributionsForSync.index destination) :
    KeepsObjects modes maps maps' destination := by
  intro gr obj _
  simp only [Distributed, FactoredMap.get, hIndex]

theorem keepsVersions_of_index_none {maps maps' : ScopeMaps Obj}
    (hIndex : maps.distributionsForSync.index destination = none) :
    KeepsVersions modes maps maps' destination := by
  rintro gr obj _ ⟨source, hOld⟩
  exact absurd ((FactoredMap.index_eq_none_iff _ _).mp hIndex _) hOld

def KeepsUpsyncs (upsyncs upsyncs' : FactoredMap SinglePlacement UpsyncSet Unit) (destination : SinglePlacement) :
    Prop :=
  ∀ upsync, (upsyncs'.get destination upsync).isSome = (upsyncs.get destination upsync).isSome

structure Kept (modes : ResourceModes) (tx tx' : Transaction) (destination : SinglePlacement) : Prop where
  nsObjects : KeepsObjects modes tx.ns tx'.ns destination
  nsVersions : KeepsVersions modes tx.ns tx'.ns destination
  nnsObjects : KeepsObjects modes tx.nns tx'.nns destination
  nnsVersions : KeepsVersions modes tx.nns tx'.nns destination
  upsyncs : KeepsUpsyncs tx.upsyncs tx'.upsyncs destination

/-- The condition under which every change of a `SyncerConfig` is followed up. -/
structure Tracked (modes : ResourceModes) (wp : State) (writes : List SectionWrite) : Prop where
  ready : ∀ d, Touched wp.begin writes d → Ready (after wp writes).ns d ∧ Ready (after wp writes).nns d
  /-- Without a recorded write, versions and upsync sets stay. -/
  untouched : ∀ d, ¬ Touched wp.begin writes d →
    KeepsVersions modes wp.ns (after wp writes).ns d ∧ KeepsVersions modes wp.nns (after wp writes).nns d ∧
      KeepsUpsyncs wp.upsyncs (after wp writes).upsyncs d
  /-- The upsync sets of a destination that gets modes and no distribution stay. -/
  unrecorded : ∀ d, Touched wp.begin writes d → ¬ HasRecord wp writes d →
    KeepsUpsyncs wp.upsyncs (after wp writes).upsyncs d
  /-- Destinations that are recorded together do not share a mailbox. -/
  shared : ∀ d d', Touched wp.begin writes d → Touched wp.begin writes d' → d ≠ d' →
    SPMailboxWorkspaceName d = SPMailboxWorkspaceName d' → Kept modes wp.begin (after wp writes) d

/-- The transaction goes through, and every destination with a changed `SyncerConfig` is entered under its mailbox
and has its `SyncerConfig` enqueued. -/
def ChangesEnqueued (env : Env) (wp : State) (writes : List SectionWrite) : Prop :=
  ∃ wp' items, transact env wp writes = .ok (wp', items) ∧
    ∀ d, ¬ (syncerConfigRelations env wp d).Same (syncerConfigRelations env wp' d) →
      .syncerConfigRef (SPMailboxWorkspaceName d) SyncerConfigName ∈ items ∧
        wp'.mbwsNameToSP.get (SPMailboxWorkspaceName d) = some d

theorem Transacted.same_iff {env : Env} {wp wp' : State} {writes : List SectionWrite} {items : List QueueItem}
    (hTrans : Transacted env wp writes wp' items) (d : SinglePlacement) :
    (syncerConfigRelations env wp d).Same (syncerConfigRelations env wp' d) ↔
      Kept env.resourceModes wp.begin (after wp writes) d := by
  have hUpsyncs : ∀ upsyncs : FactoredMap SinglePlacement UpsyncSet Unit, ∀ upsync,
      ((upsyncs.index d).getD ∅).has upsync = (upsyncs.get d upsync).isSome := by
    intro upsyncs upsync
    rw [FactoredMap.get, GoMap.has]
    cases upsyncs.index d <;> rfl
  have hNs := sameEntries_iff env wp.ns (after wp writes).ns d
  have hNns := sameEntries_iff env wp.nns (after wp writes).nns d
  constructor
  · rintro ⟨hObjects, hClusterObjects, hSame⟩
    simp only [syncerConfigRelations, hTrans.ns, hTrans.nns, hTrans.upsyncs, hUpsyncs] at *
    exact ⟨(hNs.mp hObjects).1, (hNs.mp hObjects).2, (hNns.mp hClusterObjects).1, (hNns.mp hClusterObjects).2, hSame⟩
  · rintro ⟨hObjects, hVersions, hClusterObjects, hClusterVersions, hSame⟩
    constructor <;> simp only [syncerConfigRelations, hTrans.ns, hTrans.nns, hTrans.upsyncs, hUpsyncs]
    · exact hNs.mpr ⟨hObjects, hVersions⟩
    · exact hNns.mpr ⟨hClusterObjects, hClusterVersions⟩
    · exact hSame

variable {env : Env} {wp : State} {writes : List SectionWrite}

theorem kept_of_untouched (hTracked : Tracked env.resourceModes wp writes) {d : SinglePlacement}
    (hTouched : ¬ Touched wp.begin writes d) : Kept env.resourceModes wp.begin (after wp writes) d := by
  obtain ⟨hNs, hNns⟩ := foldl_apply_kept writes hTouched
  obtain ⟨hVersions, hClusterVersions, hUpsyncs⟩ := hTracked.untouched d hTouched
  exact ⟨keepsObjects_of_index hNs, hVersions, keepsObjects_of_index hNns, hClusterVersions, hUpsyncs⟩

theorem kept_of_unrecorded (hRec : Recorded wp.begin) (hTracked : Tracked env.resourceModes wp writes)
    {d : SinglePlacement} (hTouched : Touched wp.begin writes d) (hRecord : ¬ HasRecord wp writes d) :
    Kept env.resourceModes wp.begin (after wp writes) d := by
  -- without a record nothing is distributed, before or after
  have hAfter : Recorded (after wp writes) := foldl_apply_recorded writes hRec
  have hNone : ¬ (after wp writes).records.perDestination.has d = true :=
    fun h => hRecord ((foldl_apply_perDestination writes hRec d).mp h)
  have hNs : wp.ns.distributionsForSync.index d = none := by_contra fun h => hRecord (.inl (hRec.ns d h))
  have hNns : wp.nns.distributionsForSync.index d = none := by_contra fun h => hRecord (.inl (hRec.nns d h))
  have hNs' : (after wp writes).ns.distributionsForSync.index d = none := by_contra fun h => hNone (hAfter.ns d h)
  have hNns' : (after wp writes).nns.distributionsForSync.index d = none := by_contra fun h => hNone (hAfter.nns d h)
  exact ⟨keepsObjects_of_index (hNs'.trans hNs.symm), keepsVersions_of_index_none hNs,
    keepsObjects_of_index (hNns'.trans hNns.symm), keepsVersions_of_index_none hNns,
    hTracked.unrecorded d hTouched hRecord⟩

theorem Transacted.name_touched {wp' : State} {items : List QueueItem} (hTrans : Transacted env wp writes wp' items)
    {d d' : SinglePlacement} (hTouched : Touched wp.begin writes d')
    (hName : SPMailboxWorkspaceName d = SPMailboxWorkspaceName d') :
    ∃ d'', Touched wp.begin writes d'' ∧ SPMailboxWorkspaceName d = SPMailboxWorkspaceName d'' ∧
      wp'.mbwsNameToSP.get (SPMailboxWorkspaceName d) = some d'' := by
  have hMem : (SPMailboxWorkspaceName d, d') ∈
      (changedDestinations env wp writes).map fun d => (SPMailboxWorkspaceName d, d) := by
    rw [hName]
    exact mem_map.mpr ⟨d', (mem_changedDestinations_iff env wp writes d').mpr hTouched, rfl⟩
  obtain ⟨d'', hMem', hGet⟩ := GoMap.get_putAll_of_mem wp.mbwsNameToSP _ _ ⟨d', hMem⟩
  obtain ⟨e, hChanged, hPair⟩ := mem_map.mp hMem'
  obtain ⟨hKey, rfl⟩ := Prod.mk.inj hPair
  exact ⟨e, (mem_changedDestinations_iff env wp writes e).mp hChanged, hKey.symm, hTrans.names ▸ hGet⟩

variable (hRec : Recorded wp.begin)

include hRec

theorem changesEnqueued_of_tracked (hTracked : Tracked env.resourceModes wp writes) :
    ChangesEnqueued env wp writes := by
  obtain ⟨wp', items, hOk, hTrans⟩ := transact_of_ready env writes hRec hTracked.ready
  refine ⟨wp', items, hOk, fun d hDiffers => ?_⟩
  rw [hTrans.same_iff] at hDiffers
  have hTouched : Touched wp.begin writes d := by_contra fun h => hDiffers (kept_of_untouched hTracked h)
  have hRecord : HasRecord wp writes d :=
    by_contra fun h => hDiffers (kept_of_unrecorded hRec hTracked hTouched h)
  refine ⟨(hTrans.items _).mpr ⟨d, hTouched, hRecord, rfl⟩, ?_⟩
  obtain ⟨d', hTouched', hName, hGet⟩ := @Transacted.name_touched env wp writes wp' items hTrans d d hTouched rfl
  have hSame : d = d' := by_contra fun h => hDiffers (hTracked.shared d d' hTouched hTouched' h hName)
  rw [hGet, hSame]

theorem ChangesEnqueued.transacted (hChanges : ChangesEnqueued env wp writes) :
    ∃ wp' items, Transacted env wp writes wp' items ∧ ∀ d, ¬ Kept env.resourceModes wp.begin (after wp writes) d →
        .syncerConfigRef (SPMailboxWorkspaceName d) SyncerConfigName ∈ items ∧
          wp'.mbwsNameToSP.get (SPMailboxWorkspaceName d) = some d := by
  obtain ⟨wp', items, hOk, hChanged⟩ := hChanges
  have hTrans := transacted_of_transact env writes hRec hOk
  exact ⟨wp', items, hTrans, fun d hDiffers => hChanged d (mt (hTrans.same_iff d).mp hDiffers)⟩

variable (hChanges : ∀ ord, ChangesEnqueued { env with ord := ord } wp writes)

include hChanges

theorem eq_of_changesEnqueued {d d' : SinglePlacement}
    (hDiffers : ¬ Kept env.resourceModes wp.begin (after wp writes) d) (hTouched : Touched wp.begin writes d')
    (hName : SPMailboxWorkspaceName d = SPMailboxWorkspaceName d') : d' = d := by
  obtain ⟨wp₁, items₁, hTrans₁, hChanged₁⟩ := (hChanges RangeOrder.insertion).transacted hRec
  obtain ⟨wp₂, items₂, hTrans₂, hChanged₂⟩ := (hChanges RangeOrder.reversed).transacted hRec
  have hForth := (hChanged₁ d hDiffers).2
  have hBack := (hChanged₂ d hDiffers).2
  rw [hTrans₁.names] at hForth
  rw [hTrans₂.names] at hBack
  refine GoMap.eq_of_get_putAll_reverse wp.mbwsNameToSP wp.mbwsNameToSP
    ((changedDestinations { env with ord := RangeOrder.insertion } wp writes).map fun d =>
      (SPMailboxWorkspaceName d, d))
    ?_ (SPMailboxWorkspaceName d) d hForth ?_ d' ?_
  · rw [map_map]
    exact (map_id _).symm ▸ RangeOrder.visit_nodup _ _
  · rw [← map_reverse]
    refine Eq.trans ?_ hBack
    rw [changedDestinations, ← map_reverse]
    rfl
  · rw [hName]
    exact mem_map.mpr ⟨d', (mem_changedDestinations_iff _ wp writes d').mpr hTouched, rfl⟩

theorem tracked_of_changesEnqueued : Tracked env.resourceModes wp writes := by
  obtain ⟨wp', items, hTrans, hChanged⟩ := (hChanges env.ord).transacted hRec
  have hKept : ∀ d, (∀ d', Touched wp.begin writes d' → HasRecord wp writes d' →
      SPMailboxWorkspaceName d = SPMailboxWorkspaceName d' → d' ≠ d) →
        Kept env.resourceModes wp.begin (after wp writes) d := by
    intro d hOthers
    by_contra hDiffers
    obtain ⟨d', hTouched, hRecord, hName⟩ := (hTrans.items _).mp (hChanged d hDiffers).1
    exact hOthers d' hTouched hRecord hName (eq_of_changesEnqueued hRec hChanges hDiffers hTouched hName)
  constructor
  · obtain ⟨_, _, hOk, _⟩ := hChanges env.ord
    exact ready_of_transact env writes hRec hOk
  · intro d hTouched
    have hSame := hKept d fun d' hTouched' _ _ hEq => hTouched (hEq ▸ hTouched')
    exact ⟨hSame.nsVersions, hSame.nnsVersions, hSame.upsyncs⟩
  · intro d _ hRecord
    exact (hKept d fun d' _ hRecord' _ hEq => hRecord (hEq ▸ hRecord')).upsyncs
  · intro d d' _ hTouched' hNe hName
    by_contra hDiffers
    exact hNe (eq_of_changesEnqueued hRec hChanges hDiffers hTouched' hName).symm

omit hChanges

omit hRec

/-- Every change is enqueued, in whatever order maps are visited, if and only if the writes are tracked. -/
theorem changesEnqueued_iff_tracked (env : Env) (wp : State) (writes : List SectionWrite)
    (hRecorded : Recorded wp.begin) :
    (∀ ord, ChangesEnqueued { env with ord := ord } wp writes) ↔ Tracked env.resourceModes wp writes :=
  ⟨tracked_of_changesEnqueued hRecorded, fun hTracked ord =>
    @changesEnqueued_of_tracked { env with ord := ord } wp writes hRecorded hTracked⟩

/-- Everything goes to the edge, and the informers hold nothing yet. -/
def edgeEnv : Env := ⟨RangeOrder.insertion, fun _ => .goesToEdge, fun _ _ => [], fun _ _ => [], fun _ => true⟩

def edgeDestination : SinglePlacement := ⟨"imw1", "edge1", "edge1", "uid1"⟩

def settingsModeKey : ProjectionModeKey := ⟨⟨"", "configmaps"⟩, edgeDestination⟩

/-- The first object for a destination, with the version of its resource. -/
def settingsWrites : List SectionWrite :=
  [.namespacedModes (.put settingsModeKey ⟨"v1"⟩),
    .namespacedObjectDistributions (.put (settingsModeKey, ("wds1", "apps", "settings")) ⟨false, false⟩)]

theorem eq_of_settings_touched {d : SinglePlacement} (hTouched : Touched newWorkloadProjector.begin settingsWrites d) :
    d = edgeDestination := by
  have hHas := (foldl_apply_changed settingsWrites newWorkloadProjector.begin d).mpr (.inr hTouched)
  rcases (has_add_iff _ _ _).mp hHas with hHas | rfl
  · rcases (has_add_iff _ _ _).mp hHas with hHas | rfl
    · cases hHas
    · rfl
  · rfl

theorem settings_tracked : Tracked edgeEnv.resourceModes newWorkloadProjector settingsWrites := by
  constructor
  · intro d hTouched
    obtain rfl := eq_of_settings_touched hTouched
    exact ⟨fun _ hModes => Option.some_ne_none _ hModes, fun hObjs => absurd rfl hObjs⟩
  · intro d _
    exact ⟨keepsVersions_of_index_none rfl, keepsVersions_of_index_none rfl, fun _ => rfl⟩
  · intro d _ _ _
    rfl
  · intro d d' hTouched hTouched' hNe
    exact absurd ((eq_of_settings_touched hTouched).trans (eq_of_settings_touched hTouched').symm) hNe

theorem changesEnqueued_iff_tracked_settings : Recorded newWorkloadProjector.begin ∧
    ∀ ord, ChangesEnqueued { edgeEnv with ord := ord } newWorkloadProjector settingsWrites :=
  ⟨newWorkloadProjector_recorded,
    (changesEnqueued_iff_tracked edgeEnv newWorkloadProjector settingsWrites newWorkloadProjector_recorded).mpr
      settings_tracked⟩

def settingsUpsync : UpsyncSet := ⟨"", ["events"], ["apps"], ["*"]⟩

/-- A transaction that only adds an upsync set enqueues nothing. -/
theorem changesEnqueued_fails :
    ∃ wp items, transact edgeEnv newWorkloadProjector settingsWrites = .ok (wp, items) ∧ Recorded wp.begin ∧
      ¬ ChangesEnqueued edgeEnv wp [.upsyncs (.add (edgeDestination, settingsUpsync))] := by
  refine ⟨_, _, rfl, transact_recorded edgeEnv settingsWrites newWorkloadProjector_recorded rfl, ?_⟩
  rintro ⟨wp', items, hOk, hChanged⟩
  obtain ⟨rfl, rfl⟩ := Prod.mk.inj (Except.ok.inj hOk)
  have hEnqueued := (hChanged edgeDestination fun hSame => absurd (hSame.upsyncs settingsUpsync) (by decide)).1
  cases hEnqueued

end KubeStellar.WorkloadProjector
