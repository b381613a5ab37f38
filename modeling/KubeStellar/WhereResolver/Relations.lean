import KubeStellar.WhereResolver.Effects

/-! # Selections by name and the slices of EdgePlacements

The two relations that the store records, read from the caches, and the slices as the EdgePlacements name them.
-/

namespace KubeStellar.WhereResolver

open List

variable {s : State} {name name' locName : String} {names : List String} {before : List SinglePlacement}
  {Sel : Type} (env : Env Sel) (kbSpaceID : String) (caches : Caches Sel)

def SelectsLoc (ep loc : String) : Prop :=
  ∃ epObj locObj, caches.edgePlacements.get ep = some epObj ∧ caches.locations.get loc = some locObj ∧
    selectsLocation env epObj locObj = true

def SelectsSt (loc st : String) : Prop :=
  ∃ locObj stObj, caches.locations.get loc = some locObj ∧ caches.syncTargets.get st = some stObj ∧
    selectsSyncTarget env locObj stObj = true

def Placed (ep : String) (sp : SinglePlacement) : Prop :=
  ∃ l loc t st, caches.locations.get l = some loc ∧ caches.syncTargets.get t = some st ∧
    SelectsLoc env caches ep l ∧ selectsSyncTarget env loc st = true ∧ sp = destination env kbSpaceID loc st

def Holds (s : State) (ep : String) (destinations : List SinglePlacement) : Prop :=
  ∃ epObj, caches.edgePlacements.get ep = some epObj ∧
    s.slices.get (consumer env epObj.objectMeta) = some destinations

structure Visible (s : State) : Prop where
  copies : ∀ name sps, s.cached.get name = some sps → sps.objectMeta.name = name ∧ Resolves env sps.objectMeta ∧
    s.slices.get (consumer env sps.objectMeta) = some sps.destinations
  complete : ∀ name ep, caches.edgePlacements.get name = some ep →
    s.slices.has (consumer env ep.objectMeta) = true → s.cached.has name = true
  bound : ∀ name ep sps, caches.edgePlacements.get name = some ep → s.cached.get name = some sps →
    consumer env sps.objectMeta = consumer env ep.objectMeta

structure Replaced (before after : List SinglePlacement) (removed added : SinglePlacement → Prop) : Prop where
  nodup : before.Nodup → after.Nodup
  mem_iff : ∀ sp, sp ∈ after ↔ (sp ∈ before ∧ ¬ removed sp) ∨ added sp

variable {env kbSpaceID caches} {ep : String}

theorem selectsLoc_iff {epObj : EdgePlacement Sel} (hEp : caches.edgePlacements.get ep = some epObj)
    (loc : String) : SelectsLoc env caches ep loc ↔
      ∃ locObj, caches.locations.get loc = some locObj ∧ selectsLocation env epObj locObj = true := by
  simp [SelectsLoc, hEp]

theorem selectsSt_iff {st : String} {stObj : SyncTarget} (hSt : caches.syncTargets.get st = some stObj)
    (loc : String) : SelectsSt env caches loc st ↔
      ∃ locObj, caches.locations.get loc = some locObj ∧ selectsSyncTarget env locObj stObj = true := by
  simp [SelectsSt, hSt]

theorem mem_names_iff_selected {α : Type} {m : GoMap String α} {nameOf : α → String} {l : List α} {selects : α → Prop}
    (hName : ∀ name a, m.get name = some a → nameOf a = name)
    (hMem : ∀ a, a ∈ l ↔ (∃ name, m.get name = some a) ∧ selects a) (key : String) :
    key ∈ l.map nameOf ↔ ∃ a, m.get key = some a ∧ selects a := by
  rw [mem_map]
  constructor
  · rintro ⟨a, hSelected, rfl⟩
    obtain ⟨⟨name, hGet⟩, hSelects⟩ := (hMem a).mp hSelected
    exact ⟨a, (hName name a hGet).symm ▸ hGet, hSelects⟩
  · rintro ⟨a, hGet, hSelects⟩
    exact ⟨a, (hMem a).mpr ⟨⟨key, hGet⟩, hSelects⟩, hName key a hGet⟩

theorem has_usingSt_iff {key : String} {locs : List (Location Sel)}
    (hNames : ∀ name, name ∈ locs.map (fun loc => loc.objectMeta.name) ↔ SelectsSt env caches name key) (ep : String) :
    ((locs.map fun loc => loc.objectMeta.name).foldl
        (fun eps locKey => unionTwo eps ((s.store.epsBySelectedLoc.get locKey).getD ∅)) ∅).has ep = true ↔
      ∃ loc, SelectsSt env caches loc key ∧ s.store.epsBySelectedLoc.mem loc ep = true := by
  rw [has_foldl_unionTwo_iff]
  simp only [hNames]
  exact or_iff_right Bool.false_ne_true

variable (hVisible : Visible env caches s)

include hVisible

theorem Visible.one {sps sps' : SinglePlacementSlice}
    (hSps : s.cached.get name = some sps) (hSps' : s.cached.get name' = some sps')
    (hCons : consumer env sps.objectMeta = consumer env sps'.objectMeta) : name = name' := by
  obtain ⟨hName, hResolves, -⟩ := hVisible.copies name sps hSps
  obtain ⟨hName', hResolves', -⟩ := hVisible.copies name' sps' hSps'
  rw [← hName, ← hName', name_eq_of_consumer_eq hResolves hResolves' hCons]

theorem Visible.copy {ep : EdgePlacement Sel}
    (hEp : caches.edgePlacements.get name = some ep) {destinations : List SinglePlacement}
    (hSlice : s.slices.get (consumer env ep.objectMeta) = some destinations) :
    ∃ sps, s.cached.get name = some sps ∧ consumer env sps.objectMeta = consumer env ep.objectMeta ∧
      sps.destinations = destinations := by
  have hHas : s.slices.has (consumer env ep.objectMeta) = true := by rw [GoMap.has, hSlice]; rfl
  obtain ⟨sps, hSps⟩ := Option.isSome_iff_exists.mp (hVisible.complete name ep hEp hHas)
  have hCons := hVisible.bound name ep sps hEp hSps
  have hCopy := (hVisible.copies name sps hSps).2.2
  rw [hCons, hSlice] at hCopy
  exact ⟨sps, hSps, hCons, (Option.some.inj hCopy).symm⟩

theorem forEachEp_holds {s' : State} {store : Store}
    {next : String → List SinglePlacement → List SinglePlacement} {body : State → String → Outcome}
    (hUpdates : Updates env next body) (hNodup : names.Nodup)
    (hOk : forEachEp body { s with store := store } names = (s', .ok ())) :
    s'.store = store ∧ ∀ ep destinations, Holds env caches s ep destinations →
      Holds env caches s' ep (if ep ∈ names then next ep destinations else destinations) := by
  obtain ⟨hStore, hWritten, hKept⟩ := forEachEp_ok (s := { s with store := store }) hUpdates hNodup
    (fun name _ name' _ sps sps' hSps hSps' hCons => hVisible.one hSps hSps' hCons) hOk
  refine ⟨hStore, ?_⟩
  rintro ep destinations ⟨epObj, hEp, hSlice⟩
  obtain ⟨sps, hSps, hCons, hDests⟩ := hVisible.copy hEp hSlice
  refine ⟨epObj, hEp, ?_⟩
  split
  · rename_i hMem
    obtain ⟨sps', hSps', hSlice'⟩ := hWritten ep hMem
    obtain rfl := Option.mem_unique hSps hSps'
    rw [← hCons, hSlice', hDests]
  · rename_i hMem
    rw [hKept, hSlice]
    intro name hName sps' hSps' hEq
    have hSame := hVisible.one hSps' hSps (hEq.trans hCons.symm)
    exact hMem (hSame ▸ hName)

omit hVisible

theorem mem_names_iff {ord : RangeOrder} {old new : MapSet String} (ep : String) :
    ep ∈ (ord.visit old).map Prod.fst ++ ((ord.visit new).map Prod.fst).filter (fun ep => !old.has ep) ↔
      old.has ep = true ∨ new.has ep = true := by
  rw [mem_append, mem_filter, RangeOrder.mem_visit_keys_iff, RangeOrder.mem_visit_keys_iff]
  cases old.has ep <;> simp

theorem names_nodup (ord : RangeOrder) (old new : MapSet String) :
    ((ord.visit old).map Prod.fst ++ ((ord.visit new).map Prod.fst).filter (fun ep => !old.has ep)).Nodup := by
  refine List.Nodup.append (RangeOrder.visit_nodup _ _) ((RangeOrder.visit_nodup _ _).filter _) ?_
  intro ep hOld hNew
  rw [RangeOrder.mem_visit_keys_iff] at hOld
  simpa [hOld] using (mem_filter.mp hNew).2

theorem Replaced.congr {after : List SinglePlacement} {removed removed' added added' : SinglePlacement → Prop}
    (hRepl : Replaced before after removed added) (hRemoved : ∀ sp, removed' sp ↔ removed sp)
    (hAdded : ∀ sp, added' sp ↔ added sp) : Replaced before after removed' added' where
  nodup := hRepl.nodup
  mem_iff sp := by rw [hRepl.mem_iff, hRemoved, hAdded]

theorem replaced_of_loop {selects : Bool} {singles : List SinglePlacement}
    {keeps : SinglePlacement → Bool} (hNodup : singles.Nodup) (hSingles : ∀ sp ∈ singles, keeps sp = false)
    (hSelects : selects = true → ep ∈ names) :
    Replaced before (if ep ∈ names then before.filter keeps ++ (if selects then singles else []) else before)
      (fun sp => ep ∈ names ∧ keeps sp = false) (fun sp => selects = true ∧ sp ∈ singles) := by
  by_cases hMem : ep ∈ names
  · rw [if_pos hMem]
    cases selects with
    | false => exact ⟨fun hBefore => by simpa using hBefore.filter _, fun sp => by simp [hMem]⟩
    | true =>
      refine ⟨fun hBefore => (hBefore.filter _).append hNodup fun sp hKept hAdded => ?_, fun sp => by simp [hMem]⟩
      rw [mem_filter, hSingles sp hAdded] at hKept
      exact absurd hKept.2 Bool.false_ne_true
  · have hNot : selects = false := by
      cases selects with
      | false => rfl
      | true => exact absurd (hSelects rfl) hMem
    rw [if_neg hMem]
    exact ⟨id, fun sp => by simp [hMem, hNot]⟩

theorem name_eq_of_originalName_eq {obj obj' : ObjectMeta} {id : String}
    (hIds : ∃ original, analyzeClusterScopedObject (some obj) = .ok (original, id))
    (hIds' : ∃ original, analyzeClusterScopedObject (some obj') = .ok (original, id))
    (hNames : originalName obj = originalName obj') : obj.name = obj'.name := by
  obtain ⟨original, hIds⟩ := hIds
  obtain ⟨original', hIds'⟩ := hIds'
  exact (originalName_eq_iff hIds hIds').mp hNames

variable (hRes : Resolvable env kbSpaceID caches) (attempt : Attempt) {loc : Location Sel}

include hRes

theorem location_unique {loc' : Location Sel} (hLoc : caches.locations.get name = some loc)
    (hLoc' : caches.locations.get name' = some loc')
    (hNames : originalName loc.objectMeta = originalName loc'.objectMeta) : name = name' := by
  obtain ⟨hName, hIds, -⟩ := hRes.locations name loc hLoc
  obtain ⟨hName', hIds', -⟩ := hRes.locations name' loc' hLoc'
  rw [← hName, ← hName', name_eq_of_originalName_eq hIds hIds' hNames]

theorem syncTarget_unique {st st' : SyncTarget} (hSt : caches.syncTargets.get name = some st)
    (hSt' : caches.syncTargets.get name' = some st')
    (hNames : originalName st.objectMeta = originalName st'.objectMeta) : name = name' := by
  obtain ⟨hName, hIds⟩ := hRes.syncTargets name st hSt
  obtain ⟨hName', hIds'⟩ := hRes.syncTargets name' st' hSt'
  rw [← hName, ← hName', name_eq_of_originalName_eq hIds hIds' hNames]

theorem destinations_of_location_nodup :
    (((listSyncTargets attempt caches).filter (selectsSyncTarget env loc)).map
      (destination env kbSpaceID loc)).Nodup := by
  refine List.Nodup.map_on ?_ ((attempt.ord.visit_values_nodup _ _ fun name st hSt =>
    (hRes.syncTargets name st hSt).1).filter _)
  intro st hMem st' hMem' hEq
  obtain ⟨name, hSt⟩ := (mem_listSyncTargets_iff attempt st).mp (mem_of_mem_filter hMem)
  obtain ⟨name', hSt'⟩ := (mem_listSyncTargets_iff attempt st').mp (mem_of_mem_filter hMem')
  obtain rfl := syncTarget_unique hRes hSt hSt' (congrArg SinglePlacement.syncTargetName hEq)
  exact Option.mem_unique hSt hSt'

theorem destinations_of_syncTarget_nodup {st : SyncTarget} {locs : List (Location Sel)} (hNodup : locs.Nodup)
    (hLocs : ∀ loc ∈ locs, loc ∈ listLocations attempt caches) :
    (locs.map (destination env kbSpaceID · st)).Nodup := by
  refine List.Nodup.map_on ?_ hNodup
  intro loc hMem loc' hMem' hEq
  obtain ⟨name, hLoc⟩ := (mem_listLocations_iff attempt loc).mp (hLocs loc hMem)
  obtain ⟨name', hLoc'⟩ := (mem_listLocations_iff attempt loc').mp (hLocs loc' hMem')
  obtain rfl := location_unique hRes hLoc hLoc' (congrArg SinglePlacement.locationName hEq)
  exact Option.mem_unique hLoc hLoc'

variable (hLoc : caches.locations.get locName = some loc)

include hLoc

theorem has_packEpKeys_iff (ep : String) :
    (packEpKeys ((listEdgePlacements attempt caches).filter (selectsLocation env · loc))).has ep = true ↔
      SelectsLoc env caches ep locName := by
  rw [packEpKeys, MapSet.has_addAll_empty_iff,
    mem_names_iff_selected (fun name ep hEp => (hRes.edgePlacements name ep hEp).1) fun ep => by
    rw [mem_filter, mem_listEdgePlacements_iff]]
  simp [SelectsLoc, hLoc]

theorem has_packStKeys_iff (st : String) :
    (packStKeys ((listSyncTargets attempt caches).filter (selectsSyncTarget env loc))).has st = true ↔
      SelectsSt env caches locName st := by
  rw [packStKeys, MapSet.has_addAll_empty_iff,
    mem_names_iff_selected (fun name st hSt => (hRes.syncTargets name st hSt).1) fun st => by
    rw [mem_filter, mem_listSyncTargets_iff]]
  simp [SelectsSt, hLoc]

omit hLoc

theorem has_packLocKeys_iff {selects : Location Sel → Bool} (locName : String) :
    (packLocKeys ((listLocations attempt caches).filter selects)).has locName = true ↔
      ∃ loc, caches.locations.get locName = some loc ∧ selects loc = true := by
  rw [packLocKeys, MapSet.has_addAll_empty_iff,
    mem_names_iff_selected (fun name loc hLoc => (hRes.locations name loc hLoc).1) fun loc => by
    rw [mem_filter, mem_listLocations_iff]]

omit hRes

def Touched (store : Store) (ep : String) : QueueItem → Prop
  | .edgePlacement key => ep = key
  | .location key => store.epsBySelectedLoc.mem key ep = true
  | .syncTarget key => ∃ loc, store.locsBySelectedSt.mem key loc = true ∧ store.epsBySelectedLoc.mem loc ep = true

def Selecting (env : Env Sel) (caches : Caches Sel) (store : Store) (ep : String) : QueueItem → Prop
  | .edgePlacement key => ep = key
  | .location key => SelectsLoc env caches ep key
  | .syncTarget key => ∃ loc, SelectsSt env caches loc key ∧ store.epsBySelectedLoc.mem loc ep = true

def Has (env : Env Sel) (caches : Caches Sel) (sp : SinglePlacement) : QueueItem → Prop
  | .edgePlacement _ => False
  | .location key => ∃ loc original id, caches.locations.get key = some loc ∧
      analyzeClusterScopedObject (some loc.objectMeta) = .ok (original, id) ∧
      sp.cluster = env.spaceIDFromKubeBind id ∧ sp.locationName = original
  | .syncTarget key => ∃ st original id, caches.syncTargets.get key = some st ∧
      analyzeClusterScopedObject (some st.objectMeta) = .ok (original, id) ∧
      sp.cluster = env.spaceIDFromKubeBind id ∧ sp.syncTargetName = original

/-- What a reconcile that succeeds does to the store and to the slices. -/
structure Processed (env : Env Sel) (kbSpaceID : String) (caches : Caches Sel) (item : QueueItem) (s s' : State) :
    Prop where
  locs : ∀ l ep, s'.store.epsBySelectedLoc.mem l ep = true ↔
    if item = .edgePlacement ep ∨ item = .location l then SelectsLoc env caches ep l
    else s.store.epsBySelectedLoc.mem l ep = true
  sts : ∀ t l, s'.store.locsBySelectedSt.mem t l = true ↔
    if item = .location l ∨ item = .syncTarget t then SelectsSt env caches l t
    else s.store.locsBySelectedSt.mem t l = true
  written : ∀ ep, item = .edgePlacement ep → ∃ after, Holds env caches s' ep after ∧ after.Nodup ∧
    ∀ sp, sp ∈ after ↔ Placed env kbSpaceID caches ep sp
  slices : ∀ ep before, item ≠ .edgePlacement ep → Holds env caches s ep before →
    ∃ after, Holds env caches s' ep after ∧ Replaced before after
      (fun sp => (Touched s.store ep item ∨ Selecting env caches s.store ep item) ∧ Has env caches sp item)
      (fun sp => Selecting env caches s.store ep item ∧ ∃ l loc t st, caches.locations.get l = some loc ∧
        caches.syncTargets.get t = some st ∧ (item = .location l ∨ item = .syncTarget t) ∧ SelectsLoc env caches ep l ∧
        selectsSyncTarget env loc st = true ∧ sp = destination env kbSpaceID loc st)

theorem has_location_iff {sp : SinglePlacement} {key original id : String} (hLoc : caches.locations.get key = some loc)
    (hIds : analyzeClusterScopedObject (some loc.objectMeta) = .ok (original, id)) : Has env caches sp (.location key) ↔
      sp.cluster = env.spaceIDFromKubeBind id ∧ sp.locationName = original := by
  simp [Has, hLoc, hIds, and_comm, @eq_comm _ original]

theorem has_syncTarget_iff {sp : SinglePlacement} {key original id : String} {st : SyncTarget}
    (hSt : caches.syncTargets.get key = some st)
    (hIds : analyzeClusterScopedObject (some st.objectMeta) = .ok (original, id)) :
    Has env caches sp (.syncTarget key) ↔ sp.cluster = env.spaceIDFromKubeBind id ∧ sp.syncTargetName = original := by
  simp [Has, hSt, hIds, and_comm, @eq_comm _ original]

include hRes

variable {l t : String} {st : SyncTarget} {sp : SinglePlacement}

theorem Resolvable.has_location_iff (hLoc : caches.locations.get l = some loc)
    (sp : SinglePlacement) : Has env caches sp (.location l) ↔
      sp.cluster = env.spaceIDFromKubeBind kbSpaceID ∧ sp.locationName = originalName loc.objectMeta := by
  obtain ⟨-, ⟨original, hIds⟩, -⟩ := hRes.locations l loc hLoc
  rw [WhereResolver.has_location_iff hLoc hIds, originalName_eq hIds]

theorem Resolvable.has_syncTarget_iff (hSt : caches.syncTargets.get t = some st)
    (sp : SinglePlacement) : Has env caches sp (.syncTarget t) ↔
      sp.cluster = env.spaceIDFromKubeBind kbSpaceID ∧ sp.syncTargetName = originalName st.objectMeta := by
  obtain ⟨-, original, hIds⟩ := hRes.syncTargets t st hSt
  rw [WhereResolver.has_syncTarget_iff hSt hIds, originalName_eq hIds]

theorem location_eq_of_has {l' : String} (hHas : Has env caches sp (.location l))
    (hHas' : Has env caches sp (.location l')) : l = l' := by
  obtain ⟨loc, -, -, hLoc, -⟩ := id hHas
  obtain ⟨loc', -, -, hLoc', -⟩ := id hHas'
  rw [hRes.has_location_iff hLoc] at hHas
  rw [hRes.has_location_iff hLoc'] at hHas'
  exact location_unique hRes hLoc hLoc' (hHas.2.symm.trans hHas'.2)

theorem syncTarget_eq_of_has {t' : String} (hHas : Has env caches sp (.syncTarget t))
    (hHas' : Has env caches sp (.syncTarget t')) : t = t' := by
  obtain ⟨st, -, -, hSt, -⟩ := id hHas
  obtain ⟨st', -, -, hSt', -⟩ := id hHas'
  rw [hRes.has_syncTarget_iff hSt] at hHas
  rw [hRes.has_syncTarget_iff hSt'] at hHas'
  exact syncTarget_unique hRes hSt hSt' (hHas.2.symm.trans hHas'.2)

end KubeStellar.WhereResolver
