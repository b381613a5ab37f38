import KubeStellar.WhereResolver.Steps

/-! # Incremental and full recomputation agree

When every object that has been created or updated has been reconciled, in any order, the store and the slices are what
a computation from the caches gives.
-/

namespace KubeStellar.WhereResolver

open List Option GoMap

variable {Sel : Type} (env : Env Sel) (kbSpaceID : String)

/-- The store and the slices are as the caches say. -/
structure Agrees (caches : Caches Sel) (s : State) : Prop where
  locs : ∀ ep loc, s.store.epsBySelectedLoc.mem loc ep = true ↔ SelectsLoc env caches ep loc
  sts : ∀ loc st, s.store.locsBySelectedSt.mem st loc = true ↔ SelectsSt env caches loc st
  slices : ∀ ep epObj, caches.edgePlacements.get ep = some epObj → ∃ destinations,
    Holds env caches s ep destinations ∧ destinations.Nodup ∧
      ∀ sp, sp ∈ destinations ↔ Placed env kbSpaceID caches ep sp

/-- Objects have been created and updated, and none deleted. -/
structure Grows (old new : Caches Sel) : Prop where
  edgePlacements : ∀ name, old.edgePlacements.has name = true → new.edgePlacements.has name = true
  locations : ∀ name, old.locations.has name = true → new.locations.has name = true
  syncTargets : ∀ name, old.syncTargets.has name = true → new.syncTargets.has name = true

def Changed (old new : Caches Sel) : QueueItem → Prop
  | .edgePlacement key => old.edgePlacements.get key ≠ new.edgePlacements.get key
  | .location key => old.locations.get key ≠ new.locations.get key
  | .syncTarget key => old.syncTargets.get key ≠ new.syncTargets.get key

/-- Reconciles one after another, each without a fault and each after the informer has seen the slices. -/
inductive Run (caches : Caches Sel) : State → List QueueItem → State → Prop
  | nil (s : State) : Run caches s [] s
  | cons {s s' s'' : State} {item : QueueItem} {rest : List QueueItem} (attempt : Attempt)
      (cached : GoMap String SinglePlacementSlice) (hVisible : Visible env caches { s with cached := cached })
      (hOk : process env attempt caches { s with cached := cached } item = (s', .ok ()))
      (hRest : Run caches s' rest s'') : Run caches s (item :: rest) s''

variable {env kbSpaceID} {item : QueueItem}

section Batch

variable {old new : Caches Sel} (hNew : Resolvable env kbSpaceID new)

include hNew

theorem converging_run {pending : QueueItem → Prop} {s s' : State} {items : List QueueItem}
    (hRun : Run env new s items s') (hExists : ∀ item ∈ items, Exists new item)
    (hConv : Converging env kbSpaceID new pending s) :
    Converging env kbSpaceID new (fun item => pending item ∧ item ∉ items) s' := by
  induction hRun generalizing pending with
  | nil s => simpa using hConv
  | @cons s s' s'' item rest attempt cached hVisible hOk hRest ih =>
    have hHere : Converging env kbSpaceID new pending { s with cached := cached } :=
      ⟨hConv.locs, hConv.sts, hConv.slices⟩
    have hStep := hHere.processed hNew (processed_of_ok hNew hVisible (hExists item mem_cons_self) hOk)
    have hLater := ih (fun item hMem => hExists item (mem_cons_of_mem _ hMem)) hStep
    simpa only [mem_cons, not_or, and_assoc, ne_eq] using hLater

omit hNew in
theorem Agrees.of_converging {s : State} (hConv : Converging env kbSpaceID new (fun _ => False) s) :
    Agrees env kbSpaceID new s := by
  refine ⟨fun ep l => hConv.locs ep l id id, fun l t => hConv.sts l t id id, fun ep epObj hEp => ?_⟩
  obtain ⟨destinations, hHolds, hNodup, hJustified, hComplete⟩ := hConv.slices ep epObj hEp id
  refine ⟨destinations, hHolds, hNodup, fun sp => ⟨fun hMem => ?_, ?_⟩⟩
  · obtain ⟨l, loc, t, st, hLoc, hSt, hCluster, hLocName, hStName, hBits, hUid⟩ := hJustified sp hMem
    have hSelected : SelectsLoc env new ep l ∧ SelectsSt env new l t := by
      rcases hBits with ⟨hA, hB⟩ | ⟨hSelects, hSelSt, -⟩
      · exact ⟨(hConv.locs ep l id id).mp hA, (hConv.sts l t id id).mp hB⟩
      · exact ⟨hSelects, hSelSt⟩
    obtain ⟨hSelects, loc', st', hLoc', hSt', hSelSt⟩ := hSelected
    obtain rfl := Option.mem_unique hLoc hLoc'
    obtain rfl := Option.mem_unique hSt hSt'
    refine ⟨l, loc, t, st, hLoc, hSt, hSelects, hSelSt, ?_⟩
    rw [destination, ← hCluster, ← hLocName, ← hStName, ← hUid id]
  · rintro ⟨l, loc, t, st, hLoc, hSt, hSelects, hSelSt, rfl⟩
    exact hComplete l loc t st hLoc hSt id id hSelects hSelSt

omit hNew in
theorem exists_of_get_ne {V : Type} {m m' : GoMap String V} {key : String}
    (hKept : m.has key = true → m'.has key = true)
    (hNe : m.get key ≠ m'.get key) : ∃ v, m'.get key = some v := by
  cases hOld : m.get key with
  | none => exact ne_none_iff_exists'.mp fun hNone => hNe (hOld.trans hNone.symm)
  | some v => exact isSome_iff_exists.mp (hKept (by rw [GoMap.has, hOld]; rfl))

omit hNew in
theorem exists_of_changed (hGrows : Grows old new) (hChanged : Changed old new item) : Exists new item := by
  cases item with
  | edgePlacement key => exact exists_of_get_ne (hGrows.edgePlacements key) hChanged
  | location key => exact exists_of_get_ne (hGrows.locations key) hChanged
  | syncTarget key => exact exists_of_get_ne (hGrows.syncTargets key) hChanged

variable (hOld : Resolvable env kbSpaceID old) (hGrows : Grows old new) {s : State}
  (hAgrees : Agrees env kbSpaceID old s)

include hOld hGrows hAgrees

theorem Agrees.justified {ep : String} {sp : SinglePlacement} (hPlaced : Placed env kbSpaceID old ep sp) :
    Justified env kbSpaceID new (Changed old new) s.store ep sp := by
  obtain ⟨l, loc, t, st, hLoc, hSt, hSelects, hSelSt, rfl⟩ := hPlaced
  obtain ⟨loc', hLoc'⟩ := isSome_iff_exists.mp (hGrows.locations l (by rw [GoMap.has, hLoc]; rfl))
  obtain ⟨st', hSt'⟩ := isSome_iff_exists.mp (hGrows.syncTargets t (by rw [GoMap.has, hSt]; rfl))
  obtain ⟨hName, ⟨original, hIds⟩, -⟩ := hOld.locations l loc hLoc
  obtain ⟨hName', ⟨original', hIds'⟩, -⟩ := hNew.locations l loc' hLoc'
  obtain ⟨hStName, stOriginal, hStIds⟩ := hOld.syncTargets t st hSt
  obtain ⟨hStName', stOriginal', hStIds'⟩ := hNew.syncTargets t st' hSt'
  refine ⟨l, loc', t, st', hLoc', hSt', rfl, ?_, ?_, .inl ⟨?_, ?_⟩, fun hSame => ?_⟩
  · exact (originalName_eq_iff hIds hIds').mpr (hName.trans hName'.symm)
  · exact (originalName_eq_iff hStIds hStIds').mpr (hStName.trans hStName'.symm)
  · exact (hAgrees.locs ep l).mpr hSelects
  · exact (hAgrees.sts l t).mpr ⟨loc, st, hLoc, hSt, hSelSt⟩
  · have hEq := (hSt.symm.trans (not_not.mp hSame)).trans hSt'
    rw [destination, Option.some.inj hEq]

theorem Agrees.converging : Converging env kbSpaceID new (Changed old new) s := by
  constructor
  · intro ep l hEp hL
    rw [hAgrees.locs, SelectsLoc, SelectsLoc, not_not.mp hEp, not_not.mp hL]
  · intro l t hL hT
    rw [hAgrees.sts, SelectsSt, SelectsSt, not_not.mp hL, not_not.mp hT]
  · intro ep epObj hEpObj hEp
    have hSame : old.edgePlacements.get ep = new.edgePlacements.get ep := not_not.mp hEp
    obtain ⟨destinations, ⟨epObj', hEpObj', hSlice⟩, hNodup, hPlaced⟩ := hAgrees.slices ep epObj (hSame.trans hEpObj)
    refine ⟨destinations, ⟨epObj', hSame ▸ hEpObj', hSlice⟩, hNodup, fun sp hMem =>
      hAgrees.justified hNew hOld hGrows ((hPlaced sp).mp hMem), ?_⟩
    intro l loc t st hLoc hSt hL hT hSelects hSelSt
    have hSameLoc : old.locations.get l = new.locations.get l := not_not.mp hL
    have hSameSt : old.syncTargets.get t = new.syncTargets.get t := not_not.mp hT
    refine (hPlaced _).mpr ⟨l, loc, t, st, hSameLoc.trans hLoc, hSameSt.trans hSt, ?_, hSelSt, rfl⟩
    rwa [SelectsLoc, hSame, hSameLoc]

end Batch

/-- Once every object that changed is reconciled, in whatever order, the slices are right for the new objects. -/
theorem reconciles_agree (env : Env Sel) (kbSpaceID : String) (old new : Caches Sel)
    (hOld : Resolvable env kbSpaceID old) (hNew : Resolvable env kbSpaceID new) (hGrows : Grows old new)
    (s s' : State) (hAgrees : Agrees env kbSpaceID old s) (items : List QueueItem)
    (hItems : ∀ item, item ∈ items ↔ Changed old new item) (hRun : Run env new s items s') :
    Agrees env kbSpaceID new s' := by
  have hEnd := converging_run hNew hRun (fun item hMem => exists_of_changed hGrows ((hItems item).mp hMem))
    (hAgrees.converging hNew hOld hGrows)
  have hDone : (fun item => Changed old new item ∧ item ∉ items) = fun _ => False := by
    funext item
    rw [hItems]
    exact eq_false fun h => h.2 h.1
  rw [hDone] at hEnd
  exact Agrees.of_converging hEnd

def copyMeta (id name : String) (labels : Labels) : ObjectMeta :=
  ⟨Kbuser.composeClusterScopedName id name, "", GoMap.ofList [(Kbuser.clusterNamespaceAnnotation, id)], labels⟩

theorem analyze_copyMeta (id : String) (hID : id ≠ "") (name : String) (labels : Labels) :
    analyzeClusterScopedObject (some (copyMeta id name labels)) = .ok (name, id) := by
  rw [analyzeClusterScopedObject, Kbuser.analyzeClusterScopedObject_compose (copyMeta id name labels) id name
    hID ?_ rfl rfl]
  rfl

def edgeEnv : Env (List (String × String)) :=
  ⟨.ofEvents [.add (Kbuser.mappingOf "imw1" "kb1"), .add (Kbuser.mappingOf "wds1" "kb2")], SelectorLibrary.matchLabels⟩

def edgePlacement : EdgePlacement (List (String × String)) :=
  ⟨copyMeta "kb2" "ep1" ∅, ⟨[[("env", "prod")]], [], false, []⟩⟩

def edgeLocation : Location (List (String × String)) :=
  ⟨copyMeta "kb1" "edge1" (GoMap.ofList [("env", "prod")]), some [("site", "1")]⟩

def edgeSyncTarget : SyncTarget := ⟨copyMeta "kb1" "st1" (GoMap.ofList [("site", "1")]), "uid1"⟩

def edgeCachesBefore : Caches (List (String × String)) := ⟨GoMap.ofList [("kb2-ep1", edgePlacement)], ∅, ∅⟩

def edgeCaches : Caches (List (String × String)) :=
  ⟨GoMap.ofList [("kb2-ep1", edgePlacement)], GoMap.ofList [("kb1-edge1", edgeLocation)],
    GoMap.ofList [("kb1-st1", edgeSyncTarget)]⟩

variable (store : Store)

def edgeState (destinations : List SinglePlacement) : State where
  store := store
  cached := GoMap.ofList [("kb2-ep1", ⟨copyMeta "kb2" "ep1" ∅, destinations⟩)]
  slices := GoMap.ofList [(⟨"wds1", "ep1"⟩, destinations)]

def edgeAttempt : Attempt := ⟨RangeOrder.insertion, fun _ => true, fun _ => true, fun _ => true, fun _ => true⟩

theorem eq_of_get_singleton {V : Type} {key name : String} {v v' : V}
    (hGet : (GoMap.ofList [(key, v)]).get name = some v') : name = key ∧ v' = v := by
  rw [get_ofList_singleton] at hGet
  split at hGet
  · rename_i hKey
    exact ⟨hKey, (Option.some.inj hGet).symm⟩
  · cases hGet

theorem edgeState_visible (destinations : List SinglePlacement) :
    Visible edgeEnv edgeCaches (edgeState store destinations) := by
  constructor
  · intro name sps hSps
    obtain ⟨rfl, rfl⟩ := eq_of_get_singleton hSps
    have hIds := analyze_copyMeta "kb2" (by decide) "ep1" ∅
    refine ⟨rfl, ⟨"ep1", "kb2", hIds, by decide⟩, (get_ofList_singleton _ _ _).trans (if_pos ?_)⟩
    exact consumer_eq edgeEnv hIds
  · intro name ep hEp _
    obtain ⟨rfl, rfl⟩ := eq_of_get_singleton hEp
    rfl
  · intro name ep sps hEp hSps
    obtain ⟨rfl, rfl⟩ := eq_of_get_singleton hEp
    obtain ⟨-, rfl⟩ := eq_of_get_singleton hSps
    rfl

theorem edge_run : Run edgeEnv edgeCaches (edgeState ⟨∅, ∅⟩ []) [.syncTarget "kb1-st1", .location "kb1-edge1"]
    (edgeState ⟨GoMap.ofList [("kb1-edge1", MapSet.addAll ∅ ["kb2-ep1"])],
      GoMap.ofList [("kb1-st1", MapSet.addAll ∅ ["kb1-edge1"])]⟩ [⟨"imw1", "edge1", "st1", "uid1"⟩]) := by
  refine .cons edgeAttempt (edgeState ⟨∅, ∅⟩ []).cached (edgeState_visible _ _) rfl ?_
  refine .cons edgeAttempt (edgeState ⟨∅, ∅⟩ []).cached (edgeState_visible _ _) rfl ?_
  exact .nil _

theorem edgeCaches_resolvable : Resolvable edgeEnv "kb1" edgeCaches := by
  constructor
  · decide
  · intro name loc hLoc
    obtain ⟨rfl, rfl⟩ := eq_of_get_singleton hLoc
    exact ⟨rfl, ⟨"edge1", analyze_copyMeta "kb1" (by decide) _ _⟩, some_ne_none _⟩
  · intro name st hSt
    obtain ⟨rfl, rfl⟩ := eq_of_get_singleton hSt
    exact ⟨rfl, "st1", analyze_copyMeta "kb1" (by decide) _ _⟩
  · intro name ep hEp
    obtain ⟨rfl, rfl⟩ := eq_of_get_singleton hEp
    exact ⟨rfl, ⟨"ep1", "kb2", analyze_copyMeta "kb2" (by decide) _ _, by decide⟩, fun _ _ => some_ne_none _⟩

theorem edgeCachesBefore_resolvable : Resolvable edgeEnv "kb1" edgeCachesBefore where
  space := edgeCaches_resolvable.space
  locations _ _ hLoc := absurd hLoc (some_ne_none _).symm
  syncTargets _ _ hSt := absurd hSt (some_ne_none _).symm
  edgePlacements := edgeCaches_resolvable.edgePlacements

theorem edgeState_agrees : Agrees edgeEnv "kb1" edgeCachesBefore (edgeState ⟨∅, ∅⟩ []) := by
  constructor
  · intro ep loc
    refine iff_of_false Bool.false_ne_true ?_
    rintro ⟨_, _, _, hLoc, _⟩
    cases hLoc
  · intro loc st
    refine iff_of_false Bool.false_ne_true ?_
    rintro ⟨_, _, hLoc, _⟩
    cases hLoc
  · intro name ep hEp
    refine ⟨[], ⟨ep, hEp, ?_⟩, nodup_nil, fun sp => iff_of_false not_mem_nil ?_⟩
    · obtain ⟨rfl, rfl⟩ := eq_of_get_singleton hEp
      rfl
    · rintro ⟨_, _, _, _, hLoc, _⟩
      cases hLoc

theorem edge_changed (item : QueueItem) :
    item ∈ [QueueItem.syncTarget "kb1-st1", .location "kb1-edge1"] ↔ Changed edgeCachesBefore edgeCaches item := by
  cases item with
  | edgePlacement key => simp [Changed, edgeCachesBefore, edgeCaches]
  | location key => simp [Changed, edgeCachesBefore, edgeCaches, get_ofList_singleton]
  | syncTarget key => simp [Changed, edgeCachesBefore, edgeCaches, get_ofList_singleton]

theorem reconciles_agree_edge : ∃ s', Run edgeEnv edgeCaches (edgeState ⟨∅, ∅⟩ [])
      [.syncTarget "kb1-st1", .location "kb1-edge1"] s' ∧
    s'.slices.get ⟨"wds1", "ep1"⟩ = some [⟨"imw1", "edge1", "st1", "uid1"⟩] ∧ Agrees edgeEnv "kb1" edgeCaches s' :=
  ⟨_, edge_run, rfl, reconciles_agree edgeEnv "kb1" edgeCachesBefore edgeCaches edgeCachesBefore_resolvable
    edgeCaches_resolvable ⟨fun _ h => h, fun _ h => absurd h Bool.false_ne_true, fun _ h => absurd h Bool.false_ne_true⟩
    _ _ edgeState_agrees _ edge_changed edge_run⟩

/-- The object has a kube-bind space annotation, and its name is consistent with it. -/
def Analyzable (obj : ObjectMeta) : Prop :=
  ∃ original id, analyzeClusterScopedObject (some obj) = .ok (original, id)

def kubeBindSpaceID (obj : ObjectMeta) : String :=
  match analyzeClusterScopedObject (some obj) with
  | .ok (_, id) => id
  | .error _ => ""

theorem Analyzable.analyze {obj : ObjectMeta} (hObj : Analyzable obj) :
    analyzeClusterScopedObject (some obj) = .ok (originalName obj, kubeBindSpaceID obj) := by
  obtain ⟨original, id, hIds⟩ := hObj
  rw [originalName, kubeBindSpaceID, hIds]

/-- What the reconciles of a Location and of a SyncTarget make of the pair is the same. -/
structure DirectionsAgree (env : Env Sel) (locs : List (Location Sel)) (sts : List SyncTarget) (loc : Location Sel)
    (st : SyncTarget) : Prop where
  selected : st ∈ (filterStsByLoc env sts loc).1 ↔ loc ∈ (filterLocsBySt env locs st).1
  destinations : ∀ sp, st ∈ (filterStsByLoc env sts loc).1 ∧ sp ∈ makeSinglePlacementsForLoc env (some loc) [st] ↔
    loc ∈ (filterLocsBySt env locs st).1 ∧ sp ∈ makeSinglePlacementsForSt env [loc] (some st)

variable {locs : List (Location Sel)} {sts : List SyncTarget} {loc : Location Sel} {st : SyncTarget}

theorem mem_filterLocsBySt_iff
    (hLocs : ∀ loc ∈ locs, labelSelectorAsSelector env.lib loc.instanceSelector ≠ none) (hLoc : loc ∈ locs) :
    loc ∈ (filterLocsBySt env locs st).1 ↔ selectsSyncTarget env loc st = true := by
  have hEq : filterLocsBySt env locs st = (locs.filter (selectsSyncTarget env · st), none) :=
    filterUntil_eq fun loc hMem => instanceSelects_eq st (hLocs loc hMem)
  rw [hEq, mem_filter]
  exact and_iff_right hLoc

theorem mem_filterStsByLoc_iff (hValid : labelSelectorAsSelector env.lib loc.instanceSelector ≠ none)
    (hIds : Analyzable loc.objectMeta) (hSts : ∀ st ∈ sts, Analyzable st.objectMeta) (hSt : st ∈ sts) :
    st ∈ (filterStsByLoc env sts loc).1 ↔
      kubeBindSpaceID st.objectMeta = kubeBindSpaceID loc.objectMeta ∧ selectsSyncTarget env loc st = true := by
  have hEq : filterStsByLoc env sts loc = (sts.filter fun st =>
      decide (kubeBindSpaceID st.objectMeta = kubeBindSpaceID loc.objectMeta) && selectsSyncTarget env loc st,
      none) := by
    rw [filterStsByLoc, hIds.analyze]
    refine filterUntil_eq fun st hMem => ?_
    rw [(hSts st hMem).analyze, instanceSelects_eq st hValid]
    by_cases hSame : kubeBindSpaceID st.objectMeta = kubeBindSpaceID loc.objectMeta <;> simp [hSame]
  simp [hEq, hSt]

theorem makeSinglePlacements_eq (hLoc : Analyzable loc.objectMeta) (hSt : Analyzable st.objectMeta)
    (hSame : kubeBindSpaceID st.objectMeta = kubeBindSpaceID loc.objectMeta) :
    makeSinglePlacementsForLoc env (some loc) [st] = makeSinglePlacementsForSt env [loc] (some st) := by
  rw [makeSinglePlacementsForLoc, makeSinglePlacementsForSt, hLoc.analyze, hSt.analyze, hSame]
  simp only [filterMap_cons, filterMap_nil, hLoc.analyze, hSt.analyze]

/-- The two reconciles agree on a pair that the Location selects, if and only if both are of one kube-bind space. -/
theorem directionsAgree_iff {Sel : Type} (env : Env Sel) (locs : List (Location Sel)) (sts : List SyncTarget)
    (hLocs : ∀ loc ∈ locs, Analyzable loc.objectMeta ∧ labelSelectorAsSelector env.lib loc.instanceSelector ≠ none)
    (hSts : ∀ st ∈ sts, Analyzable st.objectMeta) (loc : Location Sel) (hLoc : loc ∈ locs) (st : SyncTarget)
    (hSt : st ∈ sts) :
    DirectionsAgree env locs sts loc st ↔
      kubeBindSpaceID st.objectMeta = kubeBindSpaceID loc.objectMeta ∨ selectsSyncTarget env loc st = false := by
  obtain ⟨hAnalyzable, hValid⟩ := hLocs loc hLoc
  have hByLoc := @mem_filterStsByLoc_iff Sel env sts loc st hValid hAnalyzable hSts hSt
  have hBySt := @mem_filterLocsBySt_iff Sel env locs loc st (fun loc hMem => (hLocs loc hMem).2) hLoc
  constructor
  · rintro ⟨hSelected, -⟩
    rw [hByLoc, hBySt] at hSelected
    rcases Bool.eq_false_or_eq_true (selectsSyncTarget env loc st) with hSelects | hSelects
    · exact .inl (hSelected.mpr hSelects).1
    · exact .inr hSelects
  · rintro (hSame | hSelects)
    · have hSelected : st ∈ (filterStsByLoc env sts loc).1 ↔ loc ∈ (filterLocsBySt env locs st).1 := by
        rw [hByLoc, hBySt]
        exact and_iff_right hSame
      refine ⟨hSelected, fun sp => ?_⟩
      rw [hSelected, makeSinglePlacements_eq hAnalyzable (hSts st hSt) hSame]
    · have hNeither : st ∉ (filterStsByLoc env sts loc).1 ∧ loc ∉ (filterLocsBySt env locs st).1 := by
        rw [hByLoc, hBySt, hSelects]
        exact ⟨fun h => Bool.false_ne_true h.2, Bool.false_ne_true⟩
      exact ⟨iff_of_false hNeither.1 hNeither.2, fun sp =>
        iff_of_false (fun h => hNeither.1 h.1) fun h => hNeither.2 h.1⟩

theorem directionsAgree_edge : DirectionsAgree edgeEnv [edgeLocation] [edgeSyncTarget] edgeLocation edgeSyncTarget := by
  have hLoc : Analyzable edgeLocation.objectMeta := ⟨"edge1", "kb1", analyze_copyMeta "kb1" (by decide) _ _⟩
  have hSt : Analyzable edgeSyncTarget.objectMeta := ⟨"st1", "kb1", analyze_copyMeta "kb1" (by decide) _ _⟩
  refine (directionsAgree_iff edgeEnv [edgeLocation] [edgeSyncTarget] (fun loc hMem => ?_) (fun st hMem => ?_)
    edgeLocation mem_cons_self edgeSyncTarget mem_cons_self).mpr (.inl ?_)
  · obtain rfl := mem_singleton.mp hMem
    exact ⟨hLoc, Option.some_ne_none _⟩
  · obtain rfl := mem_singleton.mp hMem
    exact hSt
  · rfl

def farSyncTarget : SyncTarget := ⟨copyMeta "kb2" "st1" (GoMap.ofList [("site", "1")]), "uid2"⟩

/-- The Location does not select the SyncTarget of another space; that SyncTarget is selected by the Location. -/
theorem farSyncTarget_selected_one_way : (filterStsByLoc edgeEnv [farSyncTarget] edgeLocation).1 = [] ∧
    (filterLocsBySt edgeEnv [edgeLocation] farSyncTarget).1 = [edgeLocation] ∧
    makeSinglePlacementsForSt edgeEnv [edgeLocation] (some farSyncTarget) = [⟨"wds1", "edge1", "st1", "uid2"⟩] ∧
    ¬ DirectionsAgree edgeEnv [edgeLocation] [farSyncTarget] edgeLocation farSyncTarget := by
  refine ⟨rfl, rfl, rfl, fun hAgree => ?_⟩
  have hMem : farSyncTarget ∈ (filterStsByLoc edgeEnv [farSyncTarget] edgeLocation).1 :=
    hAgree.selected.mpr mem_cons_self
  exact absurd hMem not_mem_nil

/-- A Location or a SyncTarget is no longer in the caches. -/
def Deleted (caches : Caches Sel) : QueueItem → Prop
  | .edgePlacement _ => False
  | .location key => caches.locations.get key = none
  | .syncTarget key => caches.syncTargets.get key = none

def Names (env : Env Sel) (sp : SinglePlacement) : QueueItem → Prop
  | .edgePlacement _ => False
  | .location key => ∃ id, sp.cluster = env.spaceIDFromKubeBind id ∧
      key = Kbuser.composeClusterScopedName id sp.locationName
  | .syncTarget key => ∃ id, sp.cluster = env.spaceIDFromKubeBind id ∧
      key = Kbuser.composeClusterScopedName id sp.syncTargetName

def InStore : QueueItem → Prop
  | .edgePlacement key => ∃ loc, store.epsBySelectedLoc.mem loc key = true
  | .location key => store.epsBySelectedLoc.has key = true ∨ ∃ st, store.locsBySelectedSt.mem st key = true
  | .syncTarget key => store.locsBySelectedSt.has key = true

/-- A reconcile has removed the object from the store and what names it, and nothing else, from the slices. -/
structure Removes (env : Env Sel) (item : QueueItem) (s : State) (outcome : Outcome) : Prop where
  completes : outcome.2 = .ok ()
  store : ¬ InStore outcome.1.store item
  slices : ∀ ref sp, (∃ destinations, outcome.1.slices.get ref = some destinations ∧ sp ∈ destinations) ↔
    (∃ destinations, s.slices.get ref = some destinations ∧ sp ∈ destinations) ∧ ¬ Names env sp item

theorem process_of_deleted (env : Env Sel) (attempt : Attempt) (caches : Caches Sel) (s : State)
    (hDeleted : Deleted caches item) : process env attempt caches s item = (s, .error .nilDereference) := by
  cases item with
  | edgePlacement key => exact hDeleted.elim
  | location key =>
    rw [process, reconcileOnLocation, show caches.locations.get key = none from hDeleted]
    rfl
  | syncTarget key =>
    rw [process, reconcileOnSyncTarget, show caches.syncTargets.get key = none from hDeleted]
    rfl

/-- The reconcile of an object that is gone panics, so nothing of it is removed. -/
theorem deletion_never_completes (env : Env Sel) (attempt : Attempt) (caches : Caches Sel) (s : State)
    (item : QueueItem) (hDeleted : Deleted caches item) :
    (process env attempt caches s item).2 = .error .nilDereference ∧
      ¬ Removes env item s (process env attempt caches s item) := by
  rw [process_of_deleted env attempt caches s hDeleted]
  refine ⟨rfl, fun hRemoves => ?_⟩
  cases hRemoves.completes

/-- The state when the only Location and its SyncTarget have been placed. -/
def edgePlaced : State := edgeState ⟨GoMap.ofList [("kb1-edge1", MapSet.addAll ∅ ["kb2-ep1"])],
  GoMap.ofList [("kb1-st1", MapSet.addAll ∅ ["kb1-edge1"])]⟩ [⟨"imw1", "edge1", "st1", "uid1"⟩]

theorem edge_grows : Grows edgeCachesBefore edgeCaches :=
  ⟨fun _ h => h, fun _ h => absurd h Bool.false_ne_true, fun _ h => absurd h Bool.false_ne_true⟩

theorem edgePlaced_agrees : Agrees edgeEnv "kb1" edgeCaches edgePlaced := by
  have hEnd := converging_run edgeCaches_resolvable edge_run
    (fun item hMem => exists_of_changed edge_grows ((edge_changed item).mp hMem))
    (edgeState_agrees.converging edgeCaches_resolvable edgeCachesBefore_resolvable edge_grows)
  have hDone : (fun item => Changed edgeCachesBefore edgeCaches item ∧
      item ∉ [QueueItem.syncTarget "kb1-st1", .location "kb1-edge1"]) = fun _ => False := by
    funext item
    rw [edge_changed]
    exact eq_false fun h => h.2 h.1
  rw [hDone] at hEnd
  exact Agrees.of_converging hEnd

/-- The Location of a consistent state is deleted, and its key reconciled. -/
theorem edge_location_deletion_panics : Agrees edgeEnv "kb1" edgeCaches edgePlaced ∧
    Visible edgeEnv edgeCaches edgePlaced ∧
    process edgeEnv edgeAttempt { edgeCaches with locations := ∅ } edgePlaced (.location "kb1-edge1") =
      (edgePlaced, .error .nilDereference) ∧
    process edgeEnv edgeAttempt { edgeCaches with syncTargets := ∅ } edgePlaced (.syncTarget "kb1-st1") =
      (edgePlaced, .error .nilDereference) :=
  ⟨edgePlaced_agrees, edgeState_visible _ _, rfl, rfl⟩

theorem deletion_never_completes_edge : ¬ Removes edgeEnv (.location "kb1-edge1") edgePlaced
    (process edgeEnv edgeAttempt { edgeCaches with locations := ∅ } edgePlaced (.location "kb1-edge1")) :=
  (deletion_never_completes edgeEnv edgeAttempt { edgeCaches with locations := ∅ } edgePlaced
    (.location "kb1-edge1") rfl).2

end KubeStellar.WhereResolver
