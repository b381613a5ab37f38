import KubeStellar.WhereResolver.Relations

/-! # What one reconcile changes

A reconcile that succeeds makes the bits of the store that concern its object right, and replaces, in the slices that
the store or the caches connect with its object, the destinations that have it. While some changed objects wait for
their reconcile, a slice holds what should be there except for what waits.
-/

namespace KubeStellar.WhereResolver

open List

section

variable {Sel : Type} {env : Env Sel} {kbSpaceID epName locName : String} {caches : Caches Sel}
  (hRes : Resolvable env kbSpaceID caches) {attempt : Attempt} {s s' : State}
  (hVisible : Visible env caches s) {ep : EdgePlacement Sel} {loc : Location Sel}

include hRes

theorem reconcileOnLocation_eq (attempt : Attempt) (s : State) (hLoc : caches.locations.get locName = some loc) :
    reconcileOnLocation env attempt caches s locName =
      let selected := (s.store.epsBySelectedLoc.get locName).getD ∅
      let selecting := packEpKeys ((listEdgePlacements attempt caches).filter (selectsLocation env · loc))
      let sts := (listSyncTargets attempt caches).filter (selectsSyncTarget env loc)
      forEachEp (fun s ep => updateForLoc env attempt (env.spaceIDFromKubeBind kbSpaceID) (originalName loc.objectMeta)
          (if selecting.has ep then sts.map (destination env kbSpaceID loc) else []) s ep)
        { s with store := ⟨s.store.epsBySelectedLoc.put locName selecting,
          s.store.locsBySelectedSt.select attempt.ord locName (packStKeys sts)⟩ }
        ((attempt.ord.visit selected).map Prod.fst ++
          ((attempt.ord.visit selecting).map Prod.fst).filter fun ep => !selected.has ep) := by
  obtain ⟨-, ⟨original, hIds⟩, -⟩ := hRes.locations locName loc hLoc
  simp only [reconcileOnLocation, hLoc, Option.map_some, hIds, hRes.space, if_false, Option.getD_some,
    filterStsByLoc_eq hRes attempt hLoc, filterEpsByLoc_eq hRes attempt loc, originalName_eq hIds,
    makeSinglePlacementsForLoc_eq hRes attempt hLoc fun st hMem => mem_of_mem_filter hMem]
  rfl

include hVisible

theorem processed_location (hLoc : caches.locations.get locName = some loc)
    (hOk : reconcileOnLocation env attempt caches s locName = (s', .ok ())) :
    Processed env kbSpaceID caches (.location locName) s s' := by
  have hSelecting := has_packEpKeys_iff hRes attempt hLoc
  have hSts := has_packStKeys_iff hRes attempt hLoc
  have hNodup := @destinations_of_location_nodup Sel env kbSpaceID caches hRes attempt loc
  rw [reconcileOnLocation_eq hRes attempt s hLoc] at hOk
  obtain ⟨hStore, hSlices⟩ := forEachEp_holds hVisible (updateForLoc_updates attempt _ _ _) (names_nodup _ _ _) hOk
  refine ⟨fun l ep => ?_, fun t l => ?_, (fun ep hItem => by cases hItem), fun ep before _ hHolds => ?_⟩
  · rw [hStore, SetsByKey.mem_put]
    by_cases hName : l = locName
    · simp [hName, hSelecting ep]
    · simp [hName, Ne.symm hName]
  · rw [hStore, SetsByKey.mem_select_iff]
    by_cases hName : l = locName
    · simp [hName, hSts t]
    · simp [hName, Ne.symm hName]
  · refine ⟨_, hSlices ep before hHolds, (replaced_of_loop hNodup ?_ ?_).congr (fun sp => ?_) fun sp => ?_⟩
    · intro sp hMem
      obtain ⟨st, -, rfl⟩ := mem_map.mp hMem
      simp [destination]
    · exact fun hHas => (mem_names_iff ep).mpr (.inr hHas)
    · rw [mem_names_iff, hSelecting, hRes.has_location_iff hLoc]
      simp [SetsByKey.mem, Touched, Selecting]
    · rw [hSelecting]
      simp only [mem_map, mem_filter, mem_listSyncTargets_iff]
      refine and_congr_right fun hSelects => ⟨?_, ?_⟩
      · rintro ⟨l, loc', t, st, hLoc', hSt, hItem, -, hSelSt, rfl⟩
        obtain rfl := QueueItem.location.inj (hItem.resolve_right (by simp))
        obtain rfl := Option.mem_unique hLoc hLoc'
        exact ⟨st, ⟨⟨t, hSt⟩, hSelSt⟩, rfl⟩
      · rintro ⟨st, ⟨⟨t, hSt⟩, hSelSt⟩, rfl⟩
        exact ⟨locName, loc, t, st, hLoc, hSt, .inl rfl, hSelects, hSelSt, rfl⟩

omit hVisible in
theorem reconcileOnSyncTarget_eq (attempt : Attempt) (s : State) {stName : String} {st : SyncTarget}
    (hSt : caches.syncTargets.get stName = some st) :
    reconcileOnSyncTarget env attempt caches s stName =
      let used := s.store.findEpsUsedSt attempt.ord stName
      let locs := (listLocations attempt caches).filter (selectsSyncTarget env · st)
      let usingSt := (locs.map fun loc => loc.objectMeta.name).foldl
        (fun eps locKey => unionTwo eps ((s.store.epsBySelectedLoc.get locKey).getD ∅)) ∅
      forEachEp (updateForSt env attempt (env.spaceIDFromKubeBind kbSpaceID) (originalName st.objectMeta)
          fun ep => if usingSt.has ep then additionalSingles env caches locs (some st) ep else .ok [])
        { s with store := { s.store with
          locsBySelectedSt := s.store.locsBySelectedSt.put stName (packLocKeys locs) } }
        ((attempt.ord.visit used).map Prod.fst ++
          ((attempt.ord.visit usingSt).map Prod.fst).filter fun ep => !used.has ep) := by
  obtain ⟨-, original, hIds⟩ := hRes.syncTargets stName st hSt
  simp only [reconcileOnSyncTarget, hSt, Option.map_some, hIds, hRes.space, if_false, Option.getD_some,
    filterLocsBySt_eq hRes attempt st, originalName_eq hIds]
  rfl

omit hVisible in
theorem additionalSingles_eq (attempt : Attempt) {stName : String} {st : SyncTarget}
    (hSt : caches.syncTargets.get stName = some st) {ep : String} {l : List SinglePlacement}
    (hOk : additionalSingles env caches ((listLocations attempt caches).filter (selectsSyncTarget env · st)) (some st)
      ep = .ok l) {epObj : EdgePlacement Sel} (hEp : caches.edgePlacements.get ep = some epObj) :
    l = (((listLocations attempt caches).filter (selectsSyncTarget env · st)).filter (selectsLocation env epObj)).map
      (destination env kbSpaceID · st) := by
  simp only [additionalSingles, hEp, filterLocsByEp_eq hRes hEp] at hOk
  rw [← Except.ok.inj hOk]
  exact makeSinglePlacementsForSt_eq hRes attempt hSt fun loc hMem =>
    mem_of_mem_filter (mem_of_mem_filter hMem)

theorem processed_syncTarget {stName : String} {st : SyncTarget} (hSt : caches.syncTargets.get stName = some st)
    (hOk : reconcileOnSyncTarget env attempt caches s stName = (s', .ok ())) :
    Processed env kbSpaceID caches (.syncTarget stName) s s' := by
  have hUsing := @has_usingSt_iff s Sel env caches stName ((listLocations attempt caches).filter
    (selectsSyncTarget env · st))
    fun name => by
      rw [mem_names_iff_selected (fun name loc hLoc => (hRes.locations name loc hLoc).1) fun loc => by
        rw [mem_filter, mem_listLocations_iff], selectsSt_iff hSt]
  have hAdditional := @additionalSingles_eq Sel env kbSpaceID caches hRes attempt stName st hSt
  have hPack := @has_packLocKeys_iff Sel env kbSpaceID caches hRes attempt (selectsSyncTarget env · st)
  rw [reconcileOnSyncTarget_eq hRes attempt s hSt] at hOk
  dsimp only at hOk
  generalize List.foldl _ _ _ = usingSt at hUsing hOk
  let singles (epObj : EdgePlacement Sel) : List SinglePlacement :=
    (((listLocations attempt caches).filter (selectsSyncTarget env · st)).filter (selectsLocation env epObj)).map
      (destination env kbSpaceID · st)
  have hSingles : ∀ ep l, (if usingSt.has ep then additionalSingles env caches
      ((listLocations attempt caches).filter (selectsSyncTarget env · st)) (some st) ep else .ok []) = .ok l →
        l = if usingSt.has ep then ((caches.edgePlacements.get ep).map singles).getD [] else [] := by
    intro ep l hOk
    split at hOk
    · rename_i hHas
      rw [if_pos hHas]
      cases hEp : caches.edgePlacements.get ep with
      | none =>
        rw [additionalSingles, hEp] at hOk
        cases hOk
      | some epObj => exact hAdditional hOk hEp
    · rename_i hHas
      rw [if_neg hHas]
      exact (Except.ok.inj hOk).symm
  obtain ⟨hStore, hSlices⟩ :=
    forEachEp_holds hVisible (updateForSt_updates attempt _ _ _ _ hSingles) (names_nodup _ _ _) hOk
  refine ⟨fun l ep => by simp [hStore], fun t l => ?_, (fun ep hItem => by cases hItem), fun ep before _ hHolds => ?_⟩
  · rw [hStore, SetsByKey.mem_put]
    by_cases hName : t = stName
    · simp [hName, hPack, selectsSt_iff hSt]
    · simp [hName, Ne.symm hName]
  · obtain ⟨epObj, hEp, -⟩ := id hHolds
    refine ⟨_, hSlices ep before hHolds, ?_⟩
    simp only [hEp, Option.map_some, Option.getD_some]
    refine (replaced_of_loop ?_ ?_ ?_).congr (fun sp => ?_) fun sp => ?_
    · refine destinations_of_syncTarget_nodup hRes attempt ?_ fun loc hMem =>
        mem_of_mem_filter (mem_of_mem_filter hMem)
      exact ((attempt.ord.visit_values_nodup _ _ fun name loc hLoc =>
        (hRes.locations name loc hLoc).1).filter _).filter _
    · intro sp hMem
      obtain ⟨loc, -, rfl⟩ := mem_map.mp hMem
      simp [destination]
    · exact fun hHas => (mem_names_iff ep).mpr (.inr hHas)
    · rw [mem_names_iff, hUsing, has_findEpsUsedSt_iff, hRes.has_syncTarget_iff hSt]
      simp [Touched, Selecting]
    · rw [hUsing]
      refine and_congr_right fun _ => ?_
      simp only [singles, mem_map, mem_filter, mem_listLocations_iff]
      constructor
      · rintro ⟨l, loc, t, st', hLoc, hSt', hItem, ⟨epObj', loc', hEp', hLoc', hSelects⟩, hSelSt, rfl⟩
        obtain rfl := QueueItem.syncTarget.inj (hItem.resolve_left (by simp))
        obtain rfl := Option.mem_unique hSt hSt'
        obtain rfl := Option.mem_unique hEp hEp'
        obtain rfl := Option.mem_unique hLoc hLoc'
        exact ⟨loc, ⟨⟨⟨l, hLoc⟩, hSelSt⟩, hSelects⟩, rfl⟩
      · rintro ⟨loc, ⟨⟨⟨l, hLoc⟩, hSelSt⟩, hSelects⟩, rfl⟩
        exact ⟨l, loc, stName, st, hLoc, hSt, .inr rfl, ⟨epObj, loc, hEp, hLoc, hSelects⟩, hSelSt, rfl⟩

omit hVisible in
theorem reconcileOnEdgePlacement_eq (attempt : Attempt) (s : State)
    (hEp : caches.edgePlacements.get epName = some ep) :
    reconcileOnEdgePlacement env attempt caches s epName =
      let locs := (listLocations attempt caches).filter (selectsLocation env ep)
      writeSlice env attempt { s with store := { s.store with
          epsBySelectedLoc := s.store.epsBySelectedLoc.select attempt.ord epName (packLocKeys locs) } }
        epName ep (locs.flatMap fun loc =>
          ((listSyncTargets attempt caches).filter (selectsSyncTarget env loc)).map
            (destination env kbSpaceID loc)) := by
  simp only [reconcileOnEdgePlacement, hEp, filterLocsByEp_eq hRes hEp,
    singlesForLocs_eq hRes attempt fun loc hMem => mem_of_mem_filter hMem]

theorem writeSlice_ok {store : Store}
    (hEp : caches.edgePlacements.get epName = some ep) {singles : List SinglePlacement}
    (hOk : writeSlice env attempt { s with store := store } epName ep singles = (s', .ok ())) :
    s'.store = store ∧ s'.slices = s.slices.put (consumer env ep.objectMeta) singles := by
  obtain ⟨-, ⟨original, id, hIds, hSpace⟩, -⟩ := hRes.edgePlacements epName ep hEp
  rw [consumer_eq env hIds]
  simp only [writeSlice, hIds, hSpace, if_false] at hOk
  split at hOk
  · cases hOk
  · split at hOk
    · cases hOk
    · split at hOk
      · obtain rfl := patchSpsDestinations_ok hOk
        exact ⟨rfl, rfl⟩
      · rename_i hCopy
        unfold createSlice at hOk
        split at hOk
        · cases hOk
        · split at hOk
          · -- a slice that exists has a copy
            rename_i hHas
            refine absurd (hVisible.complete epName ep hEp ?_) hCopy
            rw [consumer_eq env hIds]
            exact hHas
          · obtain rfl := (Prod.mk.inj hOk).1
            exact ⟨rfl, rfl⟩

omit hVisible in
theorem placements_nodup (attempt : Attempt) (ep : EdgePlacement Sel) :
    (((listLocations attempt caches).filter (selectsLocation env ep)).flatMap fun loc =>
      ((listSyncTargets attempt caches).filter (selectsSyncTarget env loc)).map
        (destination env kbSpaceID loc)).Nodup := by
  refine nodup_flatMap.mpr ⟨fun loc _ => destinations_of_location_nodup hRes attempt, ?_⟩
  have hNodup := (attempt.ord.visit_values_nodup caches.locations (fun loc => loc.objectMeta.name) fun name loc hLoc =>
    (hRes.locations name loc hLoc).1).filter (selectsLocation env ep)
  refine hNodup.pairwise_of_forall_ne fun loc hMem loc' hMem' hNe => ?_
  -- a common destination names both Locations
  intro sp hSp hSp'
  obtain ⟨st, -, rfl⟩ := mem_map.mp hSp
  obtain ⟨st', -, hEq⟩ := mem_map.mp hSp'
  obtain ⟨name, hLoc⟩ := (mem_listLocations_iff attempt loc).mp (mem_of_mem_filter hMem)
  obtain ⟨name', hLoc'⟩ := (mem_listLocations_iff attempt loc').mp (mem_of_mem_filter hMem')
  obtain rfl := location_unique hRes hLoc hLoc' (congrArg SinglePlacement.locationName hEq).symm
  exact hNe (Option.mem_unique hLoc hLoc')

omit hRes hVisible in
theorem mem_placements_iff (attempt : Attempt)
    (hEp : caches.edgePlacements.get epName = some ep) (sp : SinglePlacement) :
    sp ∈ (((listLocations attempt caches).filter (selectsLocation env ep)).flatMap fun loc =>
        ((listSyncTargets attempt caches).filter (selectsSyncTarget env loc)).map (destination env kbSpaceID loc)) ↔
      Placed env kbSpaceID caches epName sp := by
  simp only [mem_flatMap, mem_map, mem_filter, mem_listLocations_iff, mem_listSyncTargets_iff]
  constructor
  · rintro ⟨loc, ⟨⟨l, hLoc⟩, hSelects⟩, st, ⟨⟨t, hSt⟩, hSelSt⟩, rfl⟩
    exact ⟨l, loc, t, st, hLoc, hSt, ⟨ep, loc, hEp, hLoc, hSelects⟩, hSelSt, rfl⟩
  · rintro ⟨l, loc, t, st, hLoc, hSt, ⟨ep', loc', hEp', hLoc', hSelects⟩, hSelSt, rfl⟩
    obtain rfl := Option.mem_unique hEp hEp'
    obtain rfl := Option.mem_unique hLoc hLoc'
    exact ⟨loc, ⟨⟨l, hLoc⟩, hSelects⟩, st, ⟨⟨t, hSt⟩, hSelSt⟩, rfl⟩

theorem processed_edgePlacement (hEp : caches.edgePlacements.get epName = some ep)
    (hOk : reconcileOnEdgePlacement env attempt caches s epName = (s', .ok ())) :
    Processed env kbSpaceID caches (.edgePlacement epName) s s' := by
  have hPack := @has_packLocKeys_iff Sel env kbSpaceID caches hRes attempt (selectsLocation env ep)
  rw [reconcileOnEdgePlacement_eq hRes attempt s hEp] at hOk
  obtain ⟨hStore, hSlices⟩ := writeSlice_ok hRes hVisible hEp hOk
  refine ⟨fun l ep' => ?_, fun t l => by simp [hStore], fun ep' hItem => ?_, fun ep' before hItem hHolds => ?_⟩
  · rw [hStore, SetsByKey.mem_select_iff]
    by_cases hName : ep' = epName
    · simp [hName, hPack, selectsLoc_iff hEp]
    · simp [hName, Ne.symm hName]
  · obtain rfl := QueueItem.edgePlacement.inj hItem
    refine ⟨_, ⟨ep, hEp, ?_⟩, placements_nodup hRes attempt ep, mem_placements_iff attempt hEp⟩
    rw [hSlices, GoMap.get_put, if_pos rfl]
  · have hNe : ep' ≠ epName := fun hEq => hItem (by rw [hEq])
    obtain ⟨epObj, hEp', hSlice⟩ := hHolds
    refine ⟨before, ⟨epObj, hEp', ?_⟩, id, fun sp => by simp [Has, Selecting, hNe]⟩
    rw [hSlices, GoMap.get_put, if_neg, hSlice]
    intro hCons
    obtain ⟨hName, hResolves, -⟩ := hRes.edgePlacements epName ep hEp
    obtain ⟨hName', hResolves', -⟩ := hRes.edgePlacements ep' epObj hEp'
    exact hNe (by rw [← hName, ← hName', name_eq_of_consumer_eq hResolves' hResolves hCons])

end

variable {Sel : Type} (env : Env Sel) (kbSpaceID : String)

def Exists (caches : Caches Sel) : QueueItem → Prop
  | .edgePlacement key => ∃ ep, caches.edgePlacements.get key = some ep
  | .location key => ∃ loc, caches.locations.get key = some loc
  | .syncTarget key => ∃ st, caches.syncTargets.get key = some st

def Justified (caches : Caches Sel) (pending : QueueItem → Prop) (store : Store) (ep : String) (sp : SinglePlacement) :
    Prop :=
  ∃ l loc t st, caches.locations.get l = some loc ∧ caches.syncTargets.get t = some st ∧
    sp.cluster = env.spaceIDFromKubeBind kbSpaceID ∧ sp.locationName = originalName loc.objectMeta ∧
    sp.syncTargetName = originalName st.objectMeta ∧
    (store.epsBySelectedLoc.mem l ep = true ∧ store.locsBySelectedSt.mem t l = true ∨
      SelectsLoc env caches ep l ∧ SelectsSt env caches l t ∧ sp.syncTargetUID = st.uid) ∧
    (¬ pending (.syncTarget t) → sp.syncTargetUID = st.uid)

structure SliceConverging (caches : Caches Sel) (pending : QueueItem → Prop) (store : Store) (ep : String)
    (destinations : List SinglePlacement) : Prop where
  nodup : destinations.Nodup
  justified : ∀ sp ∈ destinations, Justified env kbSpaceID caches pending store ep sp
  complete : ∀ l loc t st, caches.locations.get l = some loc → caches.syncTargets.get t = some st →
    ¬ pending (.location l) → ¬ pending (.syncTarget t) → SelectsLoc env caches ep l →
      selectsSyncTarget env loc st = true → destination env kbSpaceID loc st ∈ destinations

structure Converging (caches : Caches Sel) (pending : QueueItem → Prop) (s : State) : Prop where
  locs : ∀ ep loc, ¬ pending (.edgePlacement ep) → ¬ pending (.location loc) →
    (s.store.epsBySelectedLoc.mem loc ep = true ↔ SelectsLoc env caches ep loc)
  sts : ∀ loc st, ¬ pending (.location loc) → ¬ pending (.syncTarget st) →
    (s.store.locsBySelectedSt.mem st loc = true ↔ SelectsSt env caches loc st)
  slices : ∀ ep epObj, caches.edgePlacements.get ep = some epObj → ¬ pending (.edgePlacement ep) → ∃ destinations,
    Holds env caches s ep destinations ∧
      SliceConverging env kbSpaceID caches pending s.store ep destinations

variable {env kbSpaceID}

theorem not_pending_of_ne {pending : QueueItem → Prop} {item done : QueueItem} (hNe : item ≠ done)
    (hPending : ¬ (pending item ∧ item ≠ done)) : ¬ pending item :=
  fun h => hPending ⟨h, hNe⟩

variable {caches : Caches Sel} (hRes : Resolvable env kbSpaceID caches) {s s' : State} {pending : QueueItem → Prop}
  {item : QueueItem}

theorem justified_destination {ep l t : String} {loc : Location Sel} {st : SyncTarget} {store : Store}
    (hLoc : caches.locations.get l = some loc) (hSt : caches.syncTargets.get t = some st)
    (hSelects : SelectsLoc env caches ep l) (hSelSt : selectsSyncTarget env loc st = true) :
    Justified env kbSpaceID caches pending store ep (destination env kbSpaceID loc st) :=
  ⟨l, loc, t, st, hLoc, hSt, rfl, rfl, rfl, .inr ⟨hSelects, ⟨loc, st, hLoc, hSt, hSelSt⟩, rfl⟩, fun _ => rfl⟩

include hRes

theorem item_of_has_destination {l t : String} {loc : Location Sel} {st : SyncTarget}
    (hLoc : caches.locations.get l = some loc) (hSt : caches.syncTargets.get t = some st)
    (hHas : Has env caches (destination env kbSpaceID loc st) item) : item = .location l ∨ item = .syncTarget t := by
  cases item with
  | edgePlacement key => exact hHas.elim
  | location key =>
    have hHere := (hRes.has_location_iff hLoc (destination env kbSpaceID loc st)).mpr ⟨rfl, rfl⟩
    exact .inl (by rw [location_eq_of_has hRes hHas hHere])
  | syncTarget key =>
    have hHere := (hRes.has_syncTarget_iff hSt (destination env kbSpaceID loc st)).mpr ⟨rfl, rfl⟩
    exact .inr (by rw [syncTarget_eq_of_has hRes hHas hHere])

theorem Justified.processed {ep : String} {sp : SinglePlacement}
    (hJustified : Justified env kbSpaceID caches pending s.store ep sp)
    (hProcessed : Processed env kbSpaceID caches item s s') (hItem : item ≠ .edgePlacement ep)
    (hKept : ¬ ((Touched s.store ep item ∨ Selecting env caches s.store ep item) ∧ Has env caches sp item)) :
    Justified env kbSpaceID caches (fun other => pending other ∧ other ≠ item) s'.store ep sp := by
  obtain ⟨l, loc, t, st, hLoc, hSt, hCluster, hLocName, hStName, hBits, hUid⟩ := hJustified
  refine ⟨l, loc, t, st, hLoc, hSt, hCluster, hLocName, hStName, ?_⟩
  -- what has the Location of the reconcile has been taken out
  have hL : item ≠ .location l := by
    rintro rfl
    exact hKept ⟨hBits.imp And.left And.left, (hRes.has_location_iff hLoc sp).mpr ⟨hCluster, hLocName⟩⟩
  by_cases hT : item = .syncTarget t
  · subst hT
    rcases hBits with ⟨hMem, hMemSt⟩ | hBits
    · exact absurd ⟨.inl ⟨l, hMemSt, hMem⟩, (hRes.has_syncTarget_iff hSt sp).mpr ⟨hCluster, hStName⟩⟩ hKept
    · exact ⟨.inr hBits, fun _ => hBits.2.2⟩
  · rw [hProcessed.locs, hProcessed.sts, if_neg (not_or.mpr ⟨hItem, hL⟩), if_neg (not_or.mpr ⟨hL, hT⟩)]
    exact ⟨hBits, fun hPending => hUid (not_pending_of_ne (Ne.symm hT) hPending)⟩

theorem Converging.processed (hConv : Converging env kbSpaceID caches pending s)
    (hProcessed : Processed env kbSpaceID caches item s s') :
    Converging env kbSpaceID caches (fun other => pending other ∧ other ≠ item) s' := by
  refine ⟨fun ep l hEp hL => ?_, fun l t hL hT => ?_, fun ep epObj hEpObj hEp => ?_⟩
  · rw [hProcessed.locs]
    split
    · exact Iff.rfl
    · rename_i hItem
      obtain ⟨hNeEp, hNeL⟩ := not_or.mp hItem
      exact hConv.locs ep l (not_pending_of_ne (Ne.symm hNeEp) hEp) (not_pending_of_ne (Ne.symm hNeL) hL)
  · rw [hProcessed.sts]
    split
    · exact Iff.rfl
    · rename_i hItem
      obtain ⟨hNeL, hNeT⟩ := not_or.mp hItem
      exact hConv.sts l t (not_pending_of_ne (Ne.symm hNeL) hL) (not_pending_of_ne (Ne.symm hNeT) hT)
  by_cases hItem : item = .edgePlacement ep
  · obtain ⟨after, hHolds, hNodup, hPlaced⟩ := hProcessed.written ep hItem
    refine ⟨after, hHolds, hNodup, fun sp hMem => ?_, fun l loc t st hLoc hSt _ _ hSelects hSelSt => ?_⟩
    · obtain ⟨l, loc, t, st, hLoc, hSt, hSelects, hSelSt, rfl⟩ := (hPlaced sp).mp hMem
      exact justified_destination hLoc hSt hSelects hSelSt
    · exact (hPlaced _).mpr ⟨l, loc, t, st, hLoc, hSt, hSelects, hSelSt, rfl⟩
  have hReady := not_pending_of_ne (Ne.symm hItem) hEp
  obtain ⟨before, hHolds, hBefore⟩ := hConv.slices ep epObj hEpObj hReady
  obtain ⟨after, hHolds', hRepl⟩ := hProcessed.slices ep before hItem hHolds
  refine ⟨after, hHolds', hRepl.nodup hBefore.nodup, fun sp hMem => ?_,
    fun l loc t st hLoc hSt hL hT hSelects hSelSt => ?_⟩
  · rcases (hRepl.mem_iff sp).mp hMem with ⟨hMem, hKept⟩ | ⟨-, l, loc, t, st, hLoc, hSt, -, hSelects, hSelSt, rfl⟩
    · exact (hBefore.justified sp hMem).processed hRes hProcessed hItem hKept
    · exact justified_destination hLoc hSt hSelects hSelSt
  · rw [hRepl.mem_iff]
    by_cases hNamed : item = .location l ∨ item = .syncTarget t
    · refine .inr ⟨?_, l, loc, t, st, hLoc, hSt, hNamed, hSelects, hSelSt, rfl⟩
      rcases hNamed with rfl | rfl
      · exact hSelects
      · have hMem := (hConv.locs ep l hReady (not_pending_of_ne (by simp) hL)).mpr hSelects
        exact ⟨l, ⟨loc, st, hLoc, hSt, hSelSt⟩, hMem⟩
    · obtain ⟨hNeL, hNeT⟩ := not_or.mp hNamed
      exact .inl ⟨hBefore.complete l loc t st hLoc hSt (not_pending_of_ne (Ne.symm hNeL) hL)
        (not_pending_of_ne (Ne.symm hNeT) hT) hSelects hSelSt,
        fun hRemoved => hNamed (item_of_has_destination hRes hLoc hSt hRemoved.2)⟩

variable {attempt : Attempt} (hVisible : Visible env caches s)

include hVisible

theorem processed_of_ok (hExists : Exists caches item) (hOk : process env attempt caches s item = (s', .ok ())) :
    Processed env kbSpaceID caches item s s' := by
  cases item with
  | edgePlacement key =>
    obtain ⟨ep, hEp⟩ := hExists
    exact processed_edgePlacement hRes hVisible hEp hOk
  | location key =>
    obtain ⟨loc, hLoc⟩ := hExists
    exact processed_location hRes hVisible hLoc hOk
  | syncTarget key =>
    obtain ⟨st, hSt⟩ := hExists
    exact processed_syncTarget hRes hVisible hSt hOk

end KubeStellar.WhereResolver
