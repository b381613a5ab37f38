import KubeStellar.WhereResolver.Retry

/-! # Which partial failures are made good

A reconcile of a Location or a SyncTarget goes by a plan that does not depend on what it meets, so a failed one is
made good by the retries, except for slices that are no longer selected.
-/

namespace KubeStellar.WhereResolver

open List Option

variable {α : Type} {test : α → Except Fault Bool}

theorem filterUntil_none {l found : List α} (hFilter : filterUntil test l = (found, none)) :
    (∀ a ∈ l, ∃ b, test a = .ok b) ∧ ∀ a, a ∈ found ↔ a ∈ l ∧ test a = .ok true := by
  induction l generalizing found with
  | nil =>
    obtain rfl := (Prod.mk.inj hFilter).1
    exact ⟨fun a h => absurd h not_mem_nil, fun a => by simp⟩
  | cons head rest ih =>
    rw [filterUntil] at hFilter
    cases hHead : test head with
    | error err =>
      rw [hHead] at hFilter
      cases hFilter
    | ok b =>
      rw [hHead] at hFilter
      cases b with
      | true =>
        obtain ⟨rfl, hRest⟩ := Prod.mk.inj hFilter
        obtain ⟨hOk, hMem⟩ := ih (Prod.ext rfl hRest)
        refine ⟨forall_mem_cons.mpr ⟨⟨true, hHead⟩, hOk⟩, fun a => ?_⟩
        rw [mem_cons, mem_cons, hMem]
        exact ⟨fun h => h.elim (fun h => ⟨.inl h, h ▸ hHead⟩) fun h => ⟨.inr h.1, h.2⟩,
          fun h => h.1.imp id fun h' => ⟨h', h.2⟩⟩
      | false =>
        obtain ⟨hOk, hMem⟩ := ih hFilter
        refine ⟨forall_mem_cons.mpr ⟨⟨false, hHead⟩, hOk⟩, fun a => ?_⟩
        rw [hMem, mem_cons]
        refine ⟨fun h => ⟨.inr h.1, h.2⟩, fun h => ⟨h.1.resolve_left ?_, h.2⟩⟩
        rintro rfl
        rw [hHead] at h
        cases h.2

theorem filterUntil_of_ok {l : List α} (hOk : ∀ a ∈ l, ∃ b, test a = .ok b) :
    ∃ found, filterUntil test l = (found, none) := by
  induction l with
  | nil => exact ⟨[], rfl⟩
  | cons head rest ih =>
    obtain ⟨b, hHead⟩ := hOk head mem_cons_self
    obtain ⟨found, hRest⟩ := ih fun a hMem => hOk a (mem_cons_of_mem _ hMem)
    rw [filterUntil, hHead, hRest]
    cases b with
    | true => exact ⟨head :: found, rfl⟩
    | false => exact ⟨found, rfl⟩

theorem filterUntil_congr {l l' found : List α} (hSame : ∀ a, a ∈ l' ↔ a ∈ l)
    (hFilter : filterUntil test l = (found, none)) :
    ∃ found', filterUntil test l' = (found', none) ∧ ∀ a, a ∈ found' ↔ a ∈ found := by
  obtain ⟨hOk, hMem⟩ := filterUntil_none hFilter
  obtain ⟨found', hFilter'⟩ := filterUntil_of_ok fun a hMem => hOk a ((hSame a).mp hMem)
  refine ⟨found', hFilter', fun a => ?_⟩
  rw [(filterUntil_none hFilter').2, hMem, hSame]

variable {key original name : String} {st : SyncTarget} {attempt attempt₀ : Attempt} {s clean : State}
  {sts : List SyncTarget} {singles : List SinglePlacement} {sp : SinglePlacement} {Sel : Type}

structure Regular (env : Env Sel) (caches : Caches Sel) : Prop where
  locations : ∀ name loc, caches.locations.get name = some loc → loc.objectMeta.name = name
  edgePlacements : ∀ name ep, caches.edgePlacements.get name = some ep → ep.objectMeta.name = name ∧
    ∀ s ∈ ep.spec.locationSelectors, env.lib.asSelector s ≠ none

variable {env : Env Sel} {caches : Caches Sel} {loc : Location Sel} {locs : List (Location Sel)} {id : String}

theorem Regular.has_packEpKeys_iff (hRegular : Regular env caches) (attempt : Attempt)
    (hLoc : caches.locations.get key = some loc) (ep : String) :
    (packEpKeys (filterEpsByLoc env (listEdgePlacements attempt caches) loc).1).has ep = true ↔
      SelectsLoc env caches ep key := by
  have hFilter : filterEpsByLoc env (listEdgePlacements attempt caches) loc =
      ((listEdgePlacements attempt caches).filter (selectsLocation env · loc), none) := by
    refine filterUntil_eq fun ep hMem => ?_
    obtain ⟨name, hEp⟩ := (mem_listEdgePlacements_iff attempt ep).mp hMem
    exact selectsAny_eq loc (hRegular.edgePlacements name ep hEp).2
  rw [hFilter, packEpKeys, MapSet.has_addAll_empty_iff,
    mem_names_iff_selected (fun name ep hEp => (hRegular.edgePlacements name ep hEp).1) fun ep => by
    rw [mem_filter, mem_listEdgePlacements_iff]]
  simp [SelectsLoc, hLoc]

theorem mem_makeSinglePlacementsForLoc_iff
    (hIds : analyzeClusterScopedObject (some loc.objectMeta) = .ok (original, id))
    (hSpace : env.spaceIDFromKubeBind id ≠ "") (sts : List SyncTarget) (sp : SinglePlacement) :
    sp ∈ makeSinglePlacementsForLoc env (some loc) sts ↔ ∃ st ∈ sts, ∃ stOriginal stID,
      analyzeClusterScopedObject (some st.objectMeta) = .ok (stOriginal, stID) ∧
        sp = ⟨env.spaceIDFromKubeBind id, original, stOriginal, st.uid⟩ := by
  simp only [makeSinglePlacementsForLoc, hIds, hSpace, if_false, mem_filterMap]
  refine exists_congr fun st => and_congr_right fun _ => ?_
  cases analyzeClusterScopedObject (some st.objectMeta) with
  | error err => simp
  | ok ids => exact ⟨fun h => ⟨ids.1, ids.2, rfl, (Option.some.inj h).symm⟩, by
      rintro ⟨stOriginal, stID, hOk, rfl⟩
      rw [Except.ok.inj hOk]⟩

theorem mem_makeSinglePlacementsForSt_iff (hIds : analyzeClusterScopedObject (some st.objectMeta) = .ok (original, id))
    (hSpace : env.spaceIDFromKubeBind id ≠ "") (locs : List (Location Sel)) (sp : SinglePlacement) :
    sp ∈ makeSinglePlacementsForSt env locs (some st) ↔ ∃ loc ∈ locs, ∃ locOriginal locID,
      analyzeClusterScopedObject (some loc.objectMeta) = .ok (locOriginal, locID) ∧
        sp = ⟨env.spaceIDFromKubeBind id, locOriginal, original, st.uid⟩ := by
  simp only [makeSinglePlacementsForSt, hIds, hSpace, if_false, mem_filterMap]
  refine exists_congr fun loc => and_congr_right fun _ => ?_
  cases analyzeClusterScopedObject (some loc.objectMeta) with
  | error err => simp
  | ok ids => exact ⟨fun h => ⟨ids.1, ids.2, rfl, (Option.some.inj h).symm⟩, by
      rintro ⟨locOriginal, locID, hOk, rfl⟩
      rw [Except.ok.inj hOk]⟩

theorem reconcileOnLocation_prologue (hLoc : caches.locations.get key = some loc)
    (hOk : reconcileOnLocation env attempt caches s key = (clean, .ok ())) :
    ∃ original id sts, analyzeClusterScopedObject (some loc.objectMeta) = .ok (original, id) ∧
      env.spaceIDFromKubeBind id ≠ "" ∧ filterStsByLoc env (listSyncTargets attempt caches) loc = (sts, none) := by
  simp only [reconcileOnLocation, hLoc, map_some, getD_some] at hOk
  split at hOk
  · cases hOk
  · rename_i original id hIds
    split at hOk
    · cases hOk
    · rename_i hSpace
      split at hOk
      · cases hOk
      · rename_i sts hSts
        exact ⟨original, id, sts, hIds, hSpace, hSts⟩

theorem filterStsByLoc_congr (attempt' : Attempt)
    (hIds : analyzeClusterScopedObject (some loc.objectMeta) = .ok (original, id))
    (hSts : filterStsByLoc env (listSyncTargets attempt caches) loc = (sts, none)) :
    ∃ sts', filterStsByLoc env (listSyncTargets attempt' caches) loc = (sts', none) ∧ ∀ st, st ∈ sts' ↔ st ∈ sts := by
  rw [filterStsByLoc, hIds] at hSts ⊢
  refine filterUntil_congr (fun st => ?_) hSts
  rw [mem_listSyncTargets_iff, mem_listSyncTargets_iff]

theorem location_plan (hRegular : Regular env caches) (hLoc : caches.locations.get key = some loc)
    (hIds : analyzeClusterScopedObject (some loc.objectMeta) = .ok (original, id))
    (hSpace : env.spaceIDFromKubeBind id ≠ "")
    (hSts : filterStsByLoc env (listSyncTargets attempt₀ caches) loc = (sts, none)) :
    Plan env caches (.location key) (fun ep => SelectsLoc env caches ep key) (fun _ => True)
      (fun sp => sp.cluster ≠ env.spaceIDFromKubeBind id || sp.locationName ≠ original)
      (fun ep sp => SelectsLoc env caches ep key ∧ sp ∈ makeSinglePlacementsForLoc env (some loc) sts) where
  adds_selecting _ _ h := h.1
  run attempt s _ := by
    have hSelecting := hRegular.has_packEpKeys_iff attempt hLoc
    obtain ⟨sts', hSts', hSame⟩ := filterStsByLoc_congr attempt hIds hSts
    refine ⟨_, _, _, by
      simp only [process, reconcileOnLocation, hLoc, map_some, hIds, hSpace, if_false, getD_some, hSts',
        isNone_some, Bool.false_eq_true]
      rfl, names_nodup _ _ _, fun ep => ?_, fun ep => Iff.rfl, fun ep => ?_, ?_⟩
    · rw [mem_names_iff, hSelecting]
      rfl
    · rw [Touched, SetsByKey.mem_put, if_pos rfl, hSelecting]
      exact fun h => h
    · have hMem : ∀ sp, sp ∈ makeSinglePlacementsForLoc env (some loc) sts' ↔
          sp ∈ makeSinglePlacementsForLoc env (some loc) sts := by
        intro sp
        rw [mem_makeSinglePlacementsForLoc_iff hIds hSpace, mem_makeSinglePlacementsForLoc_iff hIds hSpace]
        exact exists_congr fun st => and_congr_left fun _ => hSame st
      refine updateForLoc_round attempt _ _ (fun ep sp => ?_) fun ep sp hSp => ?_
      · split <;> simp_all
      · split at hSp
        · obtain ⟨_, -, _, _, -, rfl⟩ := (mem_makeSinglePlacementsForLoc_iff hIds hSpace _ sp).mp hSp
          exact ⟨rfl, rfl⟩
        · cases hSp

theorem reconcileOnSyncTarget_prologue (hSt : caches.syncTargets.get key = some st)
    (hOk : reconcileOnSyncTarget env attempt caches s key = (clean, .ok ())) :
    ∃ original id locs, analyzeClusterScopedObject (some st.objectMeta) = .ok (original, id) ∧
      env.spaceIDFromKubeBind id ≠ "" ∧ filterLocsBySt env (listLocations attempt caches) st = (locs, none) := by
  simp only [reconcileOnSyncTarget, hSt, map_some, getD_some] at hOk
  split at hOk
  · cases hOk
  · rename_i original id hIds
    split at hOk
    · cases hOk
    · rename_i hSpace
      split at hOk
      · cases hOk
      · rename_i locs hLocs
        exact ⟨original, id, locs, hIds, hSpace, hLocs⟩

theorem instanceSelects_eq_true_iff :
    instanceSelects env.lib loc st = .ok true ↔ selectsSyncTarget env loc st = true := by
  rw [instanceSelects, selectsSyncTarget]
  cases labelSelectorAsSelector env.lib loc.instanceSelector <;> simp

theorem Regular.mem_locs_iff (hRegular : Regular env caches) (hSt : caches.syncTargets.get key = some st)
    (hLocs : filterLocsBySt env (listLocations attempt caches) st = (locs, none))
    (name : String) : name ∈ locs.map (fun loc => loc.objectMeta.name) ↔ SelectsSt env caches name key := by
  rw [mem_names_iff_selected hRegular.locations fun loc => by
    rw [(filterUntil_none hLocs).2, mem_listLocations_iff, instanceSelects_eq_true_iff], selectsSt_iff hSt]

variable (hIds : analyzeClusterScopedObject (some st.objectMeta) = .ok (original, id))

include hIds

theorem additionalSingles_congr (hSpace : env.spaceIDFromKubeBind id ≠ "") {locs' : List (Location Sel)}
    (hSame : ∀ loc, loc ∈ locs' ↔ loc ∈ locs) (hOk : additionalSingles env caches locs (some st) name = .ok singles) :
    ∃ singles', additionalSingles env caches locs' (some st) name = .ok singles' ∧
      ∀ sp, sp ∈ singles' ↔ sp ∈ singles := by
  rw [additionalSingles] at hOk ⊢
  cases hEp : caches.edgePlacements.get name with
  | none =>
    rw [hEp] at hOk
    cases hOk
  | some ep =>
    rw [hEp] at hOk
    dsimp only at hOk ⊢
    split at hOk
    · cases hOk
    · rename_i found hFilter
      obtain ⟨found', hFilter', hFound⟩ := filterUntil_congr hSame hFilter
      refine ⟨makeSinglePlacementsForSt env found' (some st), by rw [filterLocsByEp, hFilter'], fun sp => ?_⟩
      rw [← Except.ok.inj hOk, mem_makeSinglePlacementsForSt_iff hIds hSpace,
        mem_makeSinglePlacementsForSt_iff hIds hSpace]
      exact exists_congr fun loc => and_congr_left fun _ => hFound loc

theorem mem_additionalSingles (hSpace : env.spaceIDFromKubeBind id ≠ "")
    (hOk : additionalSingles env caches locs (some st) name = .ok singles) (hSp : sp ∈ singles) :
    sp.cluster = env.spaceIDFromKubeBind id ∧ sp.syncTargetName = original := by
  rw [additionalSingles] at hOk
  split at hOk
  · cases hOk
  · split at hOk
    · cases hOk
    · rw [← Except.ok.inj hOk, mem_makeSinglePlacementsForSt_iff hIds hSpace] at hSp
      obtain ⟨_, -, _, _, -, rfl⟩ := hSp
      exact ⟨rfl, rfl⟩

omit hIds

theorem syncTarget_plan (hRegular : Regular env caches) (hSt : caches.syncTargets.get key = some st)
    (hIds : analyzeClusterScopedObject (some st.objectMeta) = .ok (original, id))
    (hSpace : env.spaceIDFromKubeBind id ≠ "")
    (hLocs : filterLocsBySt env (listLocations attempt₀ caches) st = (locs, none)) (selecting : String → Prop) :
    Plan env caches (.syncTarget key) selecting
      (fun ep => selecting ep → ∃ singles, additionalSingles env caches locs (some st) ep = .ok singles)
      (fun sp => sp.cluster ≠ env.spaceIDFromKubeBind id || sp.syncTargetName ≠ original)
      (fun ep sp => selecting ep ∧ ∃ singles, additionalSingles env caches locs (some st) ep = .ok singles ∧
        sp ∈ singles) where
  adds_selecting _ _ h := h.1
  run attempt s hSelecting := by
    obtain ⟨locs', hLocs', hSame⟩ : ∃ locs', filterLocsBySt env (listLocations attempt caches) st = (locs', none) ∧
        ∀ loc, loc ∈ locs' ↔ loc ∈ locs :=
      filterUntil_congr (fun loc => by rw [mem_listLocations_iff, mem_listLocations_iff]) hLocs
    have hNames := hRegular.mem_locs_iff hSt hLocs'
    have hUsing := fun ep => (has_usingSt_iff hNames ep).trans (hSelecting ep)
    refine ⟨_, _, _, by
      simp only [process, reconcileOnSyncTarget, hSt, map_some, hIds, hSpace, if_false, getD_some, hLocs',
        isNone_some, Bool.false_eq_true]
      rfl, names_nodup _ _ _, fun ep => ?_, fun ep => ?_, fun ep => ?_, ?_⟩
    · rw [mem_names_iff, hUsing, has_findEpsUsedSt_iff]
      rfl
    · rw [← hSelecting, Selecting, Selecting]
    · rw [← hSelecting, Touched, Selecting]
      rintro ⟨loc, hLoc, hEp⟩
      rw [SetsByKey.mem_put, if_pos rfl, packLocKeys, MapSet.has_addAll_empty_iff, hNames] at hLoc
      exact ⟨loc, hLoc, hEp⟩
    · generalize List.foldl _ _ _ = usingSt at hUsing
      have hBoth : ∀ ep, (∃ singles, additionalSingles env caches locs' (some st) ep = .ok singles) ↔
          ∃ singles, additionalSingles env caches locs (some st) ep = .ok singles := by
        intro ep
        constructor
        · rintro ⟨singles, hOk⟩
          exact (additionalSingles_congr hIds hSpace (fun loc => (hSame loc).symm) hOk).imp fun _ h => h.1
        · rintro ⟨singles, hOk⟩
          exact (additionalSingles_congr hIds hSpace hSame hOk).imp fun _ h => h.1
      refine updateForSt_round attempt _ _ (fun ep l hOk sp => ?_) (fun ep l hOk sp hSp => ?_) fun ep => ?_
      · split at hOk
        · rename_i hEp
          obtain ⟨singles, hSingles, hMem⟩ := additionalSingles_congr hIds hSpace (fun loc => (hSame loc).symm) hOk
          simp [(hUsing ep).mp hEp, hSingles, hMem]
        · rename_i hEp
          rw [hUsing] at hEp
          simp [hEp, ← Except.ok.inj hOk]
      · split at hOk
        · exact mem_additionalSingles hIds hSpace hOk hSp
        · rw [← Except.ok.inj hOk] at hSp
          cases hSp
      · rw [← hUsing, ← hBoth]
        cases usingSt.has ep <;> simp

theorem Visible.oneEach (hVisible : Visible env caches s) : OneEach env s :=
  fun _ _ _ _ hSps hSps' hEq => hVisible.one hSps hSps' hEq

/-- Whatever fails and however often, the retries end with the slices that an undisturbed run makes: unless the slice of
an EdgePlacement that the object has lost still has a destination with it. -/
theorem retries_agree_iff (env : Env Sel) (caches : Caches Sel) (hRegular : Regular env caches) (item : QueueItem)
    (hItem : ∀ key, item ≠ .edgePlacement key) (hExists : Exists caches item) (s : State)
    (hVisible : Visible env caches s) (attempt : Attempt) (clean : State)
    (hClean : process env attempt caches s item = (clean, .ok ())) :
    (∀ s', Retried env caches item s s' → SameDestinations s' clean) ↔
      ∀ ep sps sp, Touched s.store ep item → ¬ Selecting env caches s.store ep item → s.cached.get ep = some sps →
        sp ∈ sps.destinations → ¬ Has env caches sp item := by
  have hSlices : ∀ name sps, s.cached.get name = some sps →
      s.slices.get (consumer env sps.objectMeta) = some sps.destinations :=
    fun name sps hSps => (hVisible.copies name sps hSps).2.2
  cases item with
  | edgePlacement key => exact absurd rfl (hItem key)
  | location key =>
    obtain ⟨loc, hLoc⟩ := hExists
    obtain ⟨original, id, sts, hIds, hSpace, hSts⟩ := reconcileOnLocation_prologue hLoc hClean
    rw [(location_plan hRegular hLoc hIds hSpace hSts).retries_iff hVisible.oneEach hSlices (fun _ => Iff.rfl) hClean]
    refine forall_congr' fun ep => forall_congr' fun sps => forall_congr' fun sp => imp_congr_right fun _ =>
      imp_congr_right fun _ => imp_congr_right fun _ => imp_congr_right fun _ => ?_
    rw [has_location_iff hLoc hIds]
    simp [imp_iff_not_or]
  | syncTarget key =>
    obtain ⟨st, hSt⟩ := hExists
    obtain ⟨original, id, locs, hIds, hSpace, hLocs⟩ := reconcileOnSyncTarget_prologue hSt hClean
    rw [(syncTarget_plan hRegular hSt hIds hSpace hLocs _).retries_iff hVisible.oneEach hSlices
      (fun _ => Iff.rfl) hClean]
    refine forall_congr' fun ep => forall_congr' fun sps => forall_congr' fun sp => imp_congr_right fun _ =>
      imp_congr_right fun _ => imp_congr_right fun _ => imp_congr_right fun _ => ?_
    rw [has_syncTarget_iff hSt hIds]
    simp [imp_iff_not_or]

def edgeRelabelled : Caches (List (String × String)) :=
  ⟨edgeCaches.edgePlacements, GoMap.ofList
    [("kb1-edge1", ⟨copyMeta "kb1" "edge1" (GoMap.ofList [("env", "test")]), some [("site", "1")]⟩)],
    edgeCaches.syncTargets⟩

def edgeRefusal : Try := ⟨{ edgeAttempt with patches := fun _ => false }, fun _ => true⟩

def edgeUndisturbed : State := (process edgeEnv edgeAttempt edgeRelabelled edgePlaced (.location "kb1-edge1")).1

def edgeRefused : State := (edgeRefusal.run edgeEnv edgeRelabelled (.location "kb1-edge1") edgePlaced).1

def edgeRetried : State :=
  ((⟨edgeAttempt, fun _ => true⟩ : Try).run edgeEnv edgeRelabelled (.location "kb1-edge1") edgeRefused).1

/-- In a consistent state the Location is relabelled, and the patch of the slice fails once. -/
theorem edge_retry_leaves_destination : Agrees edgeEnv "kb1" edgeCaches edgePlaced ∧
    Visible edgeEnv edgeRelabelled edgePlaced ∧
    process edgeEnv edgeAttempt edgeRelabelled edgePlaced (.location "kb1-edge1") = (edgeUndisturbed, .ok ()) ∧
    Retried edgeEnv edgeRelabelled (.location "kb1-edge1") edgePlaced edgeRetried ∧
    edgeUndisturbed.slices.get ⟨"wds1", "ep1"⟩ = some [] ∧
    edgeRetried.slices.get ⟨"wds1", "ep1"⟩ = some [⟨"imw1", "edge1", "st1", "uid1"⟩] := by
  have hVisible := edgeState_visible edgePlaced.store [⟨"imw1", "edge1", "st1", "uid1"⟩]
  refine ⟨edgePlaced_agrees, ⟨hVisible.copies, hVisible.complete, hVisible.bound⟩, rfl, ?_, rfl, rfl⟩
  exact .failure edgeRefusal (.patchFailed "ep1") rfl (.success ⟨edgeAttempt, fun _ => true⟩ rfl)

theorem edgeCaches_regular : Regular edgeEnv edgeCaches where
  locations name loc hLoc := (edgeCaches_resolvable.locations name loc hLoc).1
  edgePlacements name ep hEp :=
    ⟨(edgeCaches_resolvable.edgePlacements name ep hEp).1, (edgeCaches_resolvable.edgePlacements name ep hEp).2.2⟩

theorem retries_agree_iff_edge :
    (process edgeEnv edgeAttempt edgeCaches edgePlaced (.location "kb1-edge1")).2 = .ok () ∧
      ∀ s', Retried edgeEnv edgeCaches (.location "kb1-edge1") edgePlaced s' →
        SameDestinations s' (process edgeEnv edgeAttempt edgeCaches edgePlaced (.location "kb1-edge1")).1 := by
  refine ⟨rfl, (retries_agree_iff edgeEnv edgeCaches edgeCaches_regular (.location "kb1-edge1")
    (fun key h => by cases h) ⟨edgeLocation, rfl⟩ edgePlaced (edgeState_visible _ _) edgeAttempt _ rfl).mpr ?_⟩
  intro ep sps sp hTouched hNot
  exact absurd ((edgePlaced_agrees.locs ep "kb1-edge1").mp hTouched) hNot

end KubeStellar.WhereResolver
