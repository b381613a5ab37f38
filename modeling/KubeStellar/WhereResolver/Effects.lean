import KubeStellar.WhereResolver.Reconcile

/-! # What is selected, and what a reconcile changes

With valid selectors, resolvable ids and one space for Locations and SyncTargets, the filters of the reconcilers are
filters by two relations, and the lists of destinations are images under one function. Then the updates of the store,
and the loop that replaces destinations in one slice after another.
-/

namespace KubeStellar.WhereResolver

open List

section

variable {Sel : Type} {obj obj' : ObjectMeta} {original id : String} {env : Env Sel} {ep : EdgePlacement Sel}
  {loc : Location Sel}

theorem filterUntil_eq {α : Type} {test : α → Except Fault Bool} {selects : α → Bool} {l : List α}
    (hTest : ∀ a ∈ l, test a = .ok (selects a)) : filterUntil test l = (l.filter selects, none) := by
  induction l with
  | nil => rfl
  | cons a rest ih =>
    rw [filterUntil, hTest a mem_cons_self, ih fun b hMem => hTest b (mem_cons_of_mem _ hMem)]
    cases hSelects : selects a <;> simp [hSelects]

def selectsLocation (env : Env Sel) (ep : EdgePlacement Sel) (loc : Location Sel) : Bool :=
  ep.spec.locationSelectors.any fun s => ((env.lib.asSelector s).map fun selector =>
    selector loc.objectMeta.labels).getD false

def selectsSyncTarget (env : Env Sel) (loc : Location Sel) (st : SyncTarget) : Bool :=
  ((labelSelectorAsSelector env.lib loc.instanceSelector).map fun selector =>
    selector st.objectMeta.labels).getD false

def Resolves (env : Env Sel) (obj : ObjectMeta) : Prop :=
  ∃ original id, analyzeClusterScopedObject (some obj) = .ok (original, id) ∧ env.spaceIDFromKubeBind id ≠ ""

/-- The Locations and SyncTargets are in one space, ids are resolvable and selectors valid. -/
structure Resolvable (env : Env Sel) (kbSpaceID : String) (caches : Caches Sel) : Prop where
  space : env.spaceIDFromKubeBind kbSpaceID ≠ ""
  locations : ∀ name loc, caches.locations.get name = some loc → loc.objectMeta.name = name ∧
    (∃ original, analyzeClusterScopedObject (some loc.objectMeta) = .ok (original, kbSpaceID)) ∧
      labelSelectorAsSelector env.lib loc.instanceSelector ≠ none
  syncTargets : ∀ name st, caches.syncTargets.get name = some st → st.objectMeta.name = name ∧
    ∃ original, analyzeClusterScopedObject (some st.objectMeta) = .ok (original, kbSpaceID)
  edgePlacements : ∀ name ep, caches.edgePlacements.get name = some ep → ep.objectMeta.name = name ∧
    Resolves env ep.objectMeta ∧ ∀ s ∈ ep.spec.locationSelectors, env.lib.asSelector s ≠ none

def originalName (obj : ObjectMeta) : String :=
  match analyzeClusterScopedObject (some obj) with
  | .ok (original, _) => original
  | .error _ => ""

def consumer (env : Env Sel) (obj : ObjectMeta) : ExternalName :=
  match analyzeClusterScopedObject (some obj) with
  | .ok (original, id) => ⟨env.spaceIDFromKubeBind id, original⟩
  | .error _ => ⟨"", ""⟩

def destination (env : Env Sel) (kbSpaceID : String) (loc : Location Sel) (st : SyncTarget) : SinglePlacement :=
  ⟨env.spaceIDFromKubeBind kbSpaceID, originalName loc.objectMeta, originalName st.objectMeta, st.uid⟩

variable (hIds : analyzeClusterScopedObject (some obj) = .ok (original, id))

include hIds

theorem name_of_analyze : obj.name = Kbuser.composeClusterScopedName id original := by
  refine Kbuser.name_of_analyzeClusterScopedObject ?_
  unfold analyzeClusterScopedObject at hIds
  split at hIds
  · cases hIds
  · cases hIds
  · rename_i hAnalyzed
    rw [hAnalyzed, Except.ok.inj hIds]

theorem originalName_eq : originalName obj = original := by
  rw [originalName, hIds]

omit hIds

theorem consumer_eq (env : Env Sel) (hIds : analyzeClusterScopedObject (some obj) = .ok (original, id)) :
    consumer env obj = ⟨env.spaceIDFromKubeBind id, original⟩ := by
  rw [consumer, hIds]

theorem originalName_eq_iff {original' : String} (hIds : analyzeClusterScopedObject (some obj) = .ok (original, id))
    (hIds' : analyzeClusterScopedObject (some obj') = .ok (original', id)) :
    originalName obj = originalName obj' ↔ obj.name = obj'.name := by
  rw [originalName_eq hIds, originalName_eq hIds', name_of_analyze hIds, name_of_analyze hIds']
  constructor
  · rintro rfl
    rfl
  · intro hNames
    have hLists := congrArg String.toList hNames
    simp only [Kbuser.composeClusterScopedName, String.toList_append] at hLists
    exact String.toList_inj.mp (append_cancel_left hLists)

theorem name_eq_of_consumer_eq (hObj : Resolves env obj) (hObj' : Resolves env obj')
    (hCons : consumer env obj = consumer env obj') : obj.name = obj'.name := by
  obtain ⟨original, id, hIds, hSpace⟩ := hObj
  obtain ⟨original', id', hIds', -⟩ := hObj'
  rw [consumer_eq env hIds, consumer_eq env hIds'] at hCons
  obtain ⟨hSpaces, rfl⟩ := ExternalName.mk.inj hCons
  obtain rfl := env.oneToOne hSpaces hSpace
  rw [name_of_analyze hIds, name_of_analyze hIds']

theorem selectsAny_eq (loc : Location Sel) (hValid : ∀ s ∈ ep.spec.locationSelectors, env.lib.asSelector s ≠ none) :
    selectsAny env.lib loc.objectMeta.labels ep.spec.locationSelectors = .ok (selectsLocation env ep loc) := by
  unfold selectsLocation
  generalize ep.spec.locationSelectors = selectors at hValid ⊢
  induction selectors with
  | nil => rfl
  | cons s rest ih =>
    obtain ⟨selector, hSelector⟩ := Option.ne_none_iff_exists'.mp (hValid s mem_cons_self)
    rw [selectsAny, hSelector, ih fun s' hMem => hValid s' (mem_cons_of_mem _ hMem), any_cons, hSelector]
    cases hLabels : selector loc.objectMeta.labels <;> simp [hLabels]

theorem instanceSelects_eq (st : SyncTarget) (hValid : labelSelectorAsSelector env.lib loc.instanceSelector ≠ none) :
    instanceSelects env.lib loc st = .ok (selectsSyncTarget env loc st) := by
  obtain ⟨selector, hSelector⟩ := Option.ne_none_iff_exists'.mp hValid
  simp [instanceSelects, selectsSyncTarget, hSelector]

variable {name : String} {locs : List (Location Sel)} {kbSpaceID : String} {caches : Caches Sel}
  (hRes : Resolvable env kbSpaceID caches) (attempt : Attempt)

theorem mem_listLocations_iff (loc : Location Sel) :
    loc ∈ listLocations attempt caches ↔ ∃ name, caches.locations.get name = some loc := by
  simp [listLocations, RangeOrder.mem_visit_iff]

theorem mem_listSyncTargets_iff (st : SyncTarget) :
    st ∈ listSyncTargets attempt caches ↔ ∃ name, caches.syncTargets.get name = some st := by
  simp [listSyncTargets, RangeOrder.mem_visit_iff]

theorem mem_listEdgePlacements_iff (ep : EdgePlacement Sel) :
    ep ∈ listEdgePlacements attempt caches ↔ ∃ name, caches.edgePlacements.get name = some ep := by
  simp [listEdgePlacements, RangeOrder.mem_visit_iff]

include hRes

theorem filterLocsByEp_eq (hEp : caches.edgePlacements.get name = some ep) (locs : List (Location Sel)) :
    filterLocsByEp env locs ep = (locs.filter (selectsLocation env ep), none) :=
  filterUntil_eq fun loc _ => selectsAny_eq loc (hRes.edgePlacements name ep hEp).2.2

theorem filterEpsByLoc_eq (loc : Location Sel) : filterEpsByLoc env (listEdgePlacements attempt caches) loc =
      ((listEdgePlacements attempt caches).filter (selectsLocation env · loc), none) := by
  refine filterUntil_eq fun ep hMem => ?_
  obtain ⟨name, hEp⟩ := (mem_listEdgePlacements_iff attempt ep).mp hMem
  exact selectsAny_eq loc (hRes.edgePlacements name ep hEp).2.2

theorem filterLocsBySt_eq (st : SyncTarget) : filterLocsBySt env (listLocations attempt caches) st =
      ((listLocations attempt caches).filter (selectsSyncTarget env · st), none) := by
  refine filterUntil_eq fun loc hMem => ?_
  obtain ⟨name, hLoc⟩ := (mem_listLocations_iff attempt loc).mp hMem
  exact instanceSelects_eq st (hRes.locations name loc hLoc).2.2

theorem filterStsByLoc_eq (hLoc : caches.locations.get name = some loc) :
    filterStsByLoc env (listSyncTargets attempt caches) loc =
      ((listSyncTargets attempt caches).filter (selectsSyncTarget env loc), none) := by
  obtain ⟨-, ⟨original, hIds⟩, hValid⟩ := hRes.locations name loc hLoc
  rw [filterStsByLoc, hIds]
  refine filterUntil_eq fun st hMem => ?_
  obtain ⟨name', hSt⟩ := (mem_listSyncTargets_iff attempt st).mp hMem
  obtain ⟨-, original', hIds'⟩ := hRes.syncTargets name' st hSt
  simp [hIds', instanceSelects_eq st hValid]

theorem makeSinglePlacementsForLoc_eq (hLoc : caches.locations.get name = some loc) {sts : List SyncTarget}
    (hSts : ∀ st ∈ sts, st ∈ listSyncTargets attempt caches) :
    makeSinglePlacementsForLoc env (some loc) sts = sts.map (destination env kbSpaceID loc) := by
  obtain ⟨-, ⟨original, hIds⟩, -⟩ := hRes.locations name loc hLoc
  simp only [makeSinglePlacementsForLoc, hIds, hRes.space, if_false]
  rw [← filterMap_eq_map]
  refine filterMap_congr fun st hMem => ?_
  obtain ⟨name', hSt⟩ := (mem_listSyncTargets_iff attempt st).mp (hSts st hMem)
  obtain ⟨-, original', hIds'⟩ := hRes.syncTargets name' st hSt
  simp [hIds', destination, originalName_eq hIds, originalName_eq hIds']

theorem makeSinglePlacementsForSt_eq {st : SyncTarget} (hSt : caches.syncTargets.get name = some st)
    (hLocs : ∀ loc ∈ locs, loc ∈ listLocations attempt caches) :
    makeSinglePlacementsForSt env locs (some st) = locs.map (destination env kbSpaceID · st) := by
  obtain ⟨-, original, hIds⟩ := hRes.syncTargets name st hSt
  simp only [makeSinglePlacementsForSt, hIds, hRes.space, if_false]
  rw [← filterMap_eq_map]
  refine filterMap_congr fun loc hMem => ?_
  obtain ⟨name', hLoc⟩ := (mem_listLocations_iff attempt loc).mp (hLocs loc hMem)
  obtain ⟨-, ⟨original', hIds'⟩, -⟩ := hRes.locations name' loc hLoc
  simp [hIds', destination, originalName_eq hIds, originalName_eq hIds']

theorem singlesForLocs_eq (hLocs : ∀ loc ∈ locs, loc ∈ listLocations attempt caches) :
    singlesForLocs env attempt caches locs = .ok (locs.flatMap fun loc =>
      ((listSyncTargets attempt caches).filter (selectsSyncTarget env loc)).map (destination env kbSpaceID loc)) := by
  induction locs with
  | nil => rfl
  | cons loc rest ih =>
    obtain ⟨name, hLoc⟩ := (mem_listLocations_iff attempt loc).mp (hLocs loc mem_cons_self)
    rw [singlesForLocs, filterStsByLoc_eq hRes attempt hLoc, ih fun loc' hMem => hLocs loc' (mem_cons_of_mem _ hMem)]
    dsimp only
    rw [makeSinglePlacementsForLoc_eq hRes attempt hLoc fun st hMem => mem_of_mem_filter hMem, flatMap_cons]

end

open Option GoMap

variable (sets : SetsByKey) (ord : RangeOrder)

open SetsByKey

theorem SetsByKey.mem_put (key key' elt : String) (elts : MapSet String) :
    mem (sets.put key elts) key' elt = if key' = key then elts.has elt else sets.mem key' elt := by
  rw [mem, get_put]
  split <;> rfl

theorem SetsByKey.mem_foldl_add (elt : String) (keys : List String) (key elt' : String) :
    mem (keys.foldl (fun sets key => sets.put key (((sets.get key).getD ∅).add elt)) sets) key elt' = true ↔
      sets.mem key elt' = true ∨ elt' = elt ∧ key ∈ keys := by
  induction keys generalizing sets with
  | nil => simp
  | cons head rest ih =>
    rw [foldl_cons, ih, mem_put, mem_cons]
    by_cases hKey : key = head
    · subst hKey
      have hAdd := MapSet.has_addAll_iff ((sets.get key).getD ∅) [elt] elt'
      rw [if_pos rfl, show ((sets.get key).getD ∅).add elt = ((sets.get key).getD ∅).addAll [elt] from rfl, hAdd,
        mem_singleton]
      constructor
      · rintro ((h | h) | ⟨h, -⟩)
        · exact .inr ⟨h, .inl rfl⟩
        · exact .inl h
        · exact .inr ⟨h, .inl rfl⟩
      · rintro (h | ⟨h, -⟩)
        · exact .inl (.inr h)
        · exact .inl (.inl h)
    · simp [hKey]

theorem SetsByKey.mem_select_iff (sets : SetsByKey) (elt : String) (keys : MapSet String) (key elt' : String) :
    (sets.select ord elt keys).mem key elt' = true ↔
      if elt' = elt then keys.has key = true else sets.mem key elt' = true := by
  rw [select, mem_foldl_add, RangeOrder.mem_visit_keys_iff]
  have hCleared : mem (sets.mapVal fun key elts => if keys.has key then elts else elts.delete elt) key elt' =
      true ↔ sets.mem key elt' = true ∧ (elt' = elt → keys.has key = true) := by
    rw [mem, mem, get_mapVal]
    cases sets.get key with
    | none => simp [GoMap.has]
    | some elts =>
      split
      · rename_i hKey
        simp [hKey]
      · rename_i hKey
        by_cases hElt : elt' = elt
        · simp [hElt, hKey, show (GoMap.delete elts elt).has elt = false by simp [GoMap.has]]
        · simp [hElt, show (GoMap.delete elts elt).has elt' = elts.has elt' by simp [GoMap.has, hElt]]
  rw [hCleared]
  split
  · rename_i hElt
    subst hElt
    constructor
    · rintro (⟨-, h⟩ | ⟨-, h⟩)
      · exact h rfl
      · exact h
    · exact fun h => .inr ⟨rfl, h⟩
  · rename_i hElt
    simp [hElt]

theorem has_foldl_unionTwo_iff (keys : List String) (acc : MapSet String) (elt : String) :
    (keys.foldl (fun eps key => unionTwo eps ((sets.get key).getD ∅)) acc).has elt = true ↔
      acc.has elt = true ∨ ∃ key ∈ keys, sets.mem key elt = true := by
  induction keys generalizing acc with
  | nil => simp
  | cons head rest ih =>
    rw [foldl_cons, ih, unionTwo, MapSet.has_addAll_iff, mem_keys_iff, ← isSome_iff_exists, exists_mem_cons_iff]
    constructor
    · rintro ((h | h) | h)
      · exact .inr (.inl h)
      · exact .inl h
      · exact .inr (.inr h)
    · rintro (h | h | h)
      · exact .inl (.inr h)
      · exact .inl (.inl h)
      · exact .inr h

theorem has_findEpsUsedSt_iff (store : Store) (st ep : String) : (store.findEpsUsedSt ord st).has ep = true ↔
      ∃ loc, store.locsBySelectedSt.mem st loc = true ∧ store.epsBySelectedLoc.mem loc ep = true := by
  rw [Store.findEpsUsedSt, has_foldl_unionTwo_iff]
  simp only [RangeOrder.mem_visit_keys_iff, GoMap.has, get_empty, isSome_none, Bool.false_eq_true, false_or]
  rfl

variable {Sel : Type} (env : Env Sel)

def Updates (next : String → List SinglePlacement → List SinglePlacement) (body : State → String → Outcome) : Prop :=
  ∀ s s' name, body s name = (s', .ok ()) → ∃ sps, s.cached.get name = some sps ∧ s'.store = s.store ∧
    (∀ other, other ≠ name → s'.cached.get other = s.cached.get other) ∧
    s'.slices = s.slices.put (consumer env sps.objectMeta) (next name sps.destinations)

variable {env} (attempt : Attempt)

theorem patchSpsDestinations_ok {attempt : Attempt} {s s' : State} {destinations : List SinglePlacement}
    {spaceID spsName : String} (hOk : patchSpsDestinations attempt s destinations spaceID spsName = (s', .ok ())) :
    s' = { s with slices := s.slices.put ⟨spaceID, spsName⟩ destinations } := by
  unfold patchSpsDestinations at hOk
  split at hOk
  · cases hOk
  · split at hOk
    · cases hOk
    · exact (Prod.mk.inj hOk).1.symm

theorem getConsumerSpaceForSPS_ok {sps : SinglePlacementSlice} {name spaceID : String}
    (hOk : getConsumerSpaceForSPS env sps = .ok (name, spaceID)) : consumer env sps.objectMeta = ⟨spaceID, name⟩ := by
  unfold getConsumerSpaceForSPS at hOk
  split at hOk
  · cases hOk
  · rename_i hIds
    dsimp only at hOk
    split at hOk
    · cases hOk
    · cases hOk
      exact consumer_eq env hIds

theorem updateForLoc_updates (locSpaceID locOriginalName : String) (singles : String → List SinglePlacement) :
    Updates env (fun name destinations => (destinations.filter fun sp =>
        sp.cluster ≠ locSpaceID || sp.locationName ≠ locOriginalName) ++ singles name)
      (fun s name => updateForLoc env attempt locSpaceID locOriginalName (singles name) s name) := by
  intro s s' name hOk
  simp only [updateForLoc] at hOk
  split at hOk
  · cases hOk
  · rename_i sps hGet
    split at hOk
    · cases hOk
    · rename_i hCons
      obtain rfl := patchSpsDestinations_ok hOk
      refine ⟨sps, hGet, rfl, fun other hNe => ?_, ?_⟩
      · exact (get_put _ _ _ _).trans (if_neg hNe)
      · rw [getConsumerSpaceForSPS_ok hCons]
        rfl

theorem updateForSt_updates (stSpaceID stOriginalName : String)
    (additional : String → Except Fault (List SinglePlacement)) (singles : String → List SinglePlacement)
    (hSingles : ∀ name l, additional name = .ok l → l = singles name) :
    Updates env (fun name destinations => (destinations.filter fun sp =>
        sp.cluster ≠ stSpaceID || sp.syncTargetName ≠ stOriginalName) ++ singles name)
      (updateForSt env attempt stSpaceID stOriginalName additional) := by
  intro s s' name hOk
  unfold updateForSt at hOk
  split at hOk
  · cases hOk
  · rename_i sps hGet
    split at hOk
    · cases hOk
    · rename_i l hAdditional
      split at hOk
      · cases hOk
      · rename_i hCons
        obtain rfl := patchSpsDestinations_ok hOk
        refine ⟨sps, hGet, rfl, fun other hNe => ?_, ?_⟩
        · exact (get_put _ _ _ _).trans (if_neg hNe)
        · rw [getConsumerSpaceForSPS_ok hCons, hSingles name l hAdditional]
          rfl

theorem forEachEp_ok {next : String → List SinglePlacement → List SinglePlacement} {body : State → String → Outcome}
    (hUpdates : Updates env next body) {names : List String} (hNodup : names.Nodup) {s s' : State}
    (hOne : ∀ name ∈ names, ∀ name' ∈ names, ∀ sps sps', s.cached.get name = some sps →
      s.cached.get name' = some sps' → consumer env sps.objectMeta = consumer env sps'.objectMeta → name = name')
    (hOk : forEachEp body s names = (s', .ok ())) :
    s'.store = s.store ∧ (∀ name ∈ names, ∃ sps, s.cached.get name = some sps ∧
        s'.slices.get (consumer env sps.objectMeta) = some (next name sps.destinations)) ∧
      ∀ ref, (∀ name ∈ names, ∀ sps, s.cached.get name = some sps → consumer env sps.objectMeta ≠ ref) →
        s'.slices.get ref = s.slices.get ref := by
  induction names generalizing s with
  | nil =>
    obtain rfl := (Prod.mk.inj hOk).1
    exact ⟨rfl, fun _ hMem => absurd hMem not_mem_nil, fun _ _ => rfl⟩
  | cons ep rest ih =>
    rw [nodup_cons] at hNodup
    obtain ⟨hFresh, hNodup⟩ := hNodup
    rw [forEachEp] at hOk
    split at hOk
    · cases hOk
    · rename_i s₁ hBody
      obtain ⟨sps, hGet, hStore, hOthers, hSlices⟩ := hUpdates s s₁ ep hBody
      have hSame : ∀ name ∈ rest, s₁.cached.get name = s.cached.get name :=
        fun name hMem => hOthers name fun hEq => hFresh (hEq ▸ hMem)
      obtain ⟨hStore', hWritten, hKept⟩ := ih hNodup (fun name hMem name' hMem' sps sps' hSps hSps' =>
        hOne name (mem_cons_of_mem _ hMem) name' (mem_cons_of_mem _ hMem') sps sps'
          (hSame name hMem ▸ hSps) (hSame name' hMem' ▸ hSps')) hOk
      refine ⟨hStore'.trans hStore, fun name hMem => ?_, fun ref hRef => ?_⟩
      · rcases mem_cons.mp hMem with rfl | hMem
        · refine ⟨sps, hGet, ?_⟩
          -- the rest of the loop writes to other slices
          rw [hKept, hSlices, get_put, if_pos rfl]
          intro name' hMem' sps' hSps' hEq
          have hName := hOne name' (mem_cons_of_mem _ hMem') name mem_cons_self sps' sps
            (hSame name' hMem' ▸ hSps') hGet hEq
          exact hFresh (hName ▸ hMem')
        · obtain ⟨sps', hSps', hSlice⟩ := hWritten name hMem
          exact ⟨sps', hSame name hMem ▸ hSps', hSlice⟩
      · rw [hKept ref fun name hMem sps' hSps' => hRef name (mem_cons_of_mem _ hMem) sps' (hSame name hMem ▸ hSps'),
          hSlices, get_put, if_neg fun hEq => hRef ep mem_cons_self sps hGet hEq.symm]

end KubeStellar.WhereResolver
