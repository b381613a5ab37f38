import KubeStellar.Library.Run
import KubeStellar.WhatResolver.ObjectEvents
import KubeStellar.WhatResolver.PlacementEvents

/-! # Runs of events

From a space without objects, every run of object events that keep the matches ends with bits and receiver as from
scratch, and so does, from a state in agreement, every run of changes of EdgePlacements that are seen. A change of the
upsync list alone is not seen. An item whose EdgePlacement is gone ends in a nil dereference, before the code that
forgets it.
-/

namespace KubeStellar.WhatResolver

open Option GoMap Function

section

variable {Sel : Type}

theorem FreshSpace.entryOf_eq_none (space : FreshSpace Sel) (arName : String) (nn : NamespacedName) :
    entryOf space.resources arName nn = none := by
  unfold entryOf
  cases hRR : space.resources.get arName with
  | none => rfl
  | some rr => rw [bind_some, space.no_objects arName rr hRR, get_empty]

theorem FreshSpace.inv (lib : SelectorLibrary Sel) (cluster : String) (space : FreshSpace Sel) :
    ObjectInv lib cluster space (space.world cluster) space.details := by
  have hRec : ∀ epName arName nn, recorded space.resources epName arName nn = none := by
    intro epName arName nn
    rw [recorded, space.entryOf_eq_none, bind_none]
  have hSelected : ∀ spec arName nn,
      selectedBy lib (space.world cluster).stores space.details spec arName nn = none := by
    intro spec arName nn
    unfold selectedBy
    cases space.details.resources.get arName <;> rfl
  refine ⟨by simp [FreshSpace.world, GoMap.ofList, GoMap.putAll], rfl, fun _ => rfl, ?_,
    fun arName rr nn _ _ => space.entryOf_eq_none arName nn, fun epName ep _ => hRec epName⟩
  intro epName arName nn
  refine (hRec epName arName nn).trans ?_
  cases space.details.placements.get epName with
  | none => rfl
  | some ep => exact (hSelected ep.spec arName nn).symm

/-- After every run whose events keep the matches, bits and receiver are as from scratch. -/
theorem objectEvents_resolved (base : Env Sel) (cluster : String) (space : FreshSpace Sel) (events : List ObjectEvent)
    (hKeep : Run.Guarded (objectStep base cluster) (KeepsMatches base.lib cluster) (space.world cluster) events) :
    ∃ wsd, wsd.placements = space.placements ∧ SameShape space.resources wsd.resources ∧
      ObjectsResolved base.lib cluster (Run.run (objectStep base cluster) (space.world cluster) events) wsd := by
  have hInv : ∃ wsd, ObjectInv base.lib cluster space
      (Run.run (objectStep base cluster) (space.world cluster) events) wsd := by
    refine @Run.invariant _ _ _ _ (fun w => ∃ wsd, ObjectInv base.lib cluster space w wsd) ?_ _ _ ?_ hKeep
    · rintro w event ⟨wsd, h⟩ hEvent
      exact h.step event hEvent
    · exact ⟨space.details, space.inv base.lib cluster⟩
  obtain ⟨wsd, h⟩ := hInv
  exact ⟨wsd, h.placements_eq, h.shape, h.resolved⟩

/-- The EdgePlacement that selects the ConfigMaps labelled `app: web`. -/
def webPlacementSpec : EdgePlacementSpec (List (String × String)) :=
  ⟨[], [⟨some "", ["configmaps"], [], [], [], [[("app", "web")]]⟩], false, []⟩

/-- The ConfigMaps of a space with that EdgePlacement. -/
def webSpace : FreshSpace (List (String × String)) where
  placements := GoMap.ofList [("web", ⟨⟨"kb1-web", "", ∅, ∅⟩, webPlacementSpec⟩)]
  resources := GoMap.ofList [(":v1:configmaps", ⟨⟨"", "v1", "configmaps"⟩, ∅, []⟩)]
  gkToARName := GoMap.ofList [(⟨"", "ConfigMap"⟩, ":v1:configmaps")]
  wellFormed := by
    constructor
    · intro arName arName' rr rr' hRR hRR' _
      rw [get_ofList_singleton] at hRR hRR'
      grind
    · intro arName rr hRR definer hMem
      rw [get_ofList_singleton] at hRR
      grind
  no_objects := by
    intro arName rr hRR
    rw [get_ofList_singleton] at hRR
    grind
  noNamespaceSelectors := by
    intro epName ep hEp objTest hMem
    rw [get_ofList_singleton] at hEp
    grind [webPlacementSpec]

def labelledSettings : MRObject :=
  ⟨"", "v1", "ConfigMap", ⟨"settings", "apps", ∅, GoMap.ofList [("app", "web")]⟩, ""⟩

/-- Client libraries with nothing in the caches of other spaces. -/
def quietBase : Env (List (String × String)) where
  lib := SelectorLibrary.matchLabels
  ord := RangeOrder.insertion
  edgePlacementLister := fun _ => .notFound
  spaceIDFromKubeBind := fun _ => ""
  informers := fun _ _ => ⟨fun _ => .notFound, []⟩
  apiLister := fun _ _ => .notFound
  clients := fun _ => ⟨true, true, true, true⟩

def createSettings : ObjectEvent := ⟨⟨"", "ConfigMap"⟩, .write labelledSettings, RangeOrder.insertion⟩

def deleteSettings : ObjectEvent := ⟨⟨"", "ConfigMap"⟩, .delete ("apps", "settings"), RangeOrder.insertion⟩

def annotatedSettings : MRObject :=
  ⟨"", "v1", "ConfigMap", ⟨"settings", "apps", GoMap.ofList [(DownsyncOverwriteKey, "false")],
    GoMap.ofList [("app", "web")]⟩, ""⟩

def annotateSettings : ObjectEvent := ⟨⟨"", "ConfigMap"⟩, .write annotatedSettings, RangeOrder.insertion⟩

theorem objectEvents_resolved_settings :
    ∃ wsd, wsd.placements = webSpace.placements ∧ SameShape webSpace.resources wsd.resources ∧
      ObjectsResolved quietBase.lib "wds1" (Run.run (objectStep quietBase "wds1") (webSpace.world "wds1")
        [createSettings, annotateSettings]) wsd := by
  apply objectEvents_resolved quietBase "wds1" webSpace [createSettings, annotateSettings]
  refine ⟨?_, ?_, trivial⟩
  · intro wsd arName rr _ _ _ epName ep old _ hOld _
    cases hOld
  · intro wsd arName rr hSpace hGK hRR epName ep old hEp _ _
    refine ⟨annotatedSettings, rfl, ?_⟩
    cases hSpace
    cases hGK
    cases hRR
    have hWeb := (get_ofList_singleton "web" epName _).symm.trans hEp
    split at hWeb
    · cases hWeb
      rfl
    · cases hWeb

/-- The object is deleted and the receiver keeps it. -/
theorem objectEvents_not_resolved :
    ¬ ∃ wsd, wsd.placements = webSpace.placements ∧ SameShape webSpace.resources wsd.resources ∧
      ObjectsResolved quietBase.lib "wds1" (Run.run (objectStep quietBase "wds1") (webSpace.world "wds1")
        [createSettings, deleteSettings]) wsd := by
  rintro ⟨wsd, hPlacements, _, h⟩
  have hEp : wsd.placements.get "web" = some ⟨⟨"kb1-web", "", ∅, ∅⟩, webPlacementSpec⟩ := by
    rw [hPlacements]
    rfl
  have hEmpty : ∀ gvr nn, ((Run.run (objectStep quietBase "wds1") (webSpace.world "wds1")
      [createSettings, deleteSettings]).stores gvr).objects.get nn = none := by
    intro gvr nn
    have hStores : (Run.run (objectStep quietBase "wds1") (webSpace.world "wds1")
        [createSettings, deleteSettings]).stores = Function.update (Function.update (fun _ => ∅)
          ⟨"", "v1", "configmaps"⟩ (ObjectStore.write ∅ labelledSettings)) ⟨"", "v1", "configmaps"⟩
          ((ObjectStore.write ∅ labelledSettings).remove ("apps", "settings")) := by rfl
    rw [hStores, update_idem]
    by_cases hGVR : gvr = ⟨"", "v1", "configmaps"⟩
    · rw [hGVR, update_self]
      simp only [ObjectStore.remove, ObjectStore.write, get_delete, get_put]
      split
      · rfl
      · rename_i hNe
        exact if_neg hNe
    · rw [update_of_ne hGVR]
      rfl
  have hLast : (lastPut (Run.run (objectStep quietBase "wds1") (webSpace.world "wds1")
      [createSettings, deleteSettings]).wr ⟨"wds1", "web"⟩).map
      (fun what => what.downsync.get (⟨"", "configmaps"⟩, "apps", "settings")) =
      some (some ⟨"v1", false, false⟩) := by decide
  obtain ⟨what, hWhat, hPart⟩ := map_eq_some_iff.mp hLast
  have hPuts := h.puts "web" _ hEp
  rw [hWhat] at hPuts
  have hNone := hPuts.downsync_eq_none (fun arName nn => by
    unfold selectedBy
    cases wsd.resources.get arName with
    | none => rfl
    | some rr => rw [bind_some, hEmpty, bind_none]) (⟨"", "configmaps"⟩, "apps", "settings")
  rw [hNone] at hPart
  cases hPart

end

variable {Sel : Type} [DecidableEq Sel]

/-- The EdgePlacement has left the state, its latest resolution is empty, and the latest resolutions
of the others are as before. -/
structure Forgotten (before after : State Sel) (ref : ExternalName) : Prop where
  placements : ∀ wsd, after.workspaceDetails.get ref.cluster = some wsd → wsd.placements.get ref.name = none
  bits : ∀ wsd arName nn, after.workspaceDetails.get ref.cluster = some wsd →
    recorded wsd.resources ref.name arName nn = none
  resolution : ∃ what, lastPut after ref = some what ∧ (∀ partID, what.downsync.get partID = none) ∧
    what.upsync = []
  others : ∀ other, other ≠ ref → lastPut after other = lastPut before other

theorem processEdgePlacement_of_notFound (env : Env Sel) (wr : State Sel) (epName : ObjectName)
    (hDeleted : env.edgePlacementLister epName = .notFound) :
    processEdgePlacement env wr epName = .error .nilDereference := by
  unfold processEdgePlacement
  rw [hDeleted]
  rfl

/-- In no state does the processing of a deleted EdgePlacement forget it. -/
theorem processEdgePlacement_never_forgets (env : Env Sel) (wr : State Sel) (epName : ObjectName)
    (ref : ExternalName) (hDeleted : env.edgePlacementLister epName = .notFound) :
    ¬ ∃ success after, processEdgePlacement env wr epName = .ok (success, after) ∧ Forgotten wr after ref := by
  rintro ⟨success, after, hRun, _⟩
  rw [processEdgePlacement_of_notFound env wr epName hDeleted] at hRun
  cases hRun

/-- The provider's copy of the EdgePlacement `web` of the space `wds1`. -/
def webPlacement : EdgePlacement (List (String × String)) where
  objectMeta := ⟨"kb1-web", "", GoMap.ofList [(Kbuser.clusterNamespaceAnnotation, "kb1")], ∅⟩
  spec := ⟨[], [⟨some "", ["configmaps"], [], [], [], []⟩], false, []⟩

theorem webPlacement_analyzed :
    Kbuser.analyzeClusterScopedObject (some webPlacement.objectMeta) = .ok (.ok ("web", "kb1")) :=
  Kbuser.analyzeClusterScopedObject_compose webPlacement.objectMeta "kb1" "web" (by decide) (by decide) rfl (by decide)

/-- The space `wds1` has nothing in its caches; the EdgePlacement is in the given state. -/
def quietEnv (web : Lookup (EdgePlacement (List (String × String)))) : Env (List (String × String)) where
  lib := SelectorLibrary.matchLabels
  ord := RangeOrder.insertion
  edgePlacementLister := fun name => if name = "kb1-web" then web else .notFound
  spaceIDFromKubeBind := fun kbSpaceID => if kbSpaceID = "kb1" then "wds1" else ""
  informers := fun _ _ => ⟨fun _ => .notFound, []⟩
  apiLister := fun _ _ => .notFound
  clients := fun _ => ⟨true, true, true, true⟩

def webResolved : State (List (String × String)) :=
  ⟨GoMap.ofList [("wds1", ⟨GoMap.ofList [("web", webPlacement)], ∅, ∅⟩)], []⟩

theorem processEdgePlacement_never_forgets_web :
    ¬ ∃ success after, processEdgePlacement (quietEnv .notFound) webResolved "kb1-web" =
      .ok (success, after) ∧ Forgotten webResolved after ⟨"wds1", "web"⟩ :=
  processEdgePlacement_never_forgets (quietEnv .notFound) webResolved "kb1-web" ⟨"wds1", "web"⟩ rfl

/-- The EdgePlacement is created and processed, then deleted and processed. -/
theorem processEdgePlacement_created_then_deleted :
    processEdgePlacement (quietEnv (.found webPlacement)) ⟨∅, []⟩ "kb1-web" = .ok (true, webResolved) ∧
    ¬ ∃ success after, processEdgePlacement (quietEnv .notFound) webResolved "kb1-web" =
      .ok (success, after) ∧ Forgotten webResolved after ⟨"wds1", "web"⟩ := by
  refine ⟨rfl, ?_⟩
  rintro ⟨success, after, hRun, _⟩
  rw [processEdgePlacement_of_notFound _ _ _ rfl] at hRun
  cases hRun

variable {Sel : Type}

theorem InAgreement.of_noPlacements (lib : SelectorLibrary Sel) (cluster : String) (stores : Stores)
    (space : FreshSpace Sel) (hNone : ∀ epName, space.placements.get epName = none) :
    InAgreement lib cluster stores ⟨GoMap.ofList [(cluster, space.details)], []⟩ := by
  have hDetails : detailsOf ⟨GoMap.ofList [(cluster, space.details)], []⟩ cluster = space.details :=
    detailsOf_eq (space.inv lib cluster).space_eq
  have hRec : ∀ epName arName nn, recorded space.resources epName arName nn = none := by
    intro epName arName nn
    rw [recorded, space.entryOf_eq_none, Option.bind_none]
  constructor <;> rw [hDetails]
  · exact space.wellFormed
  · intro epName arName nn
    refine (hRec epName arName nn).trans ?_
    rw [show space.details.placements.get epName = none from hNone epName, Option.bind_none]
  · exact fun epName => hRec epName
  · intro epName _
    rw [upsyncOf, show space.details.placements.get epName = none from hNone epName]

/-- After every run of successful processings of changes that are seen, the receiver has the resolution
of every EdgePlacement from scratch. -/
theorem placementEvents_resolved [DecidableEq Sel] (base : Env Sel) (cluster : String) (stores : Stores)
    (wr : State Sel) (events : List (PlacementEvent Sel)) (hStart : InAgreement base.lib cluster stores wr)
    (hEvents : Run.Guarded (placementStep base cluster stores) (fun wr event =>
      ProcessedInSpace base cluster stores wr event ∧ SpecChangeSeen base.lib cluster stores wr event) wr events) :
    (detailsOf (Run.run (placementStep base cluster stores) wr events) cluster).placements =
      events.foldl (fun placements event => placements.put event.epName event.ep) (detailsOf wr cluster).placements ∧
    PlacementsResolved base.lib cluster stores (Run.run (placementStep base cluster stores) wr events) := by
  induction events generalizing wr with
  | nil => exact ⟨rfl, hStart.resolved⟩
  | cons event events ih =>
    obtain ⟨hNext, hPlacements⟩ := hStart.step hEvents.1.1 hEvents.1.2
    have hRest := ih (placementStep base cluster stores wr event) hNext hEvents.2
    rw [hPlacements] at hRest
    exact hRest

theorem noNamespaceSelectors_empty (epName : ObjectName) (ep : EdgePlacement (List (String × String)))
    (hEp : (∅ : GoMap ObjectName (EdgePlacement (List (String × String)))).get epName = some ep) :
    NoNamespaceSelectors ep.spec := by
  rw [GoMap.get_empty] at hEp
  cases hEp

def configMapSpace : FreshSpace (List (String × String)) where
  placements := ∅
  resources := webSpace.resources
  gkToARName := webSpace.gkToARName
  wellFormed := webSpace.wellFormed
  no_objects := webSpace.no_objects
  noNamespaceSelectors := noNamespaceSelectors_empty

def configMapState : State (List (String × String)) :=
  ⟨GoMap.ofList [("wds1", configMapSpace.details)], []⟩

def configMapStores : Stores :=
  Function.update (fun _ => ∅) ⟨"", "v1", "configmaps"⟩ (ObjectStore.write ∅ labelledSettings)

/-- The client libraries of a provider that knows the space `wds1`. -/
def kubeBindBase : Env (List (String × String)) :=
  { quietBase with spaceIDFromKubeBind := fun kbSpaceID => if kbSpaceID = "kb1" then "wds1" else "" }

/-- The EdgePlacement `web` with the given downsync tests and an upsync set. -/
def upsyncingPlacement (downsync : List (DownsyncObjectTest (List (String × String)))) :
    PlacementEvent (List (String × String)) where
  epName := "web"
  ep := ⟨webPlacement.objectMeta, ⟨[], downsync, false, [⟨"", ["pods"], ["*"], ["*"]⟩]⟩⟩
  kbSpaceID := "kb1"
  ord := RangeOrder.insertion
  analyzed := webPlacement_analyzed

theorem placementEvents_resolved_configMap :
    (detailsOf (Run.run (placementStep kubeBindBase "wds1" configMapStores) configMapState
      [upsyncingPlacement webPlacementSpec.downsync]) "wds1").placements =
      [upsyncingPlacement webPlacementSpec.downsync].foldl
        (fun placements event => placements.put event.epName event.ep)
        (detailsOf configMapState "wds1").placements ∧
    PlacementsResolved kubeBindBase.lib "wds1" configMapStores
      (Run.run (placementStep kubeBindBase "wds1" configMapStores) configMapState
        [upsyncingPlacement webPlacementSpec.downsync]) := by
  apply placementEvents_resolved
  · exact InAgreement.of_noPlacements _ _ _ configMapSpace fun epName => GoMap.get_empty epName
  · refine ⟨⟨⟨⟨rfl, by decide, ?_⟩, _, rfl⟩, ?_⟩, trivial⟩
    · intro hSpace
      cases hSpace
    · exact .inr ⟨":v1:configmaps", ("apps", "settings"), by decide⟩

/-- An EdgePlacement with an upsync set is created in a space where it selects nothing. -/
theorem placementEvents_not_resolved : InAgreement kubeBindBase.lib "wds1" configMapStores configMapState ∧
    Run.Guarded (placementStep kubeBindBase "wds1" configMapStores)
      (ProcessedInSpace kubeBindBase "wds1" configMapStores) configMapState [upsyncingPlacement []] ∧
    ¬ PlacementsResolved kubeBindBase.lib "wds1" configMapStores
      (Run.run (placementStep kubeBindBase "wds1" configMapStores) configMapState [upsyncingPlacement []]) := by
  refine ⟨InAgreement.of_noPlacements _ _ _ configMapSpace fun epName => GoMap.get_empty epName, ?_, ?_⟩
  · refine ⟨⟨⟨rfl, by decide, ?_⟩, _, rfl⟩, trivial⟩
    intro hSpace
    cases hSpace
  · intro h
    have hNeverPut := h "web" (upsyncingPlacement []).ep rfl
    cases hNeverPut.2

end KubeStellar.WhatResolver
