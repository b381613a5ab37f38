import KubeStellar.WhatResolver.Runs

/-! # The retry of an EdgePlacement

An EdgePlacement is processed while the resource of Namespaces is not known, and again when it is. The first
processing has already registered the EdgePlacement, so the second takes its downsync list for old and ends at once.
-/

namespace KubeStellar.WhatResolver

variable {Sel : Type} {arName : String}

structure NamespaceArrival where
  arName : String
  version : String
  definers : List Definer
  objects : ObjectStore

namespace NamespaceArrival

variable (arrival : NamespaceArrival)

def resource : APIResourceSpec := ⟨"namespaces", "", arrival.version, "Namespace", arrival.definers⟩

def gvr : GroupVersionResource := ⟨"", arrival.version, "namespaces"⟩

def stores (stores : Stores) : Stores := Function.update stores arrival.gvr arrival.objects

def base (base : Env Sel) (cluster : String) : Env Sel :=
  { base with apiLister := fun space arName =>
      if space = cluster ∧ arName = arrival.arName then .found arrival.resource
      else base.apiLister space arName }

def details (wsd : WorkspaceDetails Sel) : WorkspaceDetails Sel :=
  { wsd with
    resources := wsd.resources.put arrival.arName ⟨arrival.gvr, ∅, arrival.definers⟩
    gkToARName := wsd.gkToARName.put ⟨"", "Namespace"⟩ arrival.arName }

def learned (base : Env Sel) (cluster : String) (stores : Stores) (ord : RangeOrder) (wr : State Sel) : State Sel :=
  (processResource ((arrival.base base cluster).withStores cluster ord (arrival.stores stores)) wr cluster
    arrival.arName).2

/-- The second processing of an EdgePlacement, with its own orders of iteration. -/
def retry [DecidableEq Sel] (base : Env Sel) (cluster : String) (stores : Stores) (ord : RangeOrder)
    (event : PlacementEvent Sel) (wr : State Sel) : Except Kbuser.Panic (Bool × State Sel) :=
  processEdgePlacement (PlacementEvent.env { event with ord := ord } (arrival.base base cluster) cluster
    (arrival.stores stores)) (arrival.learned base cluster stores ord wr) event.ep.objectMeta.name

variable {arrival}

theorem learned_eq {base : Env Sel} {cluster : String} {stores : Stores} {ord : RangeOrder} {wr : State Sel}
    {wsd : WorkspaceDetails Sel} (hSpace : wr.workspaceDetails.get cluster = some wsd)
    (hUnknown : wsd.resources.get arrival.arName = none) :
    arrival.learned base cluster stores ord wr =
      { wr with workspaceDetails := wr.workspaceDetails.put cluster (arrival.details wsd) } := by
  have hLister : ((arrival.base base cluster).withStores cluster ord (arrival.stores stores)).apiLister cluster
      arrival.arName = .found arrival.resource := if_pos ⟨rfl, rfl⟩
  have hSupported : grsNotSupported.contains ⟨"", "namespaces"⟩ = false := by decide
  have hForEdge : (grsNotForEdge.contains ⟨"", "namespaces"⟩ || groupsNotForEdge.contains "") = false := by
    decide
  simp only [learned, processResource, hSpace, hLister, hUnknown, resource, hSupported, hForEdge]
  rfl

end NamespaceArrival

section Retry

variable [DecidableEq Sel] {base : Env Sel} {cluster : String} {stores : Stores} {wr wr₁ : State Sel}
  {event : PlacementEvent Sel}

def bitsAfter (lib : SelectorLibrary Sel) (stores : Stores) (wsd : WorkspaceDetails Sel) (epName : ObjectName)
    (spec : EdgePlacementSpec Sel) (arName whatResource : String) (obj : MRObject) : Option DistributionBits :=
  if Computable lib (listers RangeOrder.insertion stores) wsd spec whatResource obj then
    matchBits lib (listers RangeOrder.insertion stores) wsd spec whatResource obj
  else recorded wsd.resources epName arName obj.nn

open RangeOrder

theorem processEdgePlacement_incomplete (hIn : InSpace base cluster wr event)
    (hWF : WellFormed (detailsOf wr cluster).resources)
    (hBefore : HasRecorded wr ⟨cluster, event.epName⟩ (detailsOf wr cluster).resources)
    (hFirst : processEdgePlacement (event.env base cluster stores) wr event.ep.objectMeta.name = .ok (false, wr₁)) :
    ∃ resources', wr₁.workspaceDetails.get cluster =
        some ⟨(detailsOf wr cluster).placements.put event.epName event.ep, resources',
          (detailsOf wr cluster).gkToARName⟩ ∧
      SameShape (detailsOf wr cluster).resources resources' ∧
      HasRecorded wr₁ ⟨cluster, event.epName⟩ resources' ∧
      (∀ arName rr obj, (detailsOf wr cluster).resources.get arName = some rr →
        (stores rr.gvr).objects.get obj.nn = some obj → recorded resources' event.epName arName obj.nn =
          bitsAfter base.lib stores (detailsOf wr cluster) event.epName event.ep.spec arName rr.gvr.resource obj) ∧
      ∃ obj whatResource, ¬ Computable base.lib (listers insertion stores) (detailsOf wr cluster)
        event.ep.spec whatResource obj := by
  obtain ⟨wr₀, hReceived, hRun⟩ := @processEdgePlacement_found Sel _ (event.env base cluster stores) wr
    cluster event.epName event.ep event.ep.objectMeta.name event.kbSpaceID (if_pos rfl) event.analyzed
    hIn.in_space hIn.named hIn.clients
  rw [hRun, Except.ok.injEq] at hFirst
  have hNew : ∀ prevEp, (detailsOf wr cluster).placements.get event.epName = some prevEp →
      prevEp.spec.downsync ≠ event.ep.spec.downsync := by
    intro prevEp hPrev hSame
    obtain ⟨wr₂, hResolve, _⟩ := @resolveEdgePlacement_same Sel _ (event.env base cluster stores) wr₀ cluster
      (detailsOf wr cluster) event.epName event.ep prevEp hPrev hSame
    rw [hFirst] at hResolve
    cases hResolve
  have hInf : (event.env base cluster stores).informers cluster = listers event.ord stores :=
    informers_withStores base cluster event.ord stores
  obtain ⟨success, wr₂, resources', hResolve, hSpace, hShape, hEach, hComputable, _, hLast⟩ :=
    @resolveEdgePlacement_new Sel _ (event.env base cluster stores) wr₀ cluster (detailsOf wr cluster)
      event.epName event.ep hNew hWF
      (fun arName rr _ => by rw [hInf]; exact nodup_list_listers event.ord stores rr.gvr)
  rw [hFirst] at hResolve
  cases hResolve
  have hMatch : ∀ whatResource obj, whatMatches (event.env base cluster stores).lib
      ((event.env base cluster stores).informers cluster)
      (withPlacement (detailsOf wr cluster) event.epName event.ep) event.ep.spec whatResource obj =
      whatMatches base.lib (listers insertion stores) (detailsOf wr cluster) event.ep.spec
        whatResource obj := by
    intro whatResource obj
    rw [hInf]
    exact whatMatches_listers (fun _ => rfl) rfl event.ord insertion event.ep.spec whatResource obj
  refine ⟨resources', hSpace, hShape, ?_, ?_, ?_⟩
  · rcases hLast with ⟨hSame, hSameLast⟩ | ⟨what, hWhat, hResolves⟩
    · refine hBefore.of_unchanged ?_ hShape hSame
      rw [hSameLast, lastPut, hReceived, lastPut]
    · exact HasRecorded.of_resolves (hShape.wellFormed hWF) hWhat hResolves
  · intro arName rr obj hRR hObj
    rw [recorded_of_rematched hInf hEach hRR, hObj]
    have hComp := congrArg (fun answer => answer.2 = true) (hMatch rr.gvr.resource obj)
    have hBits := congrArg (fun answer => if answer = (true, true) then some (⟨event.ep.spec.wantSingletonReportedState,
      isCreateOnly obj⟩ : DistributionBits) else none) (hMatch rr.gvr.resource obj)
    exact if_congr (Iff.of_eq hComp) hBits rfl
  · by_contra hAll
    push Not at hAll
    refine Bool.false_ne_true (hComputable.mpr fun arName rr _ obj _ => ?_)
    rw [Computable, hMatch]
    exact hAll obj rr.gvr.resource

theorem NamespaceArrival.retry_eq {arrival : NamespaceArrival} {ord : RangeOrder} (hIn : InSpace base cluster wr event)
    {placements : GoMap ObjectName (EdgePlacement Sel)} {resources : GoMap String ResourceResolver}
    {gkToARName : GoMap GroupKind String}
    (hSpace : wr₁.workspaceDetails.get cluster = some ⟨placements.put event.epName event.ep, resources, gkToARName⟩)
    (hUnknown : resources.get arrival.arName = none) :
    ∃ wr₂, arrival.retry base cluster stores ord event wr₁ = .ok (true, wr₂) ∧
      wr₂.workspaceDetails.get cluster = some (withPlacement
        (arrival.details ⟨placements.put event.epName event.ep, resources, gkToARName⟩) event.epName event.ep) ∧
      ∀ ref, lastPut wr₂ ref = lastPut wr₁ ref := by
  let env := PlacementEvent.env { event with ord := ord } (arrival.base base cluster) cluster (arrival.stores stores)
  have hLearned := @learned_eq Sel arrival base cluster stores ord wr₁ _ hSpace hUnknown
  have hSpace₁ : (arrival.learned base cluster stores ord wr₁).workspaceDetails.get cluster =
      some (arrival.details ⟨placements.put event.epName event.ep, resources, gkToARName⟩) := by
    rw [hLearned]
    simp
  obtain ⟨wr₀, hReceived, hRun⟩ := @processEdgePlacement_found Sel _ env
    (arrival.learned base cluster stores ord wr₁) cluster event.epName event.ep event.ep.objectMeta.name
    event.kbSpaceID (if_pos rfl) event.analyzed hIn.in_space hIn.named (by rw [hSpace₁]; intro hNone; cases hNone)
  rw [detailsOf_eq hSpace₁] at hRun
  obtain ⟨wr₂, hResolve, hSpace₂, hLast⟩ := @resolveEdgePlacement_same Sel _ env wr₀ cluster
    (arrival.details ⟨placements.put event.epName event.ep, resources, gkToARName⟩) event.epName event.ep event.ep
    (by simp [details]) rfl
  refine ⟨wr₂, hRun.trans (congrArg Except.ok hResolve), hSpace₂, fun ref => ?_⟩
  rw [hLast, lastPut, hReceived, hLearned, lastPut]

end Retry

variable (lib : SelectorLibrary Sel)

/-- The receiver has every object that matches, those of the new resource apart, which have events of
their own. -/
def MatchesHeld (cluster : String) (arrival : NamespaceArrival) (stores : Stores)
    (wr : State Sel) (epName : ObjectName) (spec : EdgePlacementSpec Sel) : Prop :=
  ∀ arName rr nn, arName ≠ arrival.arName → (detailsOf wr cluster).resources.get arName = some rr →
    selectedBy lib (arrival.stores stores) (detailsOf wr cluster) spec arName nn ≠ none →
    Held wr ⟨cluster, epName⟩ (rr.gvr.groupResource, nn.1, nn.2)

/-- Every object whose match cannot be computed, but will turn out positive, is recorded already. -/
def UncomputedRecorded (cluster : String) (arrival : NamespaceArrival)
    (stores : Stores) (wr : State Sel) (epName : ObjectName) (spec : EdgePlacementSpec Sel) : Prop :=
  ∀ arName rr obj, (detailsOf wr cluster).resources.get arName = some rr →
    (stores rr.gvr).objects.get obj.nn = some obj →
    ¬ Computable lib (listers RangeOrder.insertion stores) (detailsOf wr cluster) spec rr.gvr.resource obj →
    whatMatches lib (listers RangeOrder.insertion (arrival.stores stores)) (arrival.details (detailsOf wr cluster))
      spec rr.gvr.resource obj = (true, true) →
    recorded (detailsOf wr cluster).resources epName arName obj.nn ≠ none

variable {arrival : NamespaceArrival} {wsd : WorkspaceDetails Sel}

theorem NamespaceArrival.get_details (hNe : arName ≠ arrival.arName) :
    (arrival.details wsd).resources.get arName = wsd.resources.get arName := by
  simp [details, hNe]

variable (hWF : WellFormed (arrival.details wsd).resources)

include hWF

theorem NamespaceArrival.wellFormed
    (hUnknown : wsd.resources.get arrival.arName = none) : WellFormed wsd.resources := by
  have hNe : ∀ {arName rr}, wsd.resources.get arName = some rr → arName ≠ arrival.arName := by
    intro arName rr hRR hEq
    rw [hEq, hUnknown] at hRR
    cases hRR
  constructor
  · intro arName arName' rr rr' hRR hRR'
    exact hWF.groupResource_injective arName arName' rr rr' (by rw [get_details (hNe hRR), hRR])
      (by rw [get_details (hNe hRR'), hRR'])
  · intro arName rr hRR
    exact hWF.definer_kind arName rr (by rw [get_details (hNe hRR), hRR])

theorem NamespaceArrival.stores_eq (stores : Stores) {rr : ResourceResolver} (hNe : arName ≠ arrival.arName)
    (hRR : wsd.resources.get arName = some rr) : arrival.stores stores rr.gvr = stores rr.gvr := by
  refine Function.update_of_ne (fun hGVR => hNe ?_) _ _
  exact hWF.groupResource_injective arName arrival.arName rr ⟨arrival.gvr, ∅, arrival.definers⟩
    (by rw [get_details hNe, hRR]) (by simp [details]) (by rw [hGVR])

omit hWF

theorem NamespaceArrival.sameShape {resources' : GoMap String ResourceResolver}
    (hShape : SameShape wsd.resources resources') (wsd' : WorkspaceDetails Sel) (hWsd' : wsd'.resources = resources') :
    SameShape (arrival.details wsd).resources (arrival.details wsd').resources := by
  intro arName
  by_cases hName : arName = arrival.arName
  · simp [details, hName]
  · rw [get_details hName, get_details hName, hWsd']
    exact hShape arName

theorem bitsAfter_ne_none_iff {lib : SelectorLibrary Sel} {stores : Stores} {wsd : WorkspaceDetails Sel}
    {epName : ObjectName} {spec : EdgePlacementSpec Sel} {whatResource : String} {obj : MRObject}
    {informers' : Informers} {wsd' : WorkspaceDetails Sel}
    (hUnknown : ∀ objNS, objNS ≠ "" →
      namespaceInfo (listers insertion stores) wsd objNS = .resourceUnknown)
    (hMatch : whatMatches lib informers' wsd' spec whatResource obj = (true, true)) :
    bitsAfter lib stores wsd epName spec arName whatResource obj ≠ none ↔
      (¬ Computable lib (listers insertion stores) wsd spec whatResource obj →
        recorded wsd.resources epName arName obj.nn ≠ none) := by
  unfold bitsAfter
  split
  · rename_i hComputable
    have hSame : whatMatches lib (listers insertion stores) wsd spec whatResource obj =
        whatMatches lib informers' wsd' spec whatResource obj := by
      by_cases hNS : obj.objectMeta.ns = ""
      · apply whatMatches_congr
        rw [(namespaceInfo_eq_clusterScoped_iff _ _ _).mpr hNS, (namespaceInfo_eq_clusterScoped_iff _ _ _).mpr hNS]
      · exact whatMatches_of_computable (hUnknown _ hNS) hComputable informers' wsd'
    have hBits := (matchBits_ne_none_iff lib (listers insertion stores) wsd spec whatResource obj).mpr
      (hSame.trans hMatch)
    exact ⟨fun _ hNot => absurd hComputable hNot, fun _ => hBits⟩
  · rename_i hNot
    exact ⟨fun h _ => h, fun h => h hNot⟩

/-- The item is tried again with success, and then the receiver has every matching object if and only
if it had those whose match could not be computed before the first processing. -/
theorem retry_complete_iff [DecidableEq Sel] (base : Env Sel) (cluster : String) (stores : Stores)
    (ord : RangeOrder) (wr wr₁ : State Sel) (event : PlacementEvent Sel) (arrival : NamespaceArrival)
    (hIn : InSpace base cluster wr event)
    (hWF : WellFormed (arrival.details (detailsOf wr cluster)).resources)
    (hUnknown : (detailsOf wr cluster).resources.get arrival.arName = none)
    (hBefore : HasRecorded wr ⟨cluster, event.epName⟩ (detailsOf wr cluster).resources)
    (hFirst : processEdgePlacement (event.env base cluster stores) wr event.ep.objectMeta.name = .ok (false, wr₁)) :
    ∃ wr₂, arrival.retry base cluster stores ord event wr₁ = .ok (true, wr₂) ∧
      (MatchesHeld base.lib cluster arrival stores wr₂ event.epName event.ep.spec ↔
        UncomputedRecorded base.lib cluster arrival stores wr event.epName event.ep.spec) := by
  obtain ⟨resources', hSpace₁, hShape, hHas, hRecorded, obj₀, whatResource₀, hNot⟩ :=
    processEdgePlacement_incomplete hIn (NamespaceArrival.wellFormed hWF hUnknown) hBefore hFirst
  obtain ⟨wr₂, hRetry, hSpace₂, hLast⟩ := @NamespaceArrival.retry_eq Sel _ base cluster stores wr wr₁ event
    arrival ord hIn _ _ _ hSpace₁ (hShape.get_none hUnknown)
  have hNamespaces : ∀ objNS, objNS ≠ "" → namespaceInfo (listers RangeOrder.insertion stores)
      (detailsOf wr cluster) objNS = .resourceUnknown :=
    fun objNS => namespaceInfo_resourceUnknown (namespaceInfo_of_not_computable hNot)
  have hHeld := hHas.of_unchanged (hLast ⟨cluster, event.epName⟩) (fun _ => rfl) rfl
  have hFinal : SameShape (arrival.details (detailsOf wr cluster)).resources (detailsOf wr₂ cluster).resources := by
    rw [detailsOf_eq hSpace₂]
    exact NamespaceArrival.sameShape hShape _ rfl
  have hSelected := selectedBy_of_sameShape base.lib (arrival.stores stores) hFinal
    (by rw [detailsOf_eq hSpace₂]; rfl) event.ep.spec
  have hGet : ∀ arName, arName ≠ arrival.arName →
      (detailsOf wr₂ cluster).resources.get arName = resources'.get arName := by
    intro arName hNe
    rw [detailsOf_eq hSpace₂]
    exact NamespaceArrival.get_details hNe
  refine ⟨wr₂, hRetry, ?_⟩
  unfold MatchesHeld UncomputedRecorded
  rw [← hSelected]
  constructor
  · intro h arName rr obj hRR hObj hNotComputable hMatch
    have hNe : arName ≠ arrival.arName := by
      intro hEq
      rw [hEq, hUnknown] at hRR
      cases hRR
    obtain ⟨rr', hRR', hGVR, _⟩ := hShape.get hRR
    have hNS : obj.nn.1 ≠ "" := fun hScope => hNotComputable (computable_of_clusterScoped hScope)
    have hPart := h arName rr' obj.nn hNe (by rw [hGet arName hNe, hRR'])
      ((selectedBy_ne_none_iff _ _ _ _ _ _).mpr ⟨rr, obj, by rw [NamespaceArrival.get_details hNe, hRR],
        by rw [NamespaceArrival.stores_eq hWF stores hNe hRR, hObj], hMatch⟩)
    have hBits := (hHeld.held_iff hRR' hNS).mp hPart
    rw [hRecorded arName rr obj hRR hObj] at hBits
    exact (bitsAfter_ne_none_iff hNamespaces hMatch).mp hBits hNotComputable
  · intro h arName rr' nn hNe hRR' hSel
    rw [hGet arName hNe] at hRR'
    obtain ⟨rr, obj, hRR, hObj, hMatch⟩ := (selectedBy_ne_none_iff _ _ _ _ _ _).mp hSel
    rw [NamespaceArrival.get_details hNe] at hRR
    rw [NamespaceArrival.stores_eq hWF stores hNe hRR] at hObj
    have hNN := (stores rr.gvr).keyed nn obj hObj
    subst hNN
    refine hHeld.held_of_recorded arName rr' obj.nn hRR' ?_
    rw [hRecorded arName rr obj hRR hObj]
    exact (bitsAfter_ne_none_iff hNamespaces hMatch).mpr fun hNotComputable =>
      h arName rr obj hRR hObj hNotComputable hMatch

variable (labels : List (String × String))

/-- The Namespace `apps` with the given labels. -/
def appsNamespace : MRObject :=
  ⟨"", "v1", "Namespace", ⟨"apps", "", ∅, GoMap.ofList labels⟩, ""⟩

/-- The EdgePlacement `web` of the ConfigMaps in production Namespaces. -/
def productionPlacement : PlacementEvent (List (String × String)) where
  epName := "web"
  ep := ⟨webPlacement.objectMeta, ⟨[], [⟨some "", ["configmaps"], [], [[("env", "prod")]], [], []⟩], false, []⟩⟩
  kbSpaceID := "kb1"
  ord := RangeOrder.insertion
  analyzed := webPlacement_analyzed

theorem webSpace_wellFormed_put :
    WellFormed (webSpace.resources.put ":v1:namespaces" ⟨⟨"", "v1", "namespaces"⟩, ∅, []⟩) := by
  refine webSpace.wellFormed.put (fun arName rr hRR hSame => ?_) nofun
  have hConfigMaps := (GoMap.get_ofList_singleton ":v1:configmaps" arName _).symm.trans hRR
  split at hConfigMaps
  · cases hConfigMaps
    exact absurd hSame (by decide)
  · cases hConfigMaps

def appsArrival : NamespaceArrival where
  arName := ":v1:namespaces"
  version := "v1"
  definers := []
  objects := ObjectStore.write ∅ (appsNamespace labels)

/-- The state that the first processing leaves, with the ConfigMap not matched yet. -/
def productionPending : State (List (String × String)) :=
  placementStep kubeBindBase "wds1" configMapStores configMapState productionPlacement

theorem productionPending_eq :
    processEdgePlacement (productionPlacement.env kubeBindBase "wds1" configMapStores) configMapState "kb1-web" =
      .ok (false, productionPending) := rfl

theorem retry_complete_iff_production :
    ∃ wr₂, (appsArrival [("env", "prod")]).retry kubeBindBase "wds1" configMapStores RangeOrder.insertion
        productionPlacement productionPending = .ok (true, wr₂) ∧
      (MatchesHeld kubeBindBase.lib "wds1" (appsArrival [("env", "prod")]) configMapStores wr₂ "web"
          productionPlacement.ep.spec ↔
        UncomputedRecorded kubeBindBase.lib "wds1" (appsArrival [("env", "prod")]) configMapStores configMapState "web"
          productionPlacement.ep.spec) := by
  have hAgreement := InAgreement.of_noPlacements kubeBindBase.lib "wds1" configMapStores configMapSpace
    fun epName => GoMap.get_empty epName
  refine retry_complete_iff kubeBindBase "wds1" configMapStores RangeOrder.insertion configMapState
    productionPending productionPlacement (appsArrival [("env", "prod")])
    ⟨rfl, by decide, by intro hSpace; cases hSpace⟩ ?_ rfl
    (HasRecorded.of_putCurrent hAgreement.wellFormed (hAgreement.current "web")) productionPending_eq
  exact webSpace_wellFormed_put

/-- The ConfigMap turns out to be in a production Namespace and is not put. -/
theorem retry_not_complete :
    processEdgePlacement (productionPlacement.env kubeBindBase "wds1" configMapStores) configMapState "kb1-web" =
      .ok (false, productionPending) ∧
    ∃ wr₂, (appsArrival [("env", "prod")]).retry kubeBindBase "wds1" configMapStores RangeOrder.insertion
        productionPlacement productionPending = .ok (true, wr₂) ∧
      ¬ MatchesHeld kubeBindBase.lib "wds1" (appsArrival [("env", "prod")]) configMapStores wr₂ "web"
        productionPlacement.ep.spec := by
  refine ⟨rfl, _, rfl, fun h => ?_⟩
  obtain ⟨what, hLast, _⟩ := h ":v1:configmaps" ⟨⟨"", "v1", "configmaps"⟩, ∅, []⟩ ("apps", "settings")
    (by decide) rfl (by decide)
  cases hLast

end KubeStellar.WhatResolver
