import KubeStellar.WhatResolver.Retry

/-! # The relabelling of a Namespace

When a Namespace is relabelled, the Namespace itself is matched again and the objects in it are not. The receiver is
right about them afterwards if and only if none of them starts or stops to match.
-/

namespace KubeStellar.WhatResolver

variable {Sel : Type} (lib : SelectorLibrary Sel) (cluster : String)

/-- The receiver has an object in the Namespace if and only if the spec selects it. -/
def NamespaceResolved (w : World Sel) (epName : ObjectName)
    (spec : EdgePlacementSpec Sel) (objNS : String) : Prop :=
  ∀ arName rr nn, (detailsOf w.wr cluster).resources.get arName = some rr → nn.1 = objNS →
    (Held w.wr ⟨cluster, epName⟩ (rr.gvr.groupResource, nn.1, nn.2) ↔
      selectedBy lib w.stores (detailsOf w.wr cluster) spec arName nn ≠ none)

def NamespaceRecorded (w : World Sel) (epName : ObjectName)
    (spec : EdgePlacementSpec Sel) (objNS : String) : Prop :=
  ∀ arName nn, nn.1 = objNS → (recorded (detailsOf w.wr cluster).resources epName arName nn ≠ none ↔
    selectedBy lib w.stores (detailsOf w.wr cluster) spec arName nn ≠ none)

def relabelling (objNSR : MRObject) (ord : RangeOrder) : ObjectEvent :=
  ⟨⟨"", "Namespace"⟩, .write objNSR, ord⟩

/-- No object in the Namespace starts or stops to match. -/
def KeepsNamespaceMatches (w : World Sel)
    (spec : EdgePlacementSpec Sel) (objNSR : MRObject) (ord : RangeOrder) : Prop :=
  ∀ arName nn, nn.1 = objNSR.objectMeta.name →
    (selectedBy lib w.stores (detailsOf w.wr cluster) spec arName nn ≠ none ↔
      selectedBy lib (changedStores w cluster (relabelling objNSR ord)) (detailsOf w.wr cluster) spec
        arName nn ≠ none)

variable {lib : SelectorLibrary Sel} {cluster : String} {w w' : World Sel} {wsd wsd' : WorkspaceDetails Sel}
  {epName : ObjectName} {spec : EdgePlacementSpec Sel} {objNS : String}

theorem held_iff_of_touch (hSpace : w.wr.workspaceDetails.get cluster = some wsd)
    (hWF : WellFormed wsd'.resources) (hNS : objNS ≠ "") (hShape : SameShape wsd.resources wsd'.resources)
    (hKept : ∀ arName nn, nn.1 = objNS →
      recorded wsd'.resources epName arName nn = recorded wsd.resources epName arName nn)
    (hLast : lastPut w'.wr ⟨cluster, epName⟩ = lastPut w.wr ⟨cluster, epName⟩ ∨ PutCurrent w'.wr cluster wsd' epName)
    (hBefore : NamespaceResolved lib cluster w epName spec objNS)
    (hRec : NamespaceRecorded lib cluster w epName spec objNS) {arName : String}
    {rr : ResourceResolver} {nn : NamespacedName} (hRR : wsd'.resources.get arName = some rr)
    (hNN : nn.1 = objNS) :
    Held w'.wr ⟨cluster, epName⟩ (rr.gvr.groupResource, nn.1, nn.2) ↔
      selectedBy lib w.stores wsd spec arName nn ≠ none := by
  unfold NamespaceResolved at hBefore
  unfold NamespaceRecorded at hRec
  rw [detailsOf_eq hSpace] at hBefore hRec
  rcases hLast with hSame | hCurrent
  · obtain ⟨rr₀, hRR₀, hGVR, _⟩ := hShape.symm.get hRR
    rw [held_congr hSame, ← hGVR]
    exact hBefore arName rr₀ nn hRR₀ hNN
  · rw [(HasRecorded.of_putCurrent hWF hCurrent).held_iff hRR (hNN ▸ hNS), hKept arName nn hNN]
    exact hRec arName nn hNN

/-- A relabelled Namespace is processed successfully, and afterwards the receiver is right about the
objects in it if and only if none of them starts or stops to match. -/
theorem relabelling_resolved_iff (base : Env Sel) (cluster : String) (w : World Sel)
    (wsd : WorkspaceDetails Sel) (nsARName : String) (nsRR : ResourceResolver) (objNSR : MRObject)
    (ord : RangeOrder) (epName : ObjectName) (spec : EdgePlacementSpec Sel)
    (hSpace : w.wr.workspaceDetails.get cluster = some wsd) (hWF : WellFormed wsd.resources)
    (hGK : wsd.gkToARName.get ⟨"", "Namespace"⟩ = some nsARName)
    (hRR : wsd.resources.get nsARName = some nsRR) (hScope : objNSR.objectMeta.ns = "")
    (hName : objNSR.objectMeta.name ≠ "")
    (hBefore : NamespaceResolved base.lib cluster w epName spec objNSR.objectMeta.name)
    (hRecorded : NamespaceRecorded base.lib cluster w epName spec objNSR.objectMeta.name) :
    (processCenterObject (base.withStores cluster ord (changedStores w cluster (relabelling objNSR ord))) w.wr
      cluster ⟨"", "Namespace"⟩ objNSR.nn).1 = true ∧
    (NamespaceResolved base.lib cluster (objectStep base cluster w (relabelling objNSR ord)) epName spec
        objNSR.objectMeta.name ↔
      KeepsNamespaceMatches base.lib cluster w spec objNSR ord) := by
  let event := relabelling objNSR ord
  let env := base.withStores cluster ord (changedStores w cluster event)
  have hStores : changedStores w cluster event =
      Function.update w.stores nsRR.gvr ((w.stores nsRR.gvr).write objNSR) := by
    simp [changedStores, watchedResource, event, relabelling, hSpace, hGK, hRR, ObjectChange.apply]
  have hObj : (env.informers cluster nsRR.gvr).get objNSR.nn = .found objNSR := by
    rw [informers_withStores, get_listers, hStores, Function.update_self]
    simp [ObjectStore.write]
  obtain ⟨wr', wsd', newDetails, hRun, hSpace', hTouch, _, _, hPuts⟩ :=
    @processCenterObject_found Sel env w.wr cluster ⟨"", "Namespace"⟩ objNSR.nn wsd nsARName nsRR objNSR
      hSpace hGK hRR hWF hObj fun _ _ _ => computable_of_clusterScoped hScope
  have hStep : objectStep base cluster w event = ⟨changedStores w cluster event, wr'⟩ := by
    change (⟨changedStores w cluster event,
      (processCenterObject env w.wr cluster ⟨"", "Namespace"⟩ objNSR.nn).2⟩ : World Sel) = _
    rw [hRun]
  have hKept : ∀ arName nn, nn.1 = objNSR.objectMeta.name →
      recorded wsd'.resources epName arName nn = recorded wsd.resources epName arName nn := by
    intro arName nn hNN
    refine hTouch.recorded_eq (fun hEq => hName ?_) epName
    rw [← hNN, hEq.2]
    exact hScope
  have hHeld := @held_iff_of_touch Sel base.lib cluster w ⟨changedStores w cluster event, wr'⟩ wsd wsd' epName
    spec objNSR.objectMeta.name hSpace (hTouch.shape.wellFormed hWF) hName hTouch.shape hKept
    ((hPuts epName).imp_left And.right) hBefore hRecorded
  have hSelected := selectedBy_of_sameShape base.lib (changedStores w cluster event) hTouch.shape
    hTouch.gkToARName_eq spec
  refine ⟨congrArg Prod.fst hRun, ?_⟩
  rw [hStep]
  unfold NamespaceResolved KeepsNamespaceMatches
  rw [detailsOf_eq hSpace, detailsOf_eq hSpace', ← hSelected]
  constructor
  · intro h arName nn hNN
    cases hGet : wsd'.resources.get arName with
    | some rr => exact (hHeld hGet hNN).symm.trans (h arName rr nn hGet hNN)
    | none =>
      have hNone := hTouch.shape.symm.get_none hGet
      simp [selectedBy, hNone]
  · intro h arName rr nn hGet hNN
    exact (hHeld hGet hNN).trans (h arName nn hNN)

section Agreement

variable {ep : EdgePlacement Sel} (h : InAgreement lib cluster w.stores w.wr)

include h

variable (hEp : (detailsOf w.wr cluster).placements.get epName = some ep)

include hEp

theorem InAgreement.namespaceRecorded (objNS : String) : NamespaceRecorded lib cluster w epName ep.spec objNS := by
  intro arName nn _
  rw [h.bits, hEp, Option.bind_some]

theorem InAgreement.namespaceResolved {objNS : String} (hNS : objNS ≠ "") :
    NamespaceResolved lib cluster w epName ep.spec objNS := by
  intro arName rr nn hRR hNN
  rw [(HasRecorded.of_putCurrent h.wellFormed (h.current epName)).held_iff hRR (hNN ▸ hNS)]
  exact h.namespaceRecorded hEp objNS arName nn hNN

end Agreement

theorem webSpace_noObjects_put (arName : String) (rr : ResourceResolver)
    (hRR : (webSpace.resources.put ":v1:namespaces" ⟨⟨"", "v1", "namespaces"⟩, ∅, []⟩).get arName = some rr) :
    rr.byObjName = ∅ :=
  GoMap.forall_get_put webSpace.no_objects rfl arName rr hRR

def namespacedSpace : FreshSpace (List (String × String)) where
  placements := ∅
  resources := webSpace.resources.put ":v1:namespaces" ⟨⟨"", "v1", "namespaces"⟩, ∅, []⟩
  gkToARName := webSpace.gkToARName.put ⟨"", "Namespace"⟩ ":v1:namespaces"
  wellFormed := webSpace_wellFormed_put
  no_objects := webSpace_noObjects_put
  noNamespaceSelectors := noNamespaceSelectors_empty

def productionStores : Stores :=
  Function.update configMapStores ⟨"", "v1", "namespaces"⟩
    (ObjectStore.write ∅ (appsNamespace [("env", "prod")]))

/-- The space after the EdgePlacement has been processed. -/
def productionWorld : World (List (String × String)) where
  stores := productionStores
  wr := placementStep kubeBindBase "wds1" productionStores
    ⟨GoMap.ofList [("wds1", namespacedSpace.details)], []⟩ productionPlacement

theorem productionWorld_inAgreement :
    InAgreement kubeBindBase.lib "wds1" productionWorld.stores productionWorld.wr := by
  have hStart := InAgreement.of_noPlacements kubeBindBase.lib "wds1" productionStores namespacedSpace
    fun epName => GoMap.get_empty epName
  have hProcessed : ProcessedInSpace kubeBindBase "wds1" productionStores
      ⟨GoMap.ofList [("wds1", namespacedSpace.details)], []⟩ productionPlacement :=
    ⟨⟨rfl, by decide, by intro hSpace; cases hSpace⟩, _, rfl⟩
  exact (hStart.step hProcessed (.inl rfl)).1

theorem relabelling_resolved_iff_production :
    (processCenterObject (kubeBindBase.withStores "wds1" RangeOrder.insertion (changedStores productionWorld "wds1"
      (relabelling (appsNamespace [("env", "prod"), ("team", "a")]) RangeOrder.insertion))) productionWorld.wr
      "wds1" ⟨"", "Namespace"⟩ ("", "apps")).1 = true ∧
    (NamespaceResolved kubeBindBase.lib "wds1" (objectStep kubeBindBase "wds1" productionWorld
        (relabelling (appsNamespace [("env", "prod"), ("team", "a")]) RangeOrder.insertion)) "web"
        productionPlacement.ep.spec "apps" ↔
      KeepsNamespaceMatches kubeBindBase.lib "wds1" productionWorld productionPlacement.ep.spec
        (appsNamespace [("env", "prod"), ("team", "a")]) RangeOrder.insertion) :=
  relabelling_resolved_iff kubeBindBase "wds1" productionWorld _ ":v1:namespaces"
    ⟨⟨"", "v1", "namespaces"⟩, ∅, []⟩ (appsNamespace [("env", "prod"), ("team", "a")]) RangeOrder.insertion "web"
    productionPlacement.ep.spec rfl productionWorld_inAgreement.wellFormed rfl rfl rfl (by decide)
    (productionWorld_inAgreement.namespaceResolved rfl (by decide))
    (productionWorld_inAgreement.namespaceRecorded rfl "apps")

/-- The Namespace leaves production and the receiver keeps its ConfigMap. -/
theorem relabelling_not_resolved :
    NamespaceResolved kubeBindBase.lib "wds1" productionWorld "web" productionPlacement.ep.spec "apps" ∧
    ¬ NamespaceResolved kubeBindBase.lib "wds1" (objectStep kubeBindBase "wds1" productionWorld
        (relabelling (appsNamespace [("env", "dev")]) RangeOrder.insertion)) "web"
        productionPlacement.ep.spec "apps" := by
  refine ⟨productionWorld_inAgreement.namespaceResolved rfl (by decide), fun h => ?_⟩
  have hSettings := h ":v1:configmaps" _ ("apps", "settings") rfl rfl
  have hKept : Held (objectStep kubeBindBase "wds1" productionWorld
      (relabelling (appsNamespace [("env", "dev")]) RangeOrder.insertion)).wr ⟨"wds1", "web"⟩
      (⟨"", "configmaps"⟩, "apps", "settings") := ⟨_, rfl, by decide⟩
  exact absurd (hSettings.mp hKept) (by decide)

end KubeStellar.WhatResolver
