import KubeStellar.WhatResolver.PlacementLoop

/-! # EdgePlacement events

EdgePlacements are created and updated, each change followed by a successful processing, which keeps records and
receiver in agreement with the specs if the change shows in the downsync list or in some bits.
-/

namespace KubeStellar.WhatResolver

open Option

open Kbuser

variable {Sel : Type}

/-- A new version of the EdgePlacement `epName`, of which `ep` is the provider's copy. -/
structure PlacementEvent (Sel : Type) where
  epName : ObjectName
  ep : EdgePlacement Sel
  kbSpaceID : String
  ord : RangeOrder
  analyzed : analyzeClusterScopedObject (some ep.objectMeta) = .ok (.ok (epName, kbSpaceID))

/-- The caches of the space and the lister of EdgePlacements when the event is processed. -/
def PlacementEvent.env (event : PlacementEvent Sel) (base : Env Sel) (cluster : String) (stores : Stores) :
    Env Sel :=
  { base.withStores cluster event.ord stores with
    edgePlacementLister := fun name =>
      if name = event.ep.objectMeta.name then .found event.ep else base.edgePlacementLister name }

def placementStep [DecidableEq Sel] (base : Env Sel) (cluster : String) (stores : Stores) (wr : State Sel)
    (event : PlacementEvent Sel) : State Sel :=
  match processEdgePlacement (event.env base cluster stores) wr event.ep.objectMeta.name with
  | .ok (_, wr') => wr'
  | .error _ => wr

structure InSpace (base : Env Sel) (cluster : String) (wr : State Sel) (event : PlacementEvent Sel) : Prop where
  in_space : base.spaceIDFromKubeBind event.kbSpaceID = cluster
  named : cluster ≠ ""
  clients : wr.workspaceDetails.get cluster = none → base.clients cluster = ⟨true, true, true, true⟩

structure ProcessedInSpace [DecidableEq Sel] (base : Env Sel) (cluster : String) (stores : Stores)
    (wr : State Sel) (event : PlacementEvent Sel) : Prop extends InSpace base cluster wr event where
  success : ∃ wr', processEdgePlacement (event.env base cluster stores) wr event.ep.objectMeta.name =
    .ok (true, wr')

def SpecChangeSeen [DecidableEq Sel] (lib : SelectorLibrary Sel) (cluster : String) (stores : Stores) (wr : State Sel)
    (event : PlacementEvent Sel) : Prop :=
  let wsd := detailsOf wr cluster
  let spec := event.ep.spec
  match wsd.placements.get event.epName with
  | none => spec.upsync = [] ∨ ∃ arName nn, selectedBy lib stores wsd spec arName nn ≠ none
  | some prevEp =>
    if prevEp.spec.downsync = spec.downsync then
      spec.upsync = prevEp.spec.upsync ∧
        (spec.wantSingletonReportedState = prevEp.spec.wantSingletonReportedState ∨
          ∀ arName nn, selectedBy lib stores wsd prevEp.spec arName nn = none)
    else spec.upsync = prevEp.spec.upsync ∨
      selectedBy lib stores wsd spec ≠ selectedBy lib stores wsd prevEp.spec

/-- The receiver last got the resolution of the current spec from scratch, or never got anything and
that resolution is empty. -/
def PlacementsResolved (lib : SelectorLibrary Sel) (cluster : String) (stores : Stores) (wr : State Sel) : Prop :=
  ∀ epName ep, (detailsOf wr cluster).placements.get epName = some ep →
    match lastPut wr ⟨cluster, epName⟩ with
    | some what => Resolves (detailsOf wr cluster).resources
        (selectedBy lib stores (detailsOf wr cluster) ep.spec) ep.spec.upsync what
    | none => (∀ arName nn, selectedBy lib stores (detailsOf wr cluster) ep.spec arName nn = none) ∧
        ep.spec.upsync = []

/-- The recorded bits are those of the selections from scratch and the receiver is up to date with
them, for an EdgePlacement that is not known as for one that selects nothing. -/
structure InAgreement (lib : SelectorLibrary Sel) (cluster : String) (stores : Stores) (wr : State Sel) :
    Prop where
  wellFormed : WellFormed (detailsOf wr cluster).resources
  bits : ∀ epName arName nn, recorded (detailsOf wr cluster).resources epName arName nn =
    ((detailsOf wr cluster).placements.get epName).bind fun ep =>
      selectedBy lib stores (detailsOf wr cluster) ep.spec arName nn
  current : ∀ epName, PutCurrent wr cluster (detailsOf wr cluster) epName
  upsync_put : ∀ epName, lastPut wr ⟨cluster, epName⟩ = none → upsyncOf (detailsOf wr cluster) epName = []

variable {lib : SelectorLibrary Sel} {stores : Stores} {wsd : WorkspaceDetails Sel}

theorem selectedBy_eq_of_spec {spec spec' : EdgePlacementSpec Sel} (hDownsync : spec.downsync = spec'.downsync)
    (hUpsync : spec'.upsync = spec.upsync)
    (hWant : spec'.wantSingletonReportedState = spec.wantSingletonReportedState ∨
      ∀ arName nn, selectedBy lib stores wsd spec arName nn = none) :
    selectedBy lib stores wsd spec' = selectedBy lib stores wsd spec := by
  have hMatch : ∀ whatResource obj, whatMatches lib (listers RangeOrder.insertion stores) wsd spec' whatResource obj =
      whatMatches lib (listers RangeOrder.insertion stores) wsd spec whatResource obj := by
    intro whatResource obj
    simp only [whatMatches, hDownsync, hUpsync]
  funext arName nn
  rcases hWant with hWant | hNone
  · unfold selectedBy matchBits
    simp only [hMatch, hWant]
  · have hNone := hNone arName nn
    rw [hNone]
    unfold selectedBy at hNone ⊢
    cases hRR : wsd.resources.get arName with
    | none => rfl
    | some rr =>
      rw [hRR, bind_some] at hNone
      rw [bind_some]
      cases hObj : (stores rr.gvr).objects.get nn with
      | none => rfl
      | some obj =>
        rw [hObj, bind_some, matchBits] at hNone
        rw [bind_some, matchBits, hMatch]
        split at hNone
        · cases hNone
        · rename_i hNo
          rw [if_neg hNo]

variable {ep : EdgePlacement Sel} {wr' : State Sel} {event : PlacementEvent Sel}
  {base : Env Sel} {cluster : String} {stores : Stores} {wr : State Sel} {lib : SelectorLibrary Sel}

theorem InAgreement.resolved (h : InAgreement lib cluster stores wr) : PlacementsResolved lib cluster stores wr := by
  intro epName ep hEp
  have hRec : recorded (detailsOf wr cluster).resources epName =
      selectedBy lib stores (detailsOf wr cluster) ep.spec := by
    funext arName nn
    rw [h.bits, hEp, bind_some]
  have hUpsync : upsyncOf (detailsOf wr cluster) epName = ep.spec.upsync := by rw [upsyncOf, hEp]
  have hCurrent := h.current epName
  have hPut := h.upsync_put epName
  rw [PutCurrent, hRec, hUpsync] at hCurrent
  rw [hUpsync] at hPut
  cases hLast : lastPut wr ⟨cluster, epName⟩ with
  | none => exact ⟨by simpa [hLast] using hCurrent, hPut hLast⟩
  | some what => simpa [hLast] using hCurrent

theorem InAgreement.recorded_eq_none (h : InAgreement lib cluster stores wr)
    {arName : String} {rr : ResourceResolver} {nn : NamespacedName}
    (hRR : (detailsOf wr cluster).resources.get arName = some rr)
    (hNone : (stores rr.gvr).objects.get nn = none) (epName : ObjectName) :
    recorded (detailsOf wr cluster).resources epName arName nn = none := by
  rw [h.bits]
  cases (detailsOf wr cluster).placements.get epName with
  | none => rfl
  | some ep => rw [bind_some, selectedBy, hRR, bind_some, hNone, bind_none]

theorem InAgreement.recorded_eq_selectedBy {env : Env Sel} {ord : RangeOrder}
    (h : InAgreement lib cluster stores wr) {wsd₁ wsd' : WorkspaceDetails Sel} {spec : EdgePlacementSpec Sel}
    {epName : ObjectName} (hLib : env.lib = lib)
    (hInf : env.informers cluster = listers ord stores)
    (hResources : wsd₁.resources = (detailsOf wr cluster).resources)
    (hShape : SameShape wsd₁.resources wsd'.resources) (hGK : wsd'.gkToARName = wsd₁.gkToARName)
    (hEach : ∀ arName rr, wsd₁.resources.get arName = some rr → ∃ rr', wsd'.resources.get arName = some rr' ∧
      Rematched env cluster wsd₁ spec epName (env.informers cluster rr.gvr).list rr rr')
    (hComp : ∀ arName rr, wsd₁.resources.get arName = some rr → ∀ obj ∈ (env.informers cluster rr.gvr).list,
        Computable env.lib (env.informers cluster) wsd₁ spec rr.gvr.resource obj) :
    recorded wsd'.resources epName = selectedBy lib stores wsd' spec := by
  rw [← selectedBy_of_sameShape lib stores hShape hGK]
  funext arName nn
  unfold selectedBy
  cases hRR : wsd₁.resources.get arName with
  | none =>
    rw [recorded, entryOf, hShape.get_none hRR]
    rfl
  | some rr =>
    rw [recorded_of_rematched hInf hEach hRR, bind_some]
    cases hObj : (stores rr.gvr).objects.get nn with
    | none =>
      rw [hResources] at hRR ⊢
      exact h.recorded_eq_none hRR hObj epName
    | some obj =>
      have hListed : obj ∈ (env.informers cluster rr.gvr).list := by
        rw [hInf, mem_list_listers_iff, (stores rr.gvr).keyed nn obj hObj, hObj]
      dsimp only
      rw [rematched, if_pos (hComp arName rr hRR obj hListed), bind_some, matchBits, matchBits,
        hInf, hLib, whatMatches_listers (fun _ => rfl) rfl ord RangeOrder.insertion]

theorem InAgreement.bits_other (h : InAgreement lib cluster stores wr)
    {wsd' : WorkspaceDetails Sel} {epName : ObjectName}
    (hPlacements : wsd'.placements = (detailsOf wr cluster).placements.put epName ep)
    (hShape : SameShape (detailsOf wr cluster).resources wsd'.resources)
    (hGK : wsd'.gkToARName = (detailsOf wr cluster).gkToARName)
    (hOther : ∀ name, name ≠ epName → recorded wsd'.resources name = recorded (detailsOf wr cluster).resources name)
    (hExact : recorded wsd'.resources epName = selectedBy lib stores wsd' ep.spec) (name : ObjectName)
    (arName : String) (nn : NamespacedName) : recorded wsd'.resources name arName nn =
      (wsd'.placements.get name).bind fun ep => selectedBy lib stores wsd' ep.spec arName nn := by
  rw [hPlacements, GoMap.get_put]
  by_cases hName : name = epName
  · rw [if_pos hName, hName, bind_some, hExact]
  · rw [if_neg hName, hOther name hName, h.bits]
    cases (detailsOf wr cluster).placements.get name with
    | none => rfl
    | some ep => rw [bind_some, bind_some, selectedBy_of_sameShape lib stores hShape hGK]

theorem InAgreement.step_same (h : InAgreement lib cluster stores wr)
    {epName : ObjectName} {prevEp : EdgePlacement Sel}
    (hPrev : (detailsOf wr cluster).placements.get epName = some prevEp)
    (hSpace : wr'.workspaceDetails.get cluster = some (withPlacement (detailsOf wr cluster) epName ep))
    (hLast : ∀ ref, lastPut wr' ref = lastPut wr ref) (hDownsync : prevEp.spec.downsync = ep.spec.downsync)
    (hUpsync : ep.spec.upsync = prevEp.spec.upsync)
    (hWant : ep.spec.wantSingletonReportedState = prevEp.spec.wantSingletonReportedState ∨
      ∀ arName nn, selectedBy lib stores (detailsOf wr cluster) prevEp.spec arName nn = none) :
    InAgreement lib cluster stores wr' := by
  have hDetails := detailsOf_eq hSpace
  have hUpsyncOf : ∀ name, upsyncOf (withPlacement (detailsOf wr cluster) epName ep) name =
      upsyncOf (detailsOf wr cluster) name := by
    intro name
    rw [upsyncOf_withPlacement]
    split
    · rename_i hName
      rw [hName, upsyncOf, hPrev, hUpsync]
    · rfl
  have hExact : recorded (detailsOf wr cluster).resources epName =
      selectedBy lib stores (withPlacement (detailsOf wr cluster) epName ep) ep.spec := by
    funext arName nn
    rw [h.bits, hPrev, bind_some, ← selectedBy_eq_of_spec hDownsync hUpsync hWant]
    exact congrFun (congrFun (selectedBy_of_sameShape lib stores (fun _ => rfl) rfl ep.spec) arName) nn
  constructor <;> rw [hDetails]
  · exact h.wellFormed
  · exact h.bits_other rfl (fun _ => rfl) rfl (fun _ _ => rfl) hExact
  · exact fun name => (h.current name).of_unchanged (hLast _) (fun _ => rfl) rfl (hUpsyncOf name)
  · intro name hNone
    rw [hLast] at hNone
    rw [hUpsyncOf]
    exact h.upsync_put name hNone

theorem InAgreement.step_new (h : InAgreement lib cluster stores wr)
    {resources' : GoMap String ResourceResolver} {epName : ObjectName}
    (hSpace : wr'.workspaceDetails.get cluster = some ⟨(detailsOf wr cluster).placements.put epName ep, resources',
      (detailsOf wr cluster).gkToARName⟩)
    (hShape : SameShape (detailsOf wr cluster).resources resources')
    (hOther : ∀ name, name ≠ epName → recorded resources' name = recorded (detailsOf wr cluster).resources name)
    (hExact : recorded resources' epName = selectedBy lib stores ⟨(detailsOf wr cluster).placements.put epName ep,
      resources', (detailsOf wr cluster).gkToARName⟩ ep.spec)
    (hLastOther : ∀ ref, ref ≠ ⟨cluster, epName⟩ → lastPut wr' ref = lastPut wr ref)
    (hLast : recorded resources' epName = recorded (detailsOf wr cluster).resources epName ∧
      lastPut wr' ⟨cluster, epName⟩ = lastPut wr ⟨cluster, epName⟩ ∨
      ∃ what, lastPut wr' ⟨cluster, epName⟩ = some what ∧ Resolves resources' (recorded resources' epName)
        ep.spec.upsync what)
    (hSeen : recorded resources' epName = recorded (detailsOf wr cluster).resources epName →
      ep.spec.upsync = upsyncOf (detailsOf wr cluster) epName) :
    InAgreement lib cluster stores wr' := by
  have hDetails := detailsOf_eq hSpace
  have hUpsyncOf : ∀ name, upsyncOf (⟨(detailsOf wr cluster).placements.put epName ep, resources',
      (detailsOf wr cluster).gkToARName⟩ : WorkspaceDetails Sel) name =
      if name = epName then ep.spec.upsync else upsyncOf (detailsOf wr cluster) name :=
    upsyncOf_withPlacement (detailsOf wr cluster) epName ep
  constructor <;> rw [hDetails]
  · exact hShape.wellFormed h.wellFormed
  · exact h.bits_other rfl hShape rfl hOther hExact
  · intro name
    by_cases hName : name = epName
    · subst hName
      rcases hLast with ⟨hSame, hSameLast⟩ | ⟨what, hWhat, hResolves⟩
      · exact (h.current name).of_unchanged hSameLast hShape hSame (by rw [hUpsyncOf, if_pos rfl, hSeen hSame])
      · unfold PutCurrent
        rw [hWhat, hUpsyncOf, if_pos rfl]
        exact hResolves
    · exact (h.current name).of_unchanged (hLastOther _ fun hRef => hName (congrArg ExternalName.name hRef))
        hShape (hOther name hName) (by rw [hUpsyncOf, if_neg hName])
  · intro name hNone
    rw [hUpsyncOf]
    split
    · rename_i hName
      subst hName
      rcases hLast with ⟨hSame, hSameLast⟩ | ⟨what, hWhat, _⟩
      · rw [hSeen hSame]
        exact h.upsync_put name (hSameLast ▸ hNone)
      · rw [hWhat] at hNone
        cases hNone
    · rename_i hName
      rw [hLastOther ⟨cluster, name⟩ fun hRef => hName (congrArg ExternalName.name hRef)] at hNone
      exact h.upsync_put name hNone

variable [DecidableEq Sel]

theorem InAgreement.upsync_of_seen (h : InAgreement lib cluster stores wr)
    (hSeen : SpecChangeSeen lib cluster stores wr event)
    (hNew : ∀ prevEp, (detailsOf wr cluster).placements.get event.epName = some prevEp →
      prevEp.spec.downsync ≠ event.ep.spec.downsync)
    (hSame : selectedBy lib stores (detailsOf wr cluster) event.ep.spec =
      recorded (detailsOf wr cluster).resources event.epName) :
    event.ep.spec.upsync = upsyncOf (detailsOf wr cluster) event.epName := by
  unfold SpecChangeSeen at hSeen
  unfold upsyncOf
  have hRec := h.bits event.epName
  cases hPrev : (detailsOf wr cluster).placements.get event.epName with
  | none =>
    simp only [hPrev] at hSeen
    rcases hSeen with hEmpty | ⟨arName, nn, hNe⟩
    · exact hEmpty
    · rw [hSame, hRec, hPrev] at hNe
      exact absurd rfl hNe
  | some prevEp =>
    simp only [hPrev, hNew prevEp hPrev, if_false] at hSeen
    rcases hSeen with hUpsync | hNe
    · exact hUpsync
    · refine absurd ?_ hNe
      rw [hSame]
      funext arName nn
      rw [hRec, hPrev, bind_some]

theorem InAgreement.step (h : InAgreement base.lib cluster stores wr)
    (hProcessed : ProcessedInSpace base cluster stores wr event)
    (hSeen : SpecChangeSeen base.lib cluster stores wr event) :
    InAgreement base.lib cluster stores (placementStep base cluster stores wr event) ∧
    (detailsOf (placementStep base cluster stores wr event) cluster).placements =
      (detailsOf wr cluster).placements.put event.epName event.ep := by
  obtain ⟨wr₁, hReceived, hRun⟩ := @processEdgePlacement_found Sel _ (event.env base cluster stores) wr
    cluster event.epName event.ep event.ep.objectMeta.name event.kbSpaceID (if_pos rfl) event.analyzed
    hProcessed.in_space hProcessed.named hProcessed.clients
  have hLast₁ : ∀ ref, lastPut wr₁ ref = lastPut wr ref := by
    intro ref
    rw [lastPut, hReceived, lastPut]
  obtain ⟨wr', hSuccess⟩ := hProcessed.success
  have hStep : placementStep base cluster stores wr event = wr' := by
    rw [placementStep, hSuccess]
  rw [hRun, Except.ok.injEq] at hSuccess
  rw [hStep]
  by_cases hSame : ∃ prevEp, (detailsOf wr cluster).placements.get event.epName = some prevEp ∧
      prevEp.spec.downsync = event.ep.spec.downsync
  · obtain ⟨prevEp, hPrev, hDownsync⟩ := hSame
    obtain ⟨wr₂, hResolve, hSpace, hLast⟩ := @resolveEdgePlacement_same Sel _ (event.env base cluster stores)
      wr₁ cluster (detailsOf wr cluster) event.epName event.ep prevEp hPrev hDownsync
    rw [hSuccess] at hResolve
    cases hResolve
    unfold SpecChangeSeen at hSeen
    simp only [hPrev, hDownsync, if_true] at hSeen
    refine ⟨h.step_same hPrev hSpace (fun ref => (hLast ref).trans (hLast₁ ref)) hDownsync hSeen.1 hSeen.2, ?_⟩
    rw [detailsOf_eq hSpace]
    rfl
  · have hNew : ∀ prevEp, (detailsOf wr cluster).placements.get event.epName = some prevEp →
        prevEp.spec.downsync ≠ event.ep.spec.downsync := fun prevEp hPrev hEq => hSame ⟨prevEp, hPrev, hEq⟩
    have hInf : (event.env base cluster stores).informers cluster = listers event.ord stores :=
      informers_withStores base cluster event.ord stores
    obtain ⟨success, wr₂, resources', hResolve, hSpace, hShape, hEach, hComp, hLastOther, hLast⟩ :=
      @resolveEdgePlacement_new Sel _ (event.env base cluster stores) wr₁ cluster (detailsOf wr cluster)
        event.epName event.ep hNew h.wellFormed
        (fun arName rr _ => by rw [hInf]; exact nodup_list_listers event.ord stores rr.gvr)
    rw [hSuccess] at hResolve
    cases hResolve
    let wsd' : WorkspaceDetails Sel :=
      ⟨(detailsOf wr cluster).placements.put event.epName event.ep, resources', (detailsOf wr cluster).gkToARName⟩
    have hExact := @InAgreement.recorded_eq_selectedBy Sel cluster stores wr base.lib
      (event.env base cluster stores) event.ord h (withPlacement (detailsOf wr cluster) event.epName event.ep)
      wsd' event.ep.spec event.epName rfl hInf rfl hShape rfl hEach (hComp.mp rfl)
    have hSelected := @selectedBy_of_sameShape Sel (detailsOf wr cluster) wsd' base.lib stores hShape rfl
    refine ⟨h.step_new hSpace hShape (fun name hName => recorded_other_of_rematched hShape hEach hName) hExact
      (fun ref hRef => (hLastOther ref hRef).trans (hLast₁ ref)) ?_ fun hEq => ?_, ?_⟩
    · rwa [hLast₁] at hLast
    · apply h.upsync_of_seen hSeen hNew
      rw [← hEq, hSelected, hExact]
    · rw [detailsOf_eq hSpace]

end KubeStellar.WhatResolver
