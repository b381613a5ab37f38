import KubeStellar.WhatResolver.Shape

/-! # Workload object events

Objects come, change and go under fixed EdgePlacements. A step in which no object leaves the selection of an
EdgePlacement keeps the recorded bits and the receiver in agreement with the selection from scratch.
-/

namespace KubeStellar.WhatResolver

section

variable {Sel : Type}

structure TouchesOnly (arName : String) (nn : NamespacedName) (wsd wsd' : WorkspaceDetails Sel) : Prop where
  placements_eq : wsd'.placements = wsd.placements
  gkToARName_eq : wsd'.gkToARName = wsd.gkToARName
  shape : SameShape wsd.resources wsd'.resources
  other_entries : ∀ arName' nn', ¬ (arName' = arName ∧ nn' = nn) →
    entryOf wsd'.resources arName' nn' = entryOf wsd.resources arName' nn'

namespace TouchesOnly

variable {arName : String} {nn : NamespacedName} {wsd wsd' : WorkspaceDetails Sel}

theorem refl (arName : String) (nn : NamespacedName) (wsd : WorkspaceDetails Sel) : TouchesOnly arName nn wsd wsd :=
  ⟨rfl, rfl, fun _ => rfl, fun _ _ _ => rfl⟩

theorem setResource {rr : ResourceResolver} (hRR : wsd.resources.get arName = some rr)
    {byObjName : GoMap NamespacedName ObjectDetails}
    (hOther : ∀ nn', nn' ≠ nn → byObjName.get nn' = rr.byObjName.get nn') :
    TouchesOnly arName nn wsd
      { wsd with resources := wsd.resources.put arName { rr with byObjName := byObjName } } := by
  refine ⟨rfl, rfl, SameShape.put hRR rfl rfl, fun arName' nn' hNe => ?_⟩
  rw [entryOf_put]
  split
  · rename_i hName
    subst hName
    rw [hOther nn' fun h => hNe ⟨rfl, h⟩, entryOf, hRR, Option.bind_some]
  · rfl

theorem recorded_eq (h : TouchesOnly arName nn wsd wsd') {arName' : String} {nn' : NamespacedName}
    (hNe : ¬ (arName' = arName ∧ nn' = nn)) (epName : ObjectName) :
    recorded wsd'.resources epName arName' nn' = recorded wsd.resources epName arName' nn' := by
  rw [recorded, recorded, h.other_entries arName' nn' hNe]

theorem upsyncOf_eq (h : TouchesOnly arName nn wsd wsd') (epName : ObjectName) :
    upsyncOf wsd' epName = upsyncOf wsd epName := by
  rw [upsyncOf, upsyncOf, h.placements_eq]

end TouchesOnly

variable {env : Env Sel} {wr : State Sel} {cluster : String} {gk : GroupKind} {nn : NamespacedName}
  {wsd : WorkspaceDetails Sel} {arName : String} {rr : ResourceResolver}

theorem processCenterObject_notFound (hSpace : wr.workspaceDetails.get cluster = some wsd)
    (hGK : wsd.gkToARName.get gk = some arName) (hRR : wsd.resources.get arName = some rr)
    (hObj : (env.informers cluster rr.gvr).get nn = .notFound) :
    ∃ wr' wsd', processCenterObject env wr cluster gk nn = (true, wr') ∧
      wr'.workspaceDetails.get cluster = some wsd' ∧ TouchesOnly arName nn wsd wsd' ∧
      entryOf wsd'.resources arName nn = none ∧ ∀ ref, lastPut wr' ref = lastPut wr ref := by
  have hEmpty : (changedPlacements env.ord newObjectDetails
      ((rr.byObjName.get nn).getD newObjectDetails)).isEmpty = true := by
    rw [GoMap.isEmpty_iff]
    intro epName
    rw [get_changedPlacements]
    split <;> rfl
  refine ⟨wr.setResource cluster wsd arName { rr with byObjName := rr.byObjName.delete nn },
    { wsd with resources := wsd.resources.put arName { rr with byObjName := rr.byObjName.delete nn } },
    ?_, ?_, ?_, ?_, fun _ => rfl⟩
  · simp only [processCenterObject, hSpace, hGK, hRR, hObj, hEmpty, if_true]
  · simp [State.setResource]
  · exact TouchesOnly.setResource hRR fun nn' hNe => by simp [hNe]
  · simp [entryOf_put]

/-- An object that is there is matched against all EdgePlacements. Its entry and the receiver follow
for those whose bits are new; when there are none, an EdgePlacement that no longer matches keeps its
bits. -/
theorem processCenterObject_found {obj : MRObject} (hSpace : wr.workspaceDetails.get cluster = some wsd)
    (hGK : wsd.gkToARName.get gk = some arName) (hRR : wsd.resources.get arName = some rr)
    (hWF : WellFormed wsd.resources)
    (hObj : (env.informers cluster rr.gvr).get nn = .found obj)
    (hComp : ∀ epName ep, wsd.placements.get epName = some ep →
      Computable env.lib (env.informers cluster) wsd ep.spec rr.gvr.resource obj) :
    ∃ wr' wsd' newDetails, processCenterObject env wr cluster gk nn = (true, wr') ∧
      wr'.workspaceDetails.get cluster = some wsd' ∧ TouchesOnly arName nn wsd wsd' ∧
      (∀ epName, newDetails.placementBits.get epName = (wsd.placements.get epName).bind fun ep =>
        matchBits env.lib (env.informers cluster) wsd ep.spec rr.gvr.resource obj) ∧
      (entryOf wsd'.resources arName nn = some newDetails ∨
        entryOf wsd'.resources arName nn = entryOf wsd.resources arName nn ∧
        ∀ epName, newDetails.placementBits.get epName = none ∨
          newDetails.placementBits.get epName = recorded wsd.resources epName arName nn) ∧
      ∀ epName, (newDetails.placementBits.get epName = none ∨
          newDetails.placementBits.get epName = recorded wsd.resources epName arName nn) ∧
          lastPut wr' ⟨cluster, epName⟩ = lastPut wr ⟨cluster, epName⟩ ∨
        PutCurrent wr' cluster wsd' epName := by
  obtain ⟨newDetails, hMatch, hNew⟩ := whatMatchingPlacements_of_computable env.ord wsd.placements hComp
  have hOld : ∀ epName, ((rr.byObjName.get nn).getD newObjectDetails).placementBits.get epName =
      recorded wsd.resources epName arName nn := by
    intro epName
    rw [recorded, entryOf, hRR, Option.bind_some]
    cases rr.byObjName.get nn <;> rfl
  obtain ⟨changed, hDef⟩ : ∃ changed, changed = changedPlacements env.ord newDetails
    ((rr.byObjName.get nn).getD newObjectDetails) := ⟨_, rfl⟩
  have hChanged : ∀ epName, changed.get epName = none ↔ newDetails.placementBits.get epName = none ∨
      newDetails.placementBits.get epName = recorded wsd.resources epName arName nn := by
    intro epName
    rw [hDef, get_changedPlacements, hOld]
    split
    · rename_i hEq
      simp only [hEq, or_true]
    · rename_i hNe
      simp only [hNe, or_false]
  cases hEmpty : changed.isEmpty with
  | true =>
    have hNone := fun epName => (hChanged epName).mp ((GoMap.isEmpty_iff _).mp hEmpty epName)
    refine ⟨wr, wsd, newDetails, ?_, hSpace, TouchesOnly.refl arName nn wsd, hNew, .inr ⟨rfl, hNone⟩,
      fun epName => .inl ⟨hNone epName, rfl⟩⟩
    simp only [processCenterObject, hSpace, hGK, hRR, hObj, hMatch, ← hDef, hEmpty, if_true]
  | false =>
    let rr' := { rr with byObjName := rr.byObjName.put nn newDetails }
    let wsd' := { wsd with resources := wsd.resources.put arName rr' }
    let wr' := wr.setResource cluster wsd arName rr'
    have hTouch : TouchesOnly arName nn wsd wsd' := TouchesOnly.setResource hRR fun nn' hNe => by simp [hNe]
    have hSpace' : wr'.workspaceDetails.get cluster = some wsd' := by simp [wr', wsd', State.setResource]
    refine ⟨notifyReceiversOfPlacements env.ord wr' cluster ((env.ord.visit changed).map Prod.fst), wsd',
      newDetails, ?_, ?_, hTouch, hNew, .inl (by simp [wsd', rr', entryOf_put]), fun epName => ?_⟩
    · simp only [processCenterObject, hSpace, hGK, hRR, hObj, hMatch, ← hDef, hEmpty]
      rfl
    · rw [workspaceDetails_notifyReceiversOfPlacements]
      exact hSpace'
    · have hPut := lastPut_notifyReceiversOfPlacements env.ord wr' cluster
        ((env.ord.visit changed).map Prod.fst) ⟨cluster, epName⟩
      simp only [RangeOrder.mem_visit_keys_iff, true_and, GoMap.has] at hPut
      cases hGet : changed.get epName with
      | none =>
        rw [hGet] at hPut
        exact .inl ⟨(hChanged epName).mp hGet, hPut⟩
      | some bits =>
        rw [hGet] at hPut
        exact .inr (PutCurrent.of_notified hSpace' (hTouch.shape.wellFormed hWF) hPut)

end

open Option

inductive ObjectChange where
  | write (obj : MRObject)
  | delete (nn : NamespacedName)

namespace ObjectChange

def nn : ObjectChange → NamespacedName
  | write obj => obj.nn
  | delete nn => nn

def object : ObjectChange → Option MRObject
  | write obj => some obj
  | delete _ => none

def apply : ObjectChange → ObjectStore → ObjectStore
  | write obj, store => store.write obj
  | delete nn, store => store.remove nn

theorem get_apply (change : ObjectChange) (store : ObjectStore) (nn : NamespacedName) :
    (change.apply store).objects.get nn =
      if nn = change.nn then change.object else store.objects.get nn := by
  cases change with
  | write obj => exact GoMap.get_put store.objects obj.nn nn obj
  | delete nn' => exact GoMap.get_delete store.objects nn' nn

end ObjectChange

/-- A change of an object of the given kind; `ord` is the order of iteration of its processing. -/
structure ObjectEvent where
  gk : GroupKind
  change : ObjectChange
  ord : RangeOrder

structure World (Sel : Type) where
  stores : Stores
  wr : State Sel

variable {Sel : Type}

def watchedResource (wr : State Sel) (cluster : String) (gk : GroupKind) : Option GroupVersionResource := do
  let wsd ← wr.workspaceDetails.get cluster
  let arName ← wsd.gkToARName.get gk
  let rr ← wsd.resources.get arName
  return rr.gvr

def changedStores (w : World Sel) (cluster : String) (event : ObjectEvent) : Stores :=
  match watchedResource w.wr cluster event.gk with
  | some gvr => Function.update w.stores gvr (event.change.apply (w.stores gvr))
  | none => w.stores

/-- The change reaches the cache and then the object is processed. -/
def objectStep (base : Env Sel) (cluster : String) (w : World Sel) (event : ObjectEvent) : World Sel :=
  let stores := changedStores w cluster event
  ⟨stores, (processCenterObject (base.withStores cluster event.ord stores) w.wr cluster event.gk
    event.change.nn).2⟩

structure FreshSpace (Sel : Type) where
  placements : GoMap ObjectName (EdgePlacement Sel)
  resources : GoMap String ResourceResolver
  gkToARName : GoMap GroupKind String
  wellFormed : WellFormed resources
  no_objects : ∀ arName rr, resources.get arName = some rr → rr.byObjName = ∅
  noNamespaceSelectors : ∀ epName ep, placements.get epName = some ep → NoNamespaceSelectors ep.spec

def FreshSpace.details (space : FreshSpace Sel) : WorkspaceDetails Sel :=
  ⟨space.placements, space.resources, space.gkToARName⟩

def FreshSpace.world (space : FreshSpace Sel) (cluster : String) : World Sel :=
  ⟨fun _ => ∅, ⟨GoMap.ofList [(cluster, space.details)], []⟩⟩

/-- The recorded bits are those of the matching EdgePlacements, an object that is gone has no entry,
and the receiver last got the resolution from scratch, unless an EdgePlacement has not been affected by
any object. -/
structure ObjectsResolved (lib : SelectorLibrary Sel) (cluster : String) (w : World Sel)
    (wsd : WorkspaceDetails Sel) : Prop where
  space : w.wr.workspaceDetails.get cluster = some wsd
  bits : ∀ epName arName nn, recorded wsd.resources epName arName nn =
    (wsd.placements.get epName).bind fun ep => selectedBy lib w.stores wsd ep.spec arName nn
  gone : ∀ arName rr nn, wsd.resources.get arName = some rr →
    (w.stores rr.gvr).objects.get nn = none → entryOf wsd.resources arName nn = none
  puts : ∀ epName ep, wsd.placements.get epName = some ep →
    match lastPut w.wr ⟨cluster, epName⟩ with
    | some what => Resolves wsd.resources (selectedBy lib w.stores wsd ep.spec) ep.spec.upsync what
    | none => ∀ arName nn, selectedBy lib w.stores wsd ep.spec arName nn = none

/-- Every EdgePlacement that matches the object before the event matches it after the event too; in
particular only an object that no EdgePlacement matches is deleted. -/
def KeepsMatches (lib : SelectorLibrary Sel) (cluster : String) (w : World Sel) (event : ObjectEvent) : Prop :=
  ∀ wsd arName rr, w.wr.workspaceDetails.get cluster = some wsd →
    wsd.gkToARName.get event.gk = some arName → wsd.resources.get arName = some rr →
    ∀ epName ep old, wsd.placements.get epName = some ep →
      (w.stores rr.gvr).objects.get event.change.nn = some old →
      whatMatches lib (listers RangeOrder.insertion w.stores) wsd ep.spec rr.gvr.resource old = (true, true) →
      ∃ new, event.change.object = some new ∧
        whatMatches lib (listers RangeOrder.insertion w.stores) wsd ep.spec rr.gvr.resource new = (true, true)

variable {lib : SelectorLibrary Sel} {wsd wsd' : WorkspaceDetails Sel} {arName : String} {rr : ResourceResolver}
  {nn : NamespacedName} {spec : EdgePlacementSpec Sel} {stores stores' : Stores}

theorem selectedBy_other (hSpec : NoNamespaceSelectors spec) (hWF : WellFormed wsd.resources)
    (hRR : wsd.resources.get arName = some rr) (hTouch : TouchesOnly arName nn wsd wsd')
    (hGVR : ∀ gvr, gvr ≠ rr.gvr → stores' gvr = stores gvr)
    (hNN : ∀ nn', nn' ≠ nn → (stores' rr.gvr).objects.get nn' = (stores rr.gvr).objects.get nn') {arName' : String}
    {nn' : NamespacedName} (hNe : ¬ (arName' = arName ∧ nn' = nn)) :
    selectedBy lib stores' wsd' spec arName' nn' = selectedBy lib stores wsd spec arName' nn' := by
  rw [← selectedBy_of_sameShape lib stores' hTouch.shape hTouch.gkToARName_eq]
  unfold selectedBy
  cases hRR' : wsd.resources.get arName' with
  | none => rfl
  | some rr' =>
    have hStore : (stores' rr'.gvr).objects.get nn' = (stores rr'.gvr).objects.get nn' := by
      by_cases hName : arName' = arName
      · subst hName
        rw [hRR] at hRR'
        cases hRR'
        exact hNN nn' fun h => hNe ⟨rfl, h⟩
      · have hOther : rr'.gvr ≠ rr.gvr := fun h =>
          hName (hWF.groupResource_injective arName' arName rr' rr hRR' hRR (by rw [h]))
        rw [hGVR _ hOther]
    rw [bind_some, bind_some, hStore]
    congr 1
    funext obj
    exact matchBits_of_noNamespaceSelectors lib hSpec _ _ _ _ _ _

theorem selectedBy_target (hSpec : NoNamespaceSelectors spec) (hRR : wsd.resources.get arName = some rr)
    (hTouch : TouchesOnly arName nn wsd wsd') (informers : Informers) :
    selectedBy lib stores' wsd' spec arName nn = ((stores' rr.gvr).objects.get nn).bind fun obj =>
      matchBits lib informers wsd spec rr.gvr.resource obj := by
  rw [← selectedBy_of_sameShape lib stores' hTouch.shape hTouch.gkToARName_eq]
  unfold selectedBy
  rw [hRR, bind_some]
  congr 1
  funext obj
  exact matchBits_of_noNamespaceSelectors lib hSpec _ _ _ _ _ _

structure ObjectInv (lib : SelectorLibrary Sel) (cluster : String) (space : FreshSpace Sel) (w : World Sel)
    (wsd : WorkspaceDetails Sel) : Prop where
  space_eq : w.wr.workspaceDetails.get cluster = some wsd
  placements_eq : wsd.placements = space.placements
  shape : SameShape space.resources wsd.resources
  bits : ∀ epName arName nn, recorded wsd.resources epName arName nn =
    (wsd.placements.get epName).bind fun ep => selectedBy lib w.stores wsd ep.spec arName nn
  gone : ∀ arName rr nn, wsd.resources.get arName = some rr →
    (w.stores rr.gvr).objects.get nn = none → entryOf wsd.resources arName nn = none
  current : ∀ epName ep, wsd.placements.get epName = some ep → PutCurrent w.wr cluster wsd epName

variable {cluster : String} {space : FreshSpace Sel} {w : World Sel}

theorem ObjectInv.resolved (h : ObjectInv lib cluster space w wsd) : ObjectsResolved lib cluster w wsd := by
  refine ⟨h.space_eq, h.bits, h.gone, fun epName ep hEp => ?_⟩
  have hCurrent := h.current epName ep hEp
  have hRec : recorded wsd.resources epName = selectedBy lib w.stores wsd ep.spec := by
    funext arName nn
    rw [h.bits, hEp, bind_some]
  rw [PutCurrent, hRec, upsyncOf, hEp] at hCurrent
  exact hCurrent

variable {epName : ObjectName} {ep : EdgePlacement Sel} {event : ObjectEvent}
  {base : Env Sel} {w' : World Sel} (h : ObjectInv base.lib cluster space w wsd)

include h

theorem ObjectInv.noNamespaceSelectors (hEp : wsd.placements.get epName = some ep) : NoNamespaceSelectors ep.spec :=
  space.noNamespaceSelectors epName ep (h.placements_eq ▸ hEp)

theorem ObjectInv.of_touch (hRR : wsd.resources.get arName = some rr) (hTouch : TouchesOnly arName nn wsd wsd')
    (hSpace : w'.wr.workspaceDetails.get cluster = some wsd')
    (hGVR : ∀ gvr, gvr ≠ rr.gvr → w'.stores gvr = w.stores gvr)
    (hNN : ∀ nn', nn' ≠ nn → (w'.stores rr.gvr).objects.get nn' = (w.stores rr.gvr).objects.get nn')
    (hTarget : ∀ epName, recorded wsd'.resources epName arName nn =
      (wsd.placements.get epName).bind fun ep => selectedBy base.lib w'.stores wsd' ep.spec arName nn)
    (hGone : (w'.stores rr.gvr).objects.get nn = none → entryOf wsd'.resources arName nn = none)
    (hPuts : ∀ epName ep, wsd.placements.get epName = some ep → PutCurrent w'.wr cluster wsd' epName ∨
      lastPut w'.wr ⟨cluster, epName⟩ = lastPut w.wr ⟨cluster, epName⟩ ∧
      recorded wsd'.resources epName arName nn = recorded wsd.resources epName arName nn) :
    ObjectInv base.lib cluster space w' wsd' := by
  have hWF := h.shape.wellFormed space.wellFormed
  refine ⟨hSpace, hTouch.placements_eq.trans h.placements_eq,
    fun name => (h.shape name).trans (hTouch.shape name), ?_, ?_, ?_⟩
  · intro epName arName' nn'
    rw [hTouch.placements_eq]
    by_cases hAt : arName' = arName ∧ nn' = nn
    · obtain ⟨rfl, rfl⟩ := hAt
      exact hTarget epName
    · rw [hTouch.recorded_eq hAt, h.bits]
      cases hEp : wsd.placements.get epName with
      | none => rfl
      | some ep =>
        exact (selectedBy_other (h.noNamespaceSelectors hEp) hWF hRR hTouch hGVR hNN hAt).symm
  · intro arName' rr' nn' hRR' hNone
    obtain ⟨rr₁, hRR₁, hShape, _⟩ := hTouch.shape.symm.get hRR'
    by_cases hAt : arName' = arName ∧ nn' = nn
    · obtain ⟨rfl, rfl⟩ := hAt
      rw [hRR] at hRR₁
      cases hRR₁
      exact hGone (hShape ▸ hNone)
    · rw [hTouch.other_entries arName' nn' hAt]
      refine h.gone arName' rr₁ nn' hRR₁ ?_
      rw [← hShape] at hNone
      by_cases hName : rr₁.gvr = rr.gvr
      · have hSame := hWF.groupResource_injective arName' arName rr₁ rr hRR₁ hRR (by rw [hName])
        rw [hName] at hNone ⊢
        rw [← hNN nn' fun hEq => hAt ⟨hSame, hEq⟩]
        exact hNone
      · rw [← hGVR _ hName]
        exact hNone
  · intro epName ep hEp
    rw [hTouch.placements_eq] at hEp
    rcases hPuts epName ep hEp with hCurrent | ⟨hLast, hSame⟩
    · exact hCurrent
    · refine (h.current epName ep hEp).of_unchanged hLast hTouch.shape ?_ (hTouch.upsyncOf_eq epName)
      funext arName' nn'
      by_cases hAt : arName' = arName ∧ nn' = nn
      · obtain ⟨rfl, rfl⟩ := hAt
        exact hSame
      · exact hTouch.recorded_eq hAt epName

theorem ObjectInv.kept (hKeep : KeepsMatches base.lib cluster w event)
    (hGK : wsd.gkToARName.get event.gk = some arName) (hRR : wsd.resources.get arName = some rr)
    (hEp : wsd.placements.get epName = some ep)
    (hRec : recorded wsd.resources epName arName event.change.nn ≠ none) (informers : Informers) :
    ∃ new, event.change.object = some new ∧ matchBits base.lib informers wsd ep.spec rr.gvr.resource new ≠ none := by
  rw [h.bits, hEp, bind_some, selectedBy, hRR, bind_some] at hRec
  cases hOld : (w.stores rr.gvr).objects.get event.change.nn with
  | none => simp [hOld] at hRec
  | some old =>
    rw [hOld, bind_some, matchBits_ne_none_iff] at hRec
    obtain ⟨new, hNew, hMatch⟩ := hKeep wsd arName rr h.space_eq hGK hRR epName ep old hEp hOld hRec
    refine ⟨new, hNew, ?_⟩
    rw [matchBits_of_noNamespaceSelectors base.lib (h.noNamespaceSelectors hEp) informers
      (listers RangeOrder.insertion w.stores) wsd wsd, matchBits_ne_none_iff]
    exact hMatch

omit h

theorem objectStep_of_unwatched (hUnwatched : watchedResource w.wr cluster event.gk = none) :
    objectStep base cluster w event = w := by
  have hStores : changedStores w cluster event = w.stores := by simp only [changedStores, hUnwatched]
  have hState : ∀ env, processCenterObject env w.wr cluster event.gk event.change.nn = (true, w.wr) := by
    intro env
    cases hSpace : w.wr.workspaceDetails.get cluster with
    | none => simp only [processCenterObject, hSpace]
    | some wsd =>
      cases hGK : wsd.gkToARName.get event.gk with
      | none => simp only [processCenterObject, hSpace, hGK]
      | some arName =>
        cases hRR : wsd.resources.get arName with
        | none => simp only [processCenterObject, hSpace, hGK, hRR]
        | some rr => simp [watchedResource, hSpace, hGK, hRR] at hUnwatched
  rw [objectStep, hState, hStores]

theorem changedStores_of_watched (hSpace : w.wr.workspaceDetails.get cluster = some wsd)
    (hGK : wsd.gkToARName.get event.gk = some arName) (hRR : wsd.resources.get arName = some rr) :
    (∀ gvr, gvr ≠ rr.gvr → changedStores w cluster event gvr = w.stores gvr) ∧
    ∀ nn, (changedStores w cluster event rr.gvr).objects.get nn =
      if nn = event.change.nn then event.change.object else (w.stores rr.gvr).objects.get nn := by
  have hStores : changedStores w cluster event =
      Function.update w.stores rr.gvr (event.change.apply (w.stores rr.gvr)) := by
    simp [changedStores, watchedResource, hSpace, hGK, hRR]
  constructor
  · intro gvr hNe
    rw [hStores, Function.update_of_ne hNe]
  · intro nn
    rw [hStores, Function.update_self, ObjectChange.get_apply]

theorem ObjectInv.step_deleted (h : ObjectInv base.lib cluster space w wsd)
    (hKeep : KeepsMatches base.lib cluster w event) (hGK : wsd.gkToARName.get event.gk = some arName)
    (hRR : wsd.resources.get arName = some rr) (hObject : event.change.object = none) :
    ∃ wsd', ObjectInv base.lib cluster space (objectStep base cluster w event) wsd' := by
  obtain ⟨hGVR, hGet⟩ := changedStores_of_watched h.space_eq hGK hRR
  have hAt := hGet event.change.nn
  rw [if_pos rfl, hObject] at hAt
  obtain ⟨wr', wsd', hRun, hSpace, hTouch, hEntry, hLast⟩ :=
    @processCenterObject_notFound Sel (base.withStores cluster event.ord (changedStores w cluster event))
      w.wr cluster event.gk event.change.nn wsd arName rr h.space_eq hGK hRR
      (by rw [informers_withStores, get_listers, hAt])
  have hStep : objectStep base cluster w event = ⟨changedStores w cluster event, wr'⟩ := by
    rw [objectStep, hRun]
  have hNone : ∀ epName, recorded wsd'.resources epName arName event.change.nn = none := by
    intro epName
    rw [recorded, hEntry, bind_none]
  rw [hStep]
  refine ⟨wsd', h.of_touch hRR hTouch hSpace hGVR (fun nn hNe => by rw [hGet, if_neg hNe]) ?_ (fun _ => hEntry) ?_⟩
  · intro epName
    rw [hNone]
    cases hEp : wsd.placements.get epName with
    | none => rfl
    | some ep =>
      rw [bind_some, selectedBy_target (h.noNamespaceSelectors hEp) hRR hTouch
        (listers RangeOrder.insertion w.stores), hAt, bind_none]
  · intro epName ep hEp
    refine .inr ⟨hLast _, ?_⟩
    rw [hNone]
    by_contra hNe
    obtain ⟨new, hNew, _⟩ := h.kept hKeep hGK hRR hEp (Ne.symm hNe) (listers RangeOrder.insertion w.stores)
    rw [hObject] at hNew
    cases hNew

theorem ObjectInv.step_written (h : ObjectInv base.lib cluster space w wsd) {obj : MRObject}
    (hKeep : KeepsMatches base.lib cluster w event) (hGK : wsd.gkToARName.get event.gk = some arName)
    (hRR : wsd.resources.get arName = some rr) (hObject : event.change.object = some obj) :
    ∃ wsd', ObjectInv base.lib cluster space (objectStep base cluster w event) wsd' := by
  obtain ⟨hGVR, hGet⟩ := changedStores_of_watched h.space_eq hGK hRR
  have hAt := hGet event.change.nn
  rw [if_pos rfl, hObject] at hAt
  obtain ⟨wr', wsd', newDetails, hRun, hSpace, hTouch, hNew, hEntry, hPuts⟩ :=
    @processCenterObject_found Sel (base.withStores cluster event.ord (changedStores w cluster event))
      w.wr cluster event.gk event.change.nn wsd arName rr obj h.space_eq hGK hRR
      (h.shape.wellFormed space.wellFormed) (by rw [informers_withStores, get_listers, hAt])
      fun epName ep hEp =>
        (whatMatches_of_noNamespaceSelectors _ (h.noNamespaceSelectors hEp) _ (fun _ => ⟨fun _ => .notFound, []⟩)
          wsd wsd _ obj).2
  have hStep : objectStep base cluster w event = ⟨changedStores w cluster event, wr'⟩ := by
    rw [objectStep, hRun]
  -- bits that are not new are the recorded ones: the guard excludes that they are dropped
  have hSame : ∀ epName, newDetails.placementBits.get epName = none ∨
      newDetails.placementBits.get epName = recorded wsd.resources epName arName event.change.nn →
      newDetails.placementBits.get epName = recorded wsd.resources epName arName event.change.nn := by
    rintro epName (hNone | hEq)
    · by_contra hNe
      rw [hNone] at hNe
      cases hEp : wsd.placements.get epName with
      | none => simp [h.bits, hEp] at hNe
      | some ep =>
        obtain ⟨new, hNew', hMatch⟩ := h.kept hKeep hGK hRR hEp (Ne.symm hNe)
          ((base.withStores cluster event.ord (changedStores w cluster event)).informers cluster)
        rw [hObject] at hNew'
        cases hNew'
        rw [hNew, hEp, bind_some] at hNone
        exact hMatch hNone
    · exact hEq
  have hTarget : ∀ epName, recorded wsd'.resources epName arName event.change.nn =
      newDetails.placementBits.get epName := by
    intro epName
    rcases hEntry with hEntry | ⟨hEntry, hNone⟩
    · rw [recorded, hEntry, bind_some]
    · rw [hSame epName (hNone epName), recorded, hEntry, recorded]
  rw [hStep]
  refine ⟨wsd', h.of_touch hRR hTouch hSpace hGVR (fun nn hNe => by rw [hGet, if_neg hNe]) ?_
    (fun hNone => by rw [hAt] at hNone; cases hNone) ?_⟩
  · intro epName
    rw [hTarget, hNew]
    cases hEp : wsd.placements.get epName with
    | none => rfl
    | some ep =>
      rw [bind_some, bind_some, selectedBy_target (h.noNamespaceSelectors hEp) hRR hTouch
        ((base.withStores cluster event.ord (changedStores w cluster event)).informers cluster), hAt,
        bind_some]
      rfl
  · intro epName ep hEp
    rcases hPuts epName with ⟨hQuiet, hLast⟩ | hCurrent
    · exact .inr ⟨hLast, (hTarget epName).trans (hSame epName hQuiet)⟩
    · exact .inl hCurrent

theorem ObjectInv.step (h : ObjectInv base.lib cluster space w wsd) (event : ObjectEvent)
    (hKeep : KeepsMatches base.lib cluster w event) :
    ∃ wsd', ObjectInv base.lib cluster space (objectStep base cluster w event) wsd' := by
  cases hGK : wsd.gkToARName.get event.gk with
  | none =>
    rw [objectStep_of_unwatched (by simp [watchedResource, h.space_eq, hGK])]
    exact ⟨wsd, h⟩
  | some arName =>
    cases hRR : wsd.resources.get arName with
    | none =>
      rw [objectStep_of_unwatched (by simp [watchedResource, h.space_eq, hGK, hRR])]
      exact ⟨wsd, h⟩
    | some rr =>
      cases hObject : event.change.object with
      | none => exact h.step_deleted hKeep hGK hRR hObject
      | some obj => exact h.step_written hKeep hGK hRR hObject

end KubeStellar.WhatResolver
