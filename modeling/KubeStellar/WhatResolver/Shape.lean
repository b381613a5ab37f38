import KubeStellar.WhatResolver.World

/-! # What a step leaves alone

The steps change the recorded bits and keep the shape of the resources. Selections and resolutions
depend on that shape only, so what a step does not notify stays up to date if its bits stay.
-/

namespace KubeStellar.WhatResolver

open Option

variable {Sel : Type}

/-- The same resources are known, with the same definers. -/
def SameShape (resources resources' : GoMap String ResourceResolver) : Prop :=
  ∀ arName, (resources.get arName).map (fun rr => (rr.gvr, rr.definers)) =
    (resources'.get arName).map (fun rr => (rr.gvr, rr.definers))

variable {arName : String} {rr : ResourceResolver} {selected : Selection} {partID : WorkloadPartID}
  {details : WorkloadPartDetails} {upsync : List UpsyncSet} {what : ResolvedWhat}

namespace SameShape

variable {resources resources' : GoMap String ResourceResolver} (h : SameShape resources resources')

include h

theorem symm : SameShape resources' resources := fun arName => (h arName).symm

theorem get (hRR : resources.get arName = some rr) :
    ∃ rr', resources'.get arName = some rr' ∧ rr'.gvr = rr.gvr ∧ rr'.definers = rr.definers := by
  have hName := h arName
  rw [hRR, map_some] at hName
  obtain ⟨rr', hRR', hShape⟩ := map_eq_some_iff.mp hName.symm
  obtain ⟨hGVR, hDefiners⟩ := Prod.mk.inj hShape
  exact ⟨rr', hRR', hGVR, hDefiners⟩

theorem get_none (hNone : resources.get arName = none) : resources'.get arName = none := by
  have hName := h arName
  rwa [hNone, map_none, eq_comm, map_eq_none_iff] at hName

theorem wellFormed (hWF : WellFormed resources) : WellFormed resources' := by
  constructor
  · intro arName arName' rr rr' hRR hRR' hSame
    obtain ⟨rr₁, hRR₁, hGVR₁, _⟩ := h.symm.get hRR
    obtain ⟨rr₂, hRR₂, hGVR₂, _⟩ := h.symm.get hRR'
    exact hWF.groupResource_injective arName arName' rr₁ rr₂ hRR₁ hRR₂ (by rw [hGVR₁, hGVR₂, hSame])
  · intro arName rr hRR definer hMem
    obtain ⟨rr₁, hRR₁, _, hDefiners⟩ := h.symm.get hRR
    exact hWF.definer_kind arName rr₁ hRR₁ definer (hDefiners ▸ hMem)

theorem selectedPart (hPart : SelectedPart resources selected partID details) :
    SelectedPart resources' selected partID details := by
  obtain ⟨arName, rr, nn, bits, hRR, hSel, hID, hDetails⟩ := hPart
  obtain ⟨rr', hRR', hGVR, _⟩ := h.get hRR
  exact ⟨arName, rr', nn, bits, hRR', hSel, by rw [hGVR, hID], by rw [hGVR, hDetails]⟩

theorem definerPart (hPart : DefinerPart resources selected partID details) :
    DefinerPart resources' selected partID details := by
  obtain ⟨arName, rr, nn, bits, hRR, hSel, definer, hMem, hRest⟩ := hPart
  obtain ⟨rr', hRR', _, hDefiners⟩ := h.get hRR
  exact ⟨arName, rr', nn, bits, hRR', hSel, definer, hDefiners ▸ hMem, hRest⟩

theorem resolves (hWhat : Resolves resources selected upsync what) : Resolves resources' selected upsync what := by
  refine ⟨hWhat.upsync_eq, fun partID details => (hWhat.downsync_iff partID details).trans ?_⟩
  have hPart : ∀ details, SelectedPart resources selected partID details ↔
      SelectedPart resources' selected partID details := fun _ => ⟨h.selectedPart, h.symm.selectedPart⟩
  have hDefiner : DefinerPart resources selected partID details ↔
      DefinerPart resources' selected partID details := ⟨h.definerPart, h.symm.definerPart⟩
  simp only [hPart, hDefiner]

omit h

theorem put {rr' : ResourceResolver} (hRR : resources.get arName = some rr) (hGVR : rr'.gvr = rr.gvr)
    (hDefiners : rr'.definers = rr.definers) : SameShape resources (resources.put arName rr') := by
  intro name
  rw [GoMap.get_put]
  split
  · rename_i hName
    rw [hName, hRR, map_some, map_some, hGVR, hDefiners]
  · rfl

end SameShape

variable {wsd wsd' : WorkspaceDetails Sel}

theorem namespaceInfo_of_sameShape (informers : Informers) (h : SameShape wsd.resources wsd'.resources)
    (hGK : wsd'.gkToARName = wsd.gkToARName) (objNS : String) :
    namespaceInfo informers wsd objNS = namespaceInfo informers wsd' objNS := by
  unfold namespaceInfo
  rw [hGK]
  split
  · rfl
  · cases hRR : wsd.resources.get (wsd.gkToARName.getD ⟨"", "Namespace"⟩ "") with
    | some nsRR =>
      obtain ⟨nsRR', hRR', hGVR, _⟩ := h.get hRR
      simp only [hRR', hGVR]
    | none =>
      rw [h.get_none hRR]

theorem whatMatches_listers {lib : SelectorLibrary Sel} {stores : Stores} (h : SameShape wsd.resources wsd'.resources)
    (hGK : wsd'.gkToARName = wsd.gkToARName) (ord ord' : RangeOrder) (spec : EdgePlacementSpec Sel)
    (whatResource : String) (obj : MRObject) : whatMatches lib (listers ord stores) wsd spec whatResource obj =
      whatMatches lib (listers ord' stores) wsd' spec whatResource obj :=
  whatMatches_congr lib spec whatResource obj (namespaceInfo_of_sameShape (listers ord stores) h hGK obj.objectMeta.ns)

theorem selectedBy_of_sameShape (lib : SelectorLibrary Sel) (stores : Stores)
    (h : SameShape wsd.resources wsd'.resources) (hGK : wsd'.gkToARName = wsd.gkToARName)
    (spec : EdgePlacementSpec Sel) : selectedBy lib stores wsd spec = selectedBy lib stores wsd' spec := by
  funext arName nn
  unfold selectedBy
  cases hRR : wsd.resources.get arName with
  | some rr =>
    obtain ⟨rr', hRR', hGVR, _⟩ := h.get hRR
    rw [hRR', bind_some, bind_some, hGVR]
    congr 1
    funext obj
    rw [matchBits, matchBits, whatMatches_listers h hGK]
  | none =>
    rw [h.get_none hRR]
    rfl

theorem entryOf_put (resources : GoMap String ResourceResolver) (arName : String) (rr : ResourceResolver)
    (arName' : String) (nn : NamespacedName) :
    entryOf (resources.put arName rr) arName' nn =
      if arName' = arName then rr.byObjName.get nn else entryOf resources arName' nn := by
  unfold entryOf
  rw [GoMap.get_put]
  split <;> rfl

/-- The receiver is up to date with what is recorded for an EdgePlacement: it last got the resolution
of that, or never got anything and nothing is recorded. -/
def PutCurrent (wr : State Sel) (cluster : String) (wsd : WorkspaceDetails Sel) (epName : ObjectName) : Prop :=
  match lastPut wr ⟨cluster, epName⟩ with
  | some what => Resolves wsd.resources (recorded wsd.resources epName) (upsyncOf wsd epName) what
  | none => ∀ arName nn, recorded wsd.resources epName arName nn = none

namespace PutCurrent

variable {wr wr' : State Sel} {cluster : String} {epName : ObjectName}

theorem of_notified {ord : RangeOrder} (hSpace : wr.workspaceDetails.get cluster = some wsd)
    (hWF : WellFormed wsd.resources)
    (hPut : lastPut wr' ⟨cluster, epName⟩ = some (getPartsLocked ord wr cluster epName)) :
    PutCurrent wr' cluster wsd epName := by
  unfold PutCurrent
  rw [hPut]
  exact getPartsLocked_resolves ord wr cluster epName hSpace hWF

theorem of_unchanged (h : PutCurrent wr cluster wsd epName)
    (hPut : lastPut wr' ⟨cluster, epName⟩ = lastPut wr ⟨cluster, epName⟩)
    (hShape : SameShape wsd.resources wsd'.resources)
    (hRec : recorded wsd'.resources epName = recorded wsd.resources epName)
    (hUpsync : upsyncOf wsd' epName = upsyncOf wsd epName) : PutCurrent wr' cluster wsd' epName := by
  unfold PutCurrent at h ⊢
  rw [hPut, hRec, hUpsync]
  cases hLast : lastPut wr ⟨cluster, epName⟩ with
  | none => simpa [hLast] using h
  | some what => exact hShape.resolves (by simpa [hLast] using h)

end PutCurrent

def Held (wr : State Sel) (ref : ExternalName) (partID : WorkloadPartID) : Prop :=
  ∃ what, lastPut wr ref = some what ∧ what.downsync.get partID ≠ none

theorem held_congr {wr wr' : State Sel} {ref : ExternalName} (hLast : lastPut wr' ref = lastPut wr ref)
    (partID : WorkloadPartID) : Held wr' ref partID ↔ Held wr ref partID := by
  rw [Held, Held, hLast]

structure HasRecorded (wr : State Sel) (ref : ExternalName) (resources : GoMap String ResourceResolver) :
    Prop where
  held_of_recorded : ∀ arName rr nn, resources.get arName = some rr →
    recorded resources ref.name arName nn ≠ none → Held wr ref (rr.gvr.groupResource, nn.1, nn.2)
  recorded_of_held : ∀ arName rr nn, resources.get arName = some rr → nn.1 ≠ "" →
    Held wr ref (rr.gvr.groupResource, nn.1, nn.2) → recorded resources ref.name arName nn ≠ none

namespace HasRecorded

variable {wr wr' : State Sel} {ref : ExternalName} {resources resources' : GoMap String ResourceResolver}

theorem of_resolves (hWF : WellFormed resources) (hLast : lastPut wr ref = some what)
    (hWhat : Resolves resources (recorded resources ref.name) upsync what) : HasRecorded wr ref resources := by
  constructor
  · intro arName rr nn hRR hRec
    obtain ⟨bits, hBits⟩ := Option.ne_none_iff_exists'.mp hRec
    have hPart := (hWhat.downsync_iff _ _).mpr (.inl ⟨arName, rr, nn, bits, hRR, hBits, rfl, rfl⟩)
    exact ⟨what, hLast, by simp [hPart]⟩
  · rintro arName rr nn hRR hNS ⟨what', hLast', hHeld⟩
    rw [hLast] at hLast'
    cases hLast'
    obtain ⟨details, hDetails⟩ := Option.ne_none_iff_exists'.mp hHeld
    rcases (hWhat.downsync_iff _ _).mp hDetails with
      ⟨arName', rr', nn', bits, hRR', hBits, hID, _⟩ | ⟨_, _, _, _, _, _, _, _, _, _, hID, _⟩
    · simp only [Prod.mk.injEq] at hID
      have hName := hWF.groupResource_injective arName arName' rr rr' hRR hRR' hID.1
      rw [hName, show nn = nn' from Prod.ext hID.2.1 hID.2.2, hBits]
      simp
    · simp only [Prod.mk.injEq] at hID
      exact absurd hID.2.1 hNS

theorem of_putCurrent {cluster : String} {epName : ObjectName} {wsd : WorkspaceDetails Sel}
    (hWF : WellFormed wsd.resources) (h : PutCurrent wr cluster wsd epName) :
    HasRecorded wr ⟨cluster, epName⟩ wsd.resources := by
  unfold PutCurrent at h
  cases hLast : lastPut wr ⟨cluster, epName⟩ with
  | some what =>
    rw [hLast] at h
    exact of_resolves hWF hLast h
  | none =>
    rw [hLast] at h
    constructor
    · intro arName rr nn _ hRec
      exact absurd (h arName nn) hRec
    · rintro arName rr nn _ _ ⟨what, hWhat, _⟩
      rw [hLast] at hWhat
      cases hWhat

theorem held_iff (h : HasRecorded wr ref resources) {arName : String} {rr : ResourceResolver}
    {nn : NamespacedName} (hRR : resources.get arName = some rr) (hNS : nn.1 ≠ "") :
    Held wr ref (rr.gvr.groupResource, nn.1, nn.2) ↔ recorded resources ref.name arName nn ≠ none :=
  ⟨h.recorded_of_held arName rr nn hRR hNS, h.held_of_recorded arName rr nn hRR⟩

theorem of_unchanged (h : HasRecorded wr ref resources) (hLast : lastPut wr' ref = lastPut wr ref)
    (hShape : SameShape resources resources')
    (hRec : recorded resources' ref.name = recorded resources ref.name) :
    HasRecorded wr' ref resources' := by
  constructor
  · intro arName rr' nn hRR' hNe
    obtain ⟨rr, hRR, hGVR, _⟩ := hShape.symm.get hRR'
    rw [held_congr hLast, ← hGVR]
    exact h.held_of_recorded arName rr nn hRR (hRec ▸ hNe)
  · intro arName rr' nn hRR' hNS hHeld
    obtain ⟨rr, hRR, hGVR, _⟩ := hShape.symm.get hRR'
    rw [held_congr hLast, ← hGVR] at hHeld
    rw [hRec]
    exact h.recorded_of_held arName rr nn hRR hNS hHeld

end HasRecorded

end KubeStellar.WhatResolver
