import KubeStellar.WhatResolver.State

/-! # The resolution of an EdgePlacement

What the receiver should hold for an EdgePlacement, given which objects are selected with which
distribution bits, and the proof that `getPartsLocked` computes it from the recorded bits.
-/

namespace KubeStellar.WhatResolver

open List

abbrev Selection := String → NamespacedName → Option DistributionBits

/-- What the watch of APIResources promises: each resource is known in one version, and the definers
are CustomResourceDefinitions. -/
structure WellFormed (resources : GoMap String ResourceResolver) : Prop where
  groupResource_injective : ∀ arName arName' rr rr', resources.get arName = some rr →
    resources.get arName' = some rr' → rr.gvr.groupResource = rr'.gvr.groupResource → arName = arName'
  definer_kind : ∀ arName rr, resources.get arName = some rr → ∀ definer ∈ rr.definers,
    definer.kind = "CustomResourceDefinition"

variable {resources : GoMap String ResourceResolver}

theorem WellFormed.put (h : WellFormed resources) {arName : String} {rr : ResourceResolver}
    (hNew : ∀ arName' rr', resources.get arName' = some rr' → rr'.gvr.groupResource = rr.gvr.groupResource →
      arName' = arName)
    (hKind : ∀ definer ∈ rr.definers, definer.kind = "CustomResourceDefinition") :
    WellFormed (resources.put arName rr) := by
  constructor
  · intro arName₁ arName₂ rr₁ rr₂ hRR₁ hRR₂ hSame
    rw [GoMap.get_put] at hRR₁ hRR₂
    split at hRR₁ <;> split at hRR₂
    · rename_i hName₁ hName₂
      rw [hName₁, hName₂]
    · rename_i hName₁ _
      cases hRR₁
      rw [hName₁, hNew arName₂ rr₂ hRR₂ hSame.symm]
    · rename_i _ hName₂
      cases hRR₂
      rw [hName₂, hNew arName₁ rr₁ hRR₁ hSame]
    · exact h.groupResource_injective arName₁ arName₂ rr₁ rr₂ hRR₁ hRR₂ hSame
  · exact GoMap.forall_get_put h.definer_kind hKind

section Spec

variable (resources : GoMap String ResourceResolver) (selected : Selection)

def SelectedPart (partID : WorkloadPartID) (details : WorkloadPartDetails) : Prop :=
  ∃ arName rr nn bits, resources.get arName = some rr ∧ selected arName nn = some bits ∧
    partID = (rr.gvr.groupResource, nn.1, nn.2) ∧
    details = ⟨rr.gvr.version, bits.returnSingletonState, bits.createOnly⟩

def DefinerPart (partID : WorkloadPartID) (details : WorkloadPartDetails) : Prop :=
  ∃ arName rr nn bits, resources.get arName = some rr ∧ selected arName nn = some bits ∧
    ∃ definer ∈ rr.definers, definer.kind = "CustomResourceDefinition" ∧
      partID = (⟨"apiextensions.k8s.io", "customresourcedefinitions"⟩, "", definer.name) ∧
      details = ⟨"v1", false, false⟩

structure Resolves (upsync : List UpsyncSet) (what : ResolvedWhat) : Prop where
  upsync_eq : what.upsync = upsync
  downsync_iff : ∀ partID details, what.downsync.get partID = some details ↔
    SelectedPart resources selected partID details ∨
    (∀ details', ¬ SelectedPart resources selected partID details') ∧
      DefinerPart resources selected partID details

end Spec

variable {selected : Selection}

theorem Resolves.downsync_eq_none {upsync : List UpsyncSet} {what : ResolvedWhat}
    (h : Resolves resources selected upsync what) (hNone : ∀ arName nn, selected arName nn = none)
    (partID : WorkloadPartID) : what.downsync.get partID = none := by
  rw [Option.eq_none_iff_forall_not_mem]
  intro details hDetails
  rcases (h.downsync_iff partID details).mp hDetails with
    ⟨arName, rr, nn, bits, _, hSel, _⟩ | ⟨_, arName, rr, nn, bits, _, hSel, _⟩
  · rw [hNone] at hSel
    cases hSel
  · rw [hNone] at hSel
    cases hSel

def entryOf (resources : GoMap String ResourceResolver) (arName : String) (nn : NamespacedName) :
    Option ObjectDetails :=
  (resources.get arName).bind fun rr => rr.byObjName.get nn

def recorded (resources : GoMap String ResourceResolver) (epName : ObjectName) : Selection :=
  fun arName nn => (entryOf resources arName nn).bind fun od => od.placementBits.get epName

theorem recorded_eq_some_iff (resources : GoMap String ResourceResolver) (epName : ObjectName)
    (arName : String) (nn : NamespacedName) (bits : DistributionBits) :
    recorded resources epName arName nn = some bits ↔ ∃ rr od, resources.get arName = some rr ∧
      rr.byObjName.get nn = some od ∧ od.placementBits.get epName = some bits := by
  simp only [recorded, entryOf, Option.bind_eq_some_iff]
  constructor
  · rintro ⟨od, ⟨rr, hRR, hOD⟩, hBits⟩
    exact ⟨rr, od, hRR, hOD, hBits⟩
  · rintro ⟨rr, od, hRR, hOD, hBits⟩
    exact ⟨od, ⟨rr, hRR, hOD⟩, hBits⟩

variable (ord : RangeOrder) (epName : ObjectName) (rr : ResourceResolver) (rrs : List ResourceResolver)
  (acc : WorkloadParts × MapSet Definer) (rr : ResourceResolver)

/-- The part that one entry of `byObjName` contributes. -/
def partOf (entry : NamespacedName × ObjectDetails) : Option (WorkloadPartID × WorkloadPartDetails) :=
  (entry.2.placementBits.get epName).map fun bits =>
    ((rr.gvr.groupResource, entry.1.1, entry.1.2),
      ⟨rr.gvr.version, bits.returnSingletonState, bits.createOnly⟩)

def partsOf : List (WorkloadPartID × WorkloadPartDetails) :=
  (ord.visit rr.byObjName).filterMap (partOf epName rr)

theorem mem_partsOf_iff (part : WorkloadPartID × WorkloadPartDetails) :
    part ∈ partsOf ord epName rr ↔ ∃ nn od bits, rr.byObjName.get nn = some od ∧
      od.placementBits.get epName = some bits ∧
      part = ((rr.gvr.groupResource, nn.1, nn.2), ⟨rr.gvr.version, bits.returnSingletonState, bits.createOnly⟩) := by
  simp only [partsOf, partOf, mem_filterMap, Option.map_eq_some_iff]
  constructor
  · rintro ⟨⟨nn, od⟩, hMem, bits, hBits, rfl⟩
    exact ⟨nn, od, bits, (ord.mem_visit_iff _ _ _).mp hMem, hBits, rfl⟩
  · rintro ⟨nn, od, bits, hOD, hBits, rfl⟩
    exact ⟨(nn, od), (ord.mem_visit_iff _ _ _).mpr hOD, bits, hBits, rfl⟩

theorem foldl_addPart (entries : List (NamespacedName × ObjectDetails)) (acc : WorkloadParts × Bool) :
    entries.foldl (addPart epName rr) acc = (acc.1.putAll (entries.filterMap (partOf epName rr)),
        acc.2 || !(entries.filterMap (partOf epName rr)).isEmpty) := by
  induction entries generalizing acc with
  | nil => simp [GoMap.putAll]
  | cons entry rest ih =>
    rw [foldl_cons, ih]
    cases hBits : entry.2.placementBits.get epName with
    | none =>
      have hPart : partOf epName rr entry = none := by simp [partOf, hBits]
      have hStep : addPart epName rr acc entry = acc := by simp only [addPart, hBits]
      rw [filterMap_cons_none hPart, hStep]
    | some bits =>
      have hPart : partOf epName rr entry = some ((rr.gvr.groupResource, entry.1.1, entry.1.2),
          ⟨rr.gvr.version, bits.returnSingletonState, bits.createOnly⟩) := by simp [partOf, hBits]
      rw [filterMap_cons_some hPart]
      simp [GoMap.putAll, addPart, hBits, WorkloadPartDetails.setDistributionBits]

theorem addResource_eq : addResource ord epName acc rr = (acc.1.putAll (partsOf ord epName rr),
      if partsOf ord epName rr = [] then acc.2 else acc.2.addAll rr.definers) := by
  rw [addResource, foldl_addPart]
  change (acc.1.putAll (partsOf ord epName rr),
    if (false || !(partsOf ord epName rr).isEmpty) = true then acc.2.addAll rr.definers else acc.2) = _
  cases partsOf ord epName rr <;> simp

theorem foldl_addResource_fst :
    (rrs.foldl (addResource ord epName) acc).1 = acc.1.putAll (rrs.flatMap (partsOf ord epName)) := by
  induction rrs generalizing acc with
  | nil => rfl
  | cons rr rest ih =>
    rw [foldl_cons, ih, addResource_eq, flatMap_cons]
    exact foldl_append.symm

theorem has_foldl_addResource_snd_iff (definer : Definer) :
    (rrs.foldl (addResource ord epName) acc).2.has definer = true ↔
      (∃ rr ∈ rrs, partsOf ord epName rr ≠ [] ∧ definer ∈ rr.definers) ∨ acc.2.has definer = true := by
  induction rrs generalizing acc with
  | nil => simp
  | cons rr rest ih =>
    rw [foldl_cons, ih, addResource_eq]
    by_cases hParts : partsOf ord epName rr = []
    · simp [hParts]
    · simp [hParts, MapSet.has_addAll_iff, or_assoc, or_left_comm]

theorem definerKindToPieces_snd_eq {kind kind' : String}
    (h : (definerKindToPieces kind).1 = (definerKindToPieces kind').1) :
    (definerKindToPieces kind).2 = (definerKindToPieces kind').2 := by
  unfold definerKindToPieces at *
  by_cases hKind : kind = "CustomResourceDefinition" <;>
    by_cases hKind' : kind' = "CustomResourceDefinition" <;> simp [hKind, hKind'] at h ⊢

theorem get_foldl_addDefiner_iff (definers : List Definer) (parts : WorkloadParts)
    (partID : WorkloadPartID) (details : WorkloadPartDetails) :
    (definers.foldl addDefiner parts).get partID = some details ↔
      parts.get partID = some details ∨ parts.get partID = none ∧ ∃ definer ∈ definers,
        partID = ((definerKindToPieces definer.kind).1, "", definer.name) ∧
        details = (definerKindToPieces definer.kind).2 := by
  induction definers generalizing parts with
  | nil => simp
  | cons definer rest ih =>
    rw [foldl_cons, ih, addDefiner]
    by_cases hID : partID = ((definerKindToPieces definer.kind).1, "", definer.name)
    · subst hID
      cases hGet : parts.get ((definerKindToPieces definer.kind).1, "", definer.name) with
      | some old => simp [GoMap.has, hGet]
      | none =>
        simp only [GoMap.has, hGet, Option.isSome_none, Bool.false_eq_true, if_false, GoMap.get_put,
          if_true, Option.some.injEq, reduceCtorEq, false_and, or_false, false_or, true_and,
          exists_mem_cons_iff]
        constructor
        · exact fun h => .inl h.symm
        · rintro (h | ⟨definer', _, hSame, h⟩)
          · exact h.symm
          · have hPieces := definerKindToPieces_snd_eq (Prod.mk.inj hSame).1
            exact hPieces.trans h.symm
    · have hKeep : (if parts.has ((definerKindToPieces definer.kind).1, "", definer.name) = true then parts
          else parts.put ((definerKindToPieces definer.kind).1, "", definer.name)
            (definerKindToPieces definer.kind).2).get partID = parts.get partID := by
        split
        · rfl
        · rw [GoMap.get_put, if_neg hID]
      simp only [hKeep, exists_mem_cons_iff, hID, false_and, false_or]

theorem mem_flatMap_partsOf_iff (partID : WorkloadPartID) (details : WorkloadPartDetails) :
    (partID, details) ∈ ((ord.visit resources).map Prod.snd).flatMap (partsOf ord epName) ↔
      SelectedPart resources (recorded resources epName) partID details := by
  simp only [mem_flatMap, mem_map, mem_partsOf_iff, SelectedPart, recorded_eq_some_iff]
  constructor
  · rintro ⟨rr, ⟨⟨arName, rr'⟩, hVisit, rfl⟩, nn, od, bits, hOD, hBits, hPart⟩
    have hRR := (ord.mem_visit_iff _ _ _).mp hVisit
    obtain ⟨hID, hDetails⟩ := Prod.mk.inj hPart
    exact ⟨arName, rr', nn, bits, hRR, ⟨rr', od, hRR, hOD, hBits⟩, hID, hDetails⟩
  · rintro ⟨arName, rr, nn, bits, hRR, ⟨rr', od, hRR', hOD, hBits⟩, hID, hDetails⟩
    rw [hRR] at hRR'
    cases hRR'
    exact ⟨rr, ⟨(arName, rr), (ord.mem_visit_iff _ _ _).mpr hRR, rfl⟩, nn, od, bits, hOD, hBits, by rw [hID, hDetails]⟩

theorem SelectedPart.details_unique (hWF : WellFormed resources) {partID : WorkloadPartID}
    {details details' : WorkloadPartDetails} (h : SelectedPart resources selected partID details)
    (h' : SelectedPart resources selected partID details') : details = details' := by
  obtain ⟨arName, rr, nn, bits, hRR, hSel, rfl, rfl⟩ := h
  obtain ⟨arName', rr', nn', bits', hRR', hSel', hID, rfl⟩ := h'
  simp only [Prod.mk.injEq] at hID
  have hName := hWF.groupResource_injective arName arName' rr rr' hRR hRR' hID.1
  have hNN : nn = nn' := Prod.ext hID.2.1 hID.2.2
  subst hName hNN
  rw [hRR] at hRR'
  rw [hSel] at hSel'
  cases hRR'
  cases hSel'
  rfl

theorem partsOf_ne_nil_iff : partsOf ord epName rr ≠ [] ↔ ∃ nn od bits, rr.byObjName.get nn = some od ∧
      od.placementBits.get epName = some bits := by
  constructor
  · intro h
    obtain ⟨part, hPart⟩ := exists_mem_of_ne_nil _ h
    obtain ⟨nn, od, bits, hOD, hBits, _⟩ := (mem_partsOf_iff ord epName rr part).mp hPart
    exact ⟨nn, od, bits, hOD, hBits⟩
  · rintro ⟨nn, od, bits, hOD, hBits⟩
    exact ne_nil_of_mem ((mem_partsOf_iff ord epName rr _).mpr ⟨nn, od, bits, hOD, hBits, rfl⟩)

theorem has_collected_definer_iff (definer : Definer) :
    (((ord.visit resources).map Prod.snd).foldl (addResource ord epName) (∅, ∅)).2.has definer = true ↔
      ∃ arName rr nn bits, resources.get arName = some rr ∧
        recorded resources epName arName nn = some bits ∧ definer ∈ rr.definers := by
  rw [has_foldl_addResource_snd_iff]
  simp only [mem_map, partsOf_ne_nil_iff, recorded_eq_some_iff]
  constructor
  · rintro (⟨rr, ⟨⟨arName, rr'⟩, hVisit, rfl⟩, ⟨nn, od, bits, hOD, hBits⟩, hMem⟩ | h)
    · have hRR := (ord.mem_visit_iff _ _ _).mp hVisit
      exact ⟨arName, rr', nn, bits, hRR, ⟨rr', od, hRR, hOD, hBits⟩, hMem⟩
    · cases h
  · rintro ⟨arName, rr, nn, bits, hRR, ⟨rr', od, hRR', hOD, hBits⟩, hMem⟩
    rw [hRR] at hRR'
    cases hRR'
    exact .inl ⟨rr, ⟨(arName, rr), (ord.mem_visit_iff _ _ _).mpr hRR, rfl⟩, ⟨nn, od, bits, hOD, hBits⟩, hMem⟩

def upsyncOf {Sel : Type} (wsd : WorkspaceDetails Sel) (epName : ObjectName) : List UpsyncSet :=
  match wsd.placements.get epName with
  | some ep => ep.spec.upsync
  | none => []

theorem getPartsLocked_resolves {Sel : Type} (ord : RangeOrder) (wr : State Sel) (cluster : String)
    (epName : ObjectName) {wsd : WorkspaceDetails Sel} (hSpace : wr.workspaceDetails.get cluster = some wsd)
    (hWF : WellFormed wsd.resources) :
    Resolves wsd.resources (recorded wsd.resources epName) (upsyncOf wsd epName)
      (getPartsLocked ord wr cluster epName) := by
  unfold getPartsLocked
  rw [hSpace]
  refine ⟨rfl, fun partID details => ?_⟩
  have hParts : ∀ details, (GoMap.putAll ∅ (((ord.visit wsd.resources).map Prod.snd).flatMap
      (partsOf ord epName))).get partID = some details ↔
      SelectedPart wsd.resources (recorded wsd.resources epName) partID details := by
    intro details
    rw [GoMap.get_putAll_empty_iff, mem_flatMap_partsOf_iff]
    intro id d d' hd hd'
    rw [mem_flatMap_partsOf_iff] at hd hd'
    exact hd.details_unique hWF hd'
  have hNone : (GoMap.putAll ∅ (((ord.visit wsd.resources).map Prod.snd).flatMap
      (partsOf ord epName))).get partID = none ↔
      ∀ details, ¬ SelectedPart wsd.resources (recorded wsd.resources epName) partID details := by
    simp only [Option.eq_none_iff_forall_not_mem, Option.mem_def, hParts]
  have hDefiners : ∀ definer, definer ∈ (ord.visit (((ord.visit wsd.resources).map Prod.snd).foldl
      (addResource ord epName) (∅, ∅)).2).map Prod.fst ↔ ∃ arName rr nn bits,
      wsd.resources.get arName = some rr ∧ recorded wsd.resources epName arName nn = some bits ∧
        definer ∈ rr.definers := by
    intro definer
    rw [ord.mem_visit_keys_iff, has_collected_definer_iff]
  simp only [get_foldl_addDefiner_iff, foldl_addResource_fst, hParts, hNone, hDefiners]
  refine or_congr_right (and_congr_right fun _ => ?_)
  constructor
  · rintro ⟨definer, ⟨arName, rr, nn, bits, hRR, hRec, hMem⟩, hID, hDetails⟩
    have hKind := hWF.definer_kind arName rr hRR definer hMem
    rw [hKind] at hID hDetails
    exact ⟨arName, rr, nn, bits, hRR, hRec, definer, hMem, hKind, hID, hDetails⟩
  · rintro ⟨arName, rr, nn, bits, hRR, hRec, definer, hMem, hKind, hID, hDetails⟩
    refine ⟨definer, ⟨arName, rr, nn, bits, hRR, hRec, hMem⟩, ?_, ?_⟩ <;> rw [hKind]
    · exact hID
    · exact hDetails

end KubeStellar.WhatResolver
