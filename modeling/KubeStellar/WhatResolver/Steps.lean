import KubeStellar.WhatResolver.Resolution

/-! # What the pieces of a step do

One specification for each function that the processing of an item is made of: the match of an object
against one EdgePlacement and against all of them, the detection of changes, and the puts.
-/

namespace KubeStellar.WhatResolver

open List

variable {Sel : Type} (ord : RangeOrder) (wr : State Sel) (cluster : String)

/-- The details of a space, none while it is not watched. -/
def detailsOf (wr : State Sel) (cluster : String) : WorkspaceDetails Sel :=
  (wr.workspaceDetails.get cluster).getD ⟨∅, ∅, ∅⟩

theorem detailsOf_eq {wr : State Sel} {cluster : String} {wsd : WorkspaceDetails Sel}
    (hSpace : wr.workspaceDetails.get cluster = some wsd) : detailsOf wr cluster = wsd := by
  rw [detailsOf, hSpace, Option.getD_some]

def lastPut (wr : State Sel) (ref : ExternalName) : Option ResolvedWhat :=
  (wr.received.find? fun put => put.1 = ref).map Prod.snd

theorem lastPut_notifyReceivers (epName : ObjectName) (ref : ExternalName) :
    lastPut (notifyReceivers ord wr cluster epName) ref =
      if ref = ⟨cluster, epName⟩ then some (getPartsLocked ord wr cluster epName) else lastPut wr ref := by
  by_cases hRef : ref = ⟨cluster, epName⟩
  · simp [lastPut, notifyReceivers, hRef]
  · simp [lastPut, notifyReceivers, hRef, Ne.symm hRef]

variable (placements : List ObjectName)

theorem lastPut_notifyReceiversOfPlacements (ref : ExternalName) :
    lastPut (notifyReceiversOfPlacements ord wr cluster placements) ref =
      if ref.cluster = cluster ∧ ref.name ∈ placements then some (getPartsLocked ord wr cluster ref.name)
      else lastPut wr ref := by
  induction placements generalizing wr with
  | nil => simp [notifyReceiversOfPlacements]
  | cons epName rest ih =>
    -- a put leaves the data from which the parts are computed as they are
    have hStep := ih (notifyReceivers ord wr cluster epName)
    rw [show notifyReceiversOfPlacements ord wr cluster (epName :: rest) =
      notifyReceiversOfPlacements ord (notifyReceivers ord wr cluster epName) cluster rest from rfl, hStep,
      lastPut_notifyReceivers]
    have hParts : ∀ name, getPartsLocked ord (notifyReceivers ord wr cluster epName) cluster name =
        getPartsLocked ord wr cluster name := fun _ => rfl
    obtain ⟨refCluster, refName⟩ := ref
    by_cases hCluster : refCluster = cluster
    · by_cases hRest : refName ∈ rest
      · simp [hCluster, hRest, hParts]
      · by_cases hName : refName = epName <;> simp [hCluster, hRest, hName, hParts]
    · simp [hCluster]

@[simp] theorem workspaceDetails_notifyReceiversOfPlacements :
    (notifyReceiversOfPlacements ord wr cluster placements).workspaceDetails = wr.workspaceDetails := by
  induction placements generalizing wr with
  | nil => rfl
  | cons epName rest ih => exact ih (notifyReceivers ord wr cluster epName)

/-- The differences that `processCenterObject` acts on are those of the entries that stay or arrive:
an entry that only the old details have is put by the first enumeration and deleted by the second. -/
theorem get_changedPlacements (newDetails oldDetails : ObjectDetails) (epName : ObjectName) :
    (changedPlacements ord newDetails oldDetails).get epName =
      if newDetails.placementBits.get epName = oldDetails.placementBits.get epName then none
      else newDetails.placementBits.get epName := by
  rw [changedPlacements, get_receiveAll_mapEnumerateDifferences, get_receiveAll_mapEnumerateDifferences]
  by_cases hSame : newDetails.placementBits.get epName = oldDetails.placementBits.get epName
  · simp [hSame]
  · simp [hSame, Ne.symm hSame]

variable {spec : EdgePlacementSpec Sel} {whatResource : String} {whatObj : MRObject}
  (lib : SelectorLibrary Sel) (informers : Informers) (wsd : WorkspaceDetails Sel)

def matchBits (spec : EdgePlacementSpec Sel) (whatResource : String) (whatObj : MRObject) :
    Option DistributionBits :=
  if whatMatches lib informers wsd spec whatResource whatObj = (true, true) then
    some ⟨spec.wantSingletonReportedState, isCreateOnly whatObj⟩
  else none

theorem matchBits_ne_none_iff (spec : EdgePlacementSpec Sel) (whatResource : String) (whatObj : MRObject) :
    matchBits lib informers wsd spec whatResource whatObj ≠ none ↔
      whatMatches lib informers wsd spec whatResource whatObj = (true, true) := by
  unfold matchBits
  split <;> simp [*]

def Computable (spec : EdgePlacementSpec Sel) (whatResource : String) (whatObj : MRObject) : Prop :=
  (whatMatches lib informers wsd spec whatResource whatObj).2 = true

instance (spec : EdgePlacementSpec Sel) (whatResource : String) (whatObj : MRObject) :
    Decidable (Computable lib informers wsd spec whatResource whatObj) :=
  inferInstanceAs (Decidable (_ = true))

theorem computable_iff (spec : EdgePlacementSpec Sel) (whatResource : String) (whatObj : MRObject) :
    Computable lib informers wsd spec whatResource whatObj ↔ objectIsSystem whatObj = true ∨
      (downsyncMatches lib informers wsd spec.downsync whatResource whatObj.group whatObj.objectMeta.ns
        whatObj.objectMeta.name whatObj.objectMeta.labels).2 = true := by
  unfold Computable whatMatches
  dsimp only
  generalize downsyncMatches lib informers wsd spec.downsync whatResource whatObj.group
    whatObj.objectMeta.ns whatObj.objectMeta.name whatObj.objectMeta.labels = answer
  obtain ⟨mtch, ok⟩ := answer
  cases objectIsSystem whatObj <;> cases mtch <;> cases ok <;> simp

variable {lib informers wsd} (od : ObjectDetails)

theorem setByMatch_of_computable (epName : ObjectName)
    (hComp : Computable lib informers wsd spec whatResource whatObj) :
    ∃ od' changed, setByMatch lib informers wsd od spec epName whatResource whatObj = (od', changed, true) ∧
      (∀ name, od'.placementBits.get name =
        if name = epName then matchBits lib informers wsd spec whatResource whatObj
        else od.placementBits.get name) ∧
      (changed = true ↔ od.placementBits.get epName ≠ matchBits lib informers wsd spec whatResource whatObj) := by
  unfold Computable at hComp
  unfold setByMatch matchBits
  generalize whatMatches lib informers wsd spec whatResource whatObj = answer at hComp ⊢
  obtain ⟨objMatch, ok⟩ := answer
  cases hComp
  cases hOld : od.placementBits.get epName with
  | none =>
    cases objMatch with
    | false =>
      refine ⟨od, false, by simp, fun name => ?_, by simp⟩
      by_cases hName : name = epName <;> simp [hName, hOld]
    | true =>
      refine ⟨⟨od.placementBits.put epName ⟨spec.wantSingletonReportedState, isCreateOnly whatObj⟩⟩, true,
        by simp, fun name => ?_, by simp⟩
      by_cases hName : name = epName <;> simp [hName]
  | some old =>
    cases objMatch with
    | false =>
      refine ⟨⟨od.placementBits.delete epName⟩, true, by simp, fun name => ?_, by simp⟩
      by_cases hName : name = epName <;> simp [hName]
    | true =>
      by_cases hBits : old = ⟨spec.wantSingletonReportedState, isCreateOnly whatObj⟩
      · refine ⟨od, false, by simp [hBits], fun name => ?_, by simp [hBits]⟩
        by_cases hName : name = epName <;> simp [hName, hOld, hBits]
      · refine ⟨⟨od.placementBits.put epName ⟨spec.wantSingletonReportedState, isCreateOnly whatObj⟩⟩, true,
          by simp [hBits], fun name => ?_, by simp [hBits]⟩
        by_cases hName : name = epName <;> simp [hName]

theorem setByMatch_of_not_computable (epName : ObjectName)
    (hComp : ¬ Computable lib informers wsd spec whatResource whatObj) :
    setByMatch lib informers wsd od spec epName whatResource whatObj = (od, false, false) := by
  unfold Computable at hComp
  unfold setByMatch
  generalize whatMatches lib informers wsd spec whatResource whatObj = answer at hComp ⊢
  obtain ⟨objMatch, ok⟩ := answer
  cases ok with
  | false => rfl
  | true => exact absurd rfl hComp

theorem foldlM_setByMatch_spec (entries : List (ObjectName × EdgePlacement Sel))
    (hNodup : (entries.map Prod.fst).Nodup)
    (hComp : ∀ entry ∈ entries, Computable lib informers wsd entry.2.spec whatResource whatObj)
    (od : ObjectDetails) : ∃ od', entries.foldlM (matchPlacement lib informers wsd whatResource whatObj) od = some od' ∧
      (∀ entry ∈ entries, od'.placementBits.get entry.1 =
        matchBits lib informers wsd entry.2.spec whatResource whatObj) ∧
      ∀ name ∉ entries.map Prod.fst, od'.placementBits.get name = od.placementBits.get name := by
  induction entries generalizing od with
  | nil => exact ⟨od, rfl, by simp, fun _ _ => rfl⟩
  | cons entry rest ih =>
    rw [map_cons, nodup_cons] at hNodup
    obtain ⟨od₁, changed, hStep, hGet, _⟩ := setByMatch_of_computable od entry.1 (hComp entry mem_cons_self)
    obtain ⟨od', hRun, hMem, hOther⟩ := ih hNodup.2 (fun e he => hComp e (mem_cons_of_mem _ he)) od₁
    refine ⟨od', ?_, ?_, ?_⟩
    · rw [foldlM_cons, matchPlacement, hStep]
      exact hRun
    · intro e he
      rcases mem_cons.mp he with rfl | he
      · rw [hOther e.1 hNodup.1, hGet, if_pos rfl]
      · exact hMem e he
    · intro name hName
      rw [map_cons, mem_cons, not_or] at hName
      rw [hOther name hName.2, hGet, if_neg hName.1]

theorem whatMatchingPlacements_of_computable (candidates : GoMap ObjectName (EdgePlacement Sel))
    (hComp : ∀ epName ep, candidates.get epName = some ep → Computable lib informers wsd ep.spec whatResource whatObj) :
    ∃ od, whatMatchingPlacements lib informers ord wsd candidates whatResource whatObj = some od ∧
      ∀ epName, od.placementBits.get epName = (candidates.get epName).bind fun ep =>
        matchBits lib informers wsd ep.spec whatResource whatObj := by
  obtain ⟨od, hRun, hMem, hOther⟩ := foldlM_setByMatch_spec (ord.visit candidates) (ord.visit_nodup candidates)
    (fun entry he => hComp entry.1 entry.2 ((ord.mem_visit_iff _ _ _).mp he)) newObjectDetails
  refine ⟨od, hRun, fun epName => ?_⟩
  cases hGet : candidates.get epName with
  | some ep => exact hMem (epName, ep) ((ord.mem_visit_iff _ _ _).mpr hGet)
  | none =>
    refine hOther epName ?_
    rw [ord.mem_visit_keys_iff, GoMap.has, hGet]
    simp

end KubeStellar.WhatResolver
