import KubeStellar.WhatResolver.Process
import KubeStellar.WhatResolver.Shape

/-! # The processing of an EdgePlacement that exists

The two nested loops of `processEdgePlacement` set the bits of the EdgePlacement for every object whose match can be
computed, and all other bits stay. What follows for the state and the receiver depends on whether the downsync list is
new.
-/

namespace KubeStellar.WhatResolver

open List

def bitsIn (rr : ResourceResolver) (epName : ObjectName) (nn : NamespacedName) : Option DistributionBits :=
  (rr.byObjName.get nn).bind fun od => od.placementBits.get epName

variable {resources : GoMap String ResourceResolver} {arName : String} {rr : ResourceResolver}

theorem recorded_of_get (hRR : resources.get arName = some rr) (epName : ObjectName) (nn : NamespacedName) :
    recorded resources epName arName nn = bitsIn rr epName nn := by
  rw [recorded, entryOf, hRR, Option.bind_some, bitsIn]

variable {Sel : Type} (env : Env Sel) (spaceID : String) (wsd : WorkspaceDetails Sel)
  (spec : EdgePlacementSpec Sel) (epName : ObjectName)

def rematched (whatResource : String) (obj : MRObject) (old : Option DistributionBits) : Option DistributionBits :=
  if Computable env.lib (env.informers spaceID) wsd spec whatResource obj then
    matchBits env.lib (env.informers spaceID) wsd spec whatResource obj
  else old

structure Rematched (objs : List MRObject) (rr rr' : ResourceResolver) : Prop where
  gvr_eq : rr'.gvr = rr.gvr
  definers_eq : rr'.definers = rr.definers
  others : ∀ name, name ≠ epName → ∀ nn, bitsIn rr' name nn = bitsIn rr name nn
  listed : ∀ obj ∈ objs, bitsIn rr' epName obj.nn =
    rematched env spaceID wsd spec rr.gvr.resource obj (bitsIn rr epName obj.nn)
  unlisted : ∀ nn, nn ∉ objs.map MRObject.nn → bitsIn rr' epName nn = bitsIn rr epName nn

variable {env spaceID wsd spec epName}

theorem matchObject_spec (rr : ResourceResolver) (anyChange completeSuccess : Bool) (obj : MRObject) :
    ∃ rr' anyChange' completeSuccess', matchObject env spaceID wsd spec epName (rr, anyChange, completeSuccess) obj =
        (rr', anyChange', completeSuccess') ∧
      Rematched env spaceID wsd spec epName [obj] rr rr' ∧
      (anyChange' = true ↔ anyChange = true ∨ bitsIn rr' epName obj.nn ≠ bitsIn rr epName obj.nn) ∧
      (completeSuccess' = true ↔ completeSuccess = true ∧
        Computable env.lib (env.informers spaceID) wsd spec rr.gvr.resource obj) := by
  by_cases hComp : Computable env.lib (env.informers spaceID) wsd spec rr.gvr.resource obj
  · obtain ⟨od, changed, hSet, hGet, hChanged⟩ := setByMatch_of_computable
      ((rr.byObjName.get obj.nn).getD newObjectDetails) epName hComp
    have hOld : ∀ name, ((rr.byObjName.get obj.nn).getD newObjectDetails).placementBits.get name =
        bitsIn rr name obj.nn := by
      intro name
      unfold bitsIn
      cases rr.byObjName.get obj.nn <;> rfl
    rw [hOld] at hChanged
    simp only [hOld] at hGet
    let rr' := { rr with byObjName :=
      if (rr.byObjName.has obj.nn || changed) = true then rr.byObjName.put obj.nn od else rr.byObjName }
    have hBits : ∀ name nn, bitsIn rr' name nn = if name = epName ∧ nn = obj.nn then
        matchBits env.lib (env.informers spaceID) wsd spec rr.gvr.resource obj else bitsIn rr name nn := by
      intro name nn
      by_cases hNN : nn = obj.nn
      · subst hNN
        by_cases hPut : (rr.byObjName.has obj.nn || changed) = true
        · have hEntry : bitsIn rr' name obj.nn = od.placementBits.get name := by
            simp [bitsIn, rr', hPut]
          simp [hEntry, hGet]
        · rw [Bool.not_eq_true, Bool.or_eq_false_iff] at hPut
          have hKeep : bitsIn rr' name obj.nn = bitsIn rr name obj.nn := by simp [bitsIn, rr', hPut]
          have hSame : bitsIn rr epName obj.nn =
              matchBits env.lib (env.informers spaceID) wsd spec rr.gvr.resource obj := by
            by_contra hNe
            rw [hChanged.mpr hNe] at hPut
            cases hPut.2
          rw [hKeep]
          by_cases hName : name = epName <;> simp [hName, hSame]
      · have hKeep : bitsIn rr' name nn = bitsIn rr name nn := by
          simp only [bitsIn, rr']
          split <;> simp [hNN]
        simp [hKeep, hNN]
    refine ⟨rr', anyChange || changed, completeSuccess, ?_, ⟨rfl, rfl, ?_, ?_, ?_⟩, ?_, by simp [hComp]⟩
    · simp only [matchObject, hSet, rr']
    · intro name hName nn
      simp [hBits, hName]
    · intro o ho
      rw [mem_singleton.mp ho, hBits, rematched, if_pos hComp, if_pos ⟨rfl, rfl⟩]
    · intro nn hNN
      have hNe : nn ≠ obj.nn := by simpa using hNN
      simp [hBits, hNe]
    · rw [Bool.or_eq_true, hChanged, hBits, if_pos ⟨rfl, rfl⟩, ne_comm]
  · have hSet := setByMatch_of_not_computable ((rr.byObjName.get obj.nn).getD newObjectDetails) epName hComp
    refine ⟨rr, anyChange, false, by simp only [matchObject, hSet], ⟨rfl, rfl, fun _ _ _ => rfl, ?_, fun _ _ => rfl⟩,
      by simp, by simp [hComp]⟩
    intro o ho
    rw [mem_singleton.mp ho, rematched, if_neg hComp]

theorem foldl_matchObject_spec (objs : List MRObject) (hNodup : (objs.map MRObject.nn).Nodup)
    (rr : ResourceResolver) (anyChange completeSuccess : Bool) :
    ∃ rr' anyChange' completeSuccess',
      objs.foldl (matchObject env spaceID wsd spec epName) (rr, anyChange, completeSuccess) =
        (rr', anyChange', completeSuccess') ∧
      Rematched env spaceID wsd spec epName objs rr rr' ∧
      (anyChange' = true ↔ anyChange = true ∨ ∃ nn, bitsIn rr' epName nn ≠ bitsIn rr epName nn) ∧
      (completeSuccess' = true ↔ completeSuccess = true ∧ ∀ obj ∈ objs,
        Computable env.lib (env.informers spaceID) wsd spec rr.gvr.resource obj) := by
  induction objs generalizing rr anyChange completeSuccess with
  | nil =>
    exact ⟨rr, anyChange, completeSuccess, rfl,
      ⟨rfl, rfl, fun _ _ _ => rfl, by simp, fun _ _ => rfl⟩, by simp, by simp⟩
  | cons obj rest ih =>
    rw [map_cons, nodup_cons] at hNodup
    obtain ⟨rr₁, change₁, success₁, hStep, h₁, hChange₁, hSuccess₁⟩ :=
      @matchObject_spec Sel env spaceID wsd spec epName rr anyChange completeSuccess obj
    obtain ⟨rr₂, change₂, success₂, hRest, h₂, hChange₂, hSuccess₂⟩ := ih hNodup.2 rr₁ change₁ success₁
    have hHead : bitsIn rr₂ epName obj.nn = bitsIn rr₁ epName obj.nn := h₂.unlisted obj.nn hNodup.1
    have hTail : ∀ nn, nn ≠ obj.nn → bitsIn rr₁ epName nn = bitsIn rr epName nn := fun nn hNe =>
      h₁.unlisted nn (by simpa using hNe)
    refine ⟨rr₂, change₂, success₂, by rw [foldl_cons, hStep, hRest], ⟨?_, ?_, ?_, ?_, ?_⟩, ?_, ?_⟩
    · rw [h₂.gvr_eq, h₁.gvr_eq]
    · rw [h₂.definers_eq, h₁.definers_eq]
    · intro name hName nn
      rw [h₂.others name hName, h₁.others name hName]
    · intro o ho
      rcases mem_cons.mp ho with rfl | ho
      · rw [hHead]
        exact h₁.listed o (mem_singleton_self o)
      · have hNe : o.nn ≠ obj.nn := fun hEq => hNodup.1 (hEq ▸ mem_map_of_mem ho)
        rw [h₂.listed o ho, h₁.gvr_eq, hTail o.nn hNe]
    · intro nn hNN
      rw [map_cons, mem_cons, not_or] at hNN
      rw [h₂.unlisted nn hNN.2, hTail nn hNN.1]
    · rw [hChange₂, hChange₁, or_assoc]
      refine or_congr_right ⟨?_, ?_⟩
      · rintro (hNe | ⟨nn, hNe⟩)
        · exact ⟨obj.nn, by rwa [hHead]⟩
        · by_cases hNN : nn = obj.nn
          · exact absurd (by rw [hNN, hHead]) hNe
          · exact ⟨nn, by rwa [← hTail nn hNN]⟩
      · rintro ⟨nn, hNe⟩
        by_cases hNN : nn = obj.nn
        · rw [hNN, hHead] at hNe
          exact .inl hNe
        · exact .inr ⟨nn, by rwa [hTail nn hNN]⟩
    · rw [hSuccess₂, hSuccess₁, h₁.gvr_eq, forall_mem_cons, and_assoc]

theorem foldl_matchResource_spec (entries : List (String × ResourceResolver)) (hKeys : (entries.map Prod.fst).Nodup)
    (hNodup : ∀ entry ∈ entries, ((env.informers spaceID entry.2.gvr).list.map MRObject.nn).Nodup)
    (resources : GoMap String ResourceResolver) (anyChange completeSuccess : Bool) :
    ∃ resources' anyChange' completeSuccess',
      entries.foldl (matchResource env spaceID wsd spec epName) (resources, anyChange, completeSuccess) =
        (resources', anyChange', completeSuccess') ∧
      (∀ arName ∉ entries.map Prod.fst, resources'.get arName = resources.get arName) ∧
      (∀ entry ∈ entries, ∃ rr', resources'.get entry.1 = some rr' ∧
        Rematched env spaceID wsd spec epName (env.informers spaceID entry.2.gvr).list entry.2 rr') ∧
      (anyChange' = true ↔ anyChange = true ∨ ∃ entry ∈ entries, ∃ nn,
        recorded resources' epName entry.1 nn ≠ bitsIn entry.2 epName nn) ∧
      (completeSuccess' = true ↔ completeSuccess = true ∧ ∀ entry ∈ entries,
        ∀ obj ∈ (env.informers spaceID entry.2.gvr).list,
          Computable env.lib (env.informers spaceID) wsd spec entry.2.gvr.resource obj) := by
  induction entries generalizing resources anyChange completeSuccess with
  | nil => exact ⟨resources, anyChange, completeSuccess, rfl, fun _ _ => rfl, by simp, by simp, by simp⟩
  | cons entry rest ih =>
    rw [map_cons, nodup_cons] at hKeys
    obtain ⟨rr', change₁, success₁, hInner, hRematched, hChange₁, hSuccess₁⟩ :=
      foldl_matchObject_spec _ (hNodup entry mem_cons_self) entry.2 anyChange completeSuccess
    obtain ⟨resources₂, change₂, success₂, hRest, hOther, hEach, hChange₂, hSuccess₂⟩ :=
      ih hKeys.2 (fun e he => hNodup e (mem_cons_of_mem _ he)) (resources.put entry.1 rr') change₁ success₁
    have hHead : resources₂.get entry.1 = some rr' := by rw [hOther entry.1 hKeys.1]; simp
    refine ⟨resources₂, change₂, success₂, ?_, ?_, ?_, ?_, ?_⟩
    · rw [foldl_cons, matchResource, hInner, hRest]
    · intro arName hName
      rw [map_cons, mem_cons, not_or] at hName
      rw [hOther arName hName.2, GoMap.get_put, if_neg hName.1]
    · intro e he
      rcases mem_cons.mp he with rfl | he
      · exact ⟨rr', hHead, hRematched⟩
      · exact hEach e he
    · rw [hChange₂, hChange₁, or_assoc, exists_mem_cons_iff]
      simp only [recorded_of_get hHead]
    · rw [hSuccess₂, hSuccess₁, forall_mem_cons, and_assoc]

/-- What the loops do: the shape and the bits of the other EdgePlacements stay, the bits of the one are
set for the listed objects, and the two flags tell whether any bits changed and whether every match could
be computed. -/
theorem matchResources_spec (hNodup : ∀ arName rr, wsd.resources.get arName = some rr →
      ((env.informers spaceID rr.gvr).list.map MRObject.nn).Nodup) :
    ∃ resources' anyChange completeSuccess,
      matchResources env spaceID wsd spec epName = (resources', anyChange, completeSuccess) ∧
      SameShape wsd.resources resources' ∧
      (∀ arName rr, wsd.resources.get arName = some rr → ∃ rr', resources'.get arName = some rr' ∧
        Rematched env spaceID wsd spec epName (env.informers spaceID rr.gvr).list rr rr') ∧
      (anyChange = true ↔ recorded resources' epName ≠ recorded wsd.resources epName) ∧
      (completeSuccess = true ↔ ∀ arName rr, wsd.resources.get arName = some rr →
        ∀ obj ∈ (env.informers spaceID rr.gvr).list,
          Computable env.lib (env.informers spaceID) wsd spec rr.gvr.resource obj) := by
  have hVisit := fun arName rr => env.ord.mem_visit_iff wsd.resources arName rr
  obtain ⟨resources', anyChange, completeSuccess, hRun, hOther, hEach, hChange, hSuccess⟩ :=
    @foldl_matchResource_spec Sel env spaceID wsd spec epName (env.ord.visit wsd.resources)
      (env.ord.visit_nodup wsd.resources)
      (fun entry he => hNodup entry.1 entry.2 ((hVisit entry.1 entry.2).mp he)) wsd.resources false true
  have hNone : ∀ arName, wsd.resources.get arName = none → resources'.get arName = none := by
    intro arName hGet
    rw [hOther arName (by rw [env.ord.mem_visit_keys_iff, GoMap.has, hGet]; simp), hGet]
  have hSome : ∀ arName rr, wsd.resources.get arName = some rr → ∃ rr', resources'.get arName = some rr' ∧
      Rematched env spaceID wsd spec epName (env.informers spaceID rr.gvr).list rr rr' :=
    fun arName rr hRR => hEach (arName, rr) ((hVisit arName rr).mpr hRR)
  refine ⟨resources', anyChange, completeSuccess, hRun, ?_, hSome, ?_, ?_⟩
  · intro arName
    cases hRR : wsd.resources.get arName with
    | none => rw [hNone arName hRR]
    | some rr =>
      obtain ⟨rr', hRR', hRematched⟩ := hSome arName rr hRR
      rw [hRR', Option.map_some, Option.map_some, hRematched.gvr_eq, hRematched.definers_eq]
  · rw [hChange]
    constructor
    · rintro (hFalse | ⟨entry, he, nn, hNe⟩) hEq
      · cases hFalse
      · rw [hEq, recorded_of_get ((hVisit entry.1 entry.2).mp he)] at hNe
        exact hNe rfl
    · intro hNe
      obtain ⟨arName, hNe⟩ := Function.ne_iff.mp hNe
      obtain ⟨nn, hNe⟩ := Function.ne_iff.mp hNe
      cases hRR : wsd.resources.get arName with
      | none =>
        refine absurd ?_ hNe
        rw [recorded, recorded, entryOf, entryOf, hRR, hNone arName hRR]
      | some rr =>
        rw [recorded_of_get hRR] at hNe
        exact .inr ⟨(arName, rr), (hVisit arName rr).mpr hRR, nn, hNe⟩
  · rw [hSuccess]
    simp only [true_and, Prod.forall, hVisit]

variable {resources' : GoMap String ResourceResolver}

theorem recorded_of_rematched {ord : RangeOrder} {stores : Stores} (hInf : env.informers spaceID = listers ord stores)
    (hEach : ∀ arName rr, resources.get arName = some rr → ∃ rr', resources'.get arName = some rr' ∧
      Rematched env spaceID wsd spec epName (env.informers spaceID rr.gvr).list rr rr')
    (hRR : resources.get arName = some rr) (nn : NamespacedName) :
    recorded resources' epName arName nn = match (stores rr.gvr).objects.get nn with
      | none => recorded resources epName arName nn
      | some obj => rematched env spaceID wsd spec rr.gvr.resource obj
          (recorded resources epName arName nn) := by
  obtain ⟨rr', hRR', hRematched⟩ := hEach arName rr hRR
  rw [recorded_of_get hRR', recorded_of_get hRR]
  rw [hInf] at hRematched
  cases hObj : (stores rr.gvr).objects.get nn with
  | none =>
    refine hRematched.unlisted nn fun hMem => ?_
    obtain ⟨obj, hListed, rfl⟩ := mem_map.mp hMem
    rw [(mem_list_listers_iff ord stores rr.gvr obj).mp hListed] at hObj
    cases hObj
  | some obj =>
    have hNN := (stores rr.gvr).keyed nn obj hObj
    have hListed : obj ∈ (listers ord stores rr.gvr).list := by rw [mem_list_listers_iff, hNN, hObj]
    have hBits := hRematched.listed obj hListed
    rw [hNN] at hBits
    exact hBits

theorem recorded_other_of_rematched (hShape : SameShape resources resources')
    (hEach : ∀ arName rr, resources.get arName = some rr → ∃ rr', resources'.get arName = some rr' ∧
      Rematched env spaceID wsd spec epName (env.informers spaceID rr.gvr).list rr rr')
    {name : ObjectName} (hName : name ≠ epName) : recorded resources' name = recorded resources name := by
  funext arName nn
  cases hRR : resources.get arName with
  | none => rw [recorded, recorded, entryOf, entryOf, hRR, hShape.get_none hRR]
  | some rr =>
    obtain ⟨rr', hRR', hRematched⟩ := hEach arName rr hRR
    rw [recorded_of_get hRR', recorded_of_get hRR, hRematched.others name hName]

open Kbuser

variable (wsd : WorkspaceDetails Sel)

def withPlacement (epName : ObjectName) (ep : EdgePlacement Sel) : WorkspaceDetails Sel :=
  { wsd with placements := wsd.placements.put epName ep }

theorem upsyncOf_withPlacement (epName : ObjectName) (ep : EdgePlacement Sel)
    (name : ObjectName) : upsyncOf (withPlacement wsd epName ep) name =
      if name = epName then ep.spec.upsync else upsyncOf wsd name := by
  unfold upsyncOf withPlacement
  by_cases hName : name = epName <;> simp [hName]

variable [DecidableEq Sel] {env : Env Sel} {wr : State Sel} {cluster : String}
  {wsd : WorkspaceDetails Sel} {epName : ObjectName} {ep : EdgePlacement Sel}

theorem resolveEdgePlacement_same {prevEp : EdgePlacement Sel}
    (hPrev : wsd.placements.get epName = some prevEp) (hSame : prevEp.spec.downsync = ep.spec.downsync) :
    ∃ wr', resolveEdgePlacement env wr cluster wsd epName ep = (true, wr') ∧
      wr'.workspaceDetails.get cluster = some (withPlacement wsd epName ep) ∧
      ∀ ref, lastPut wr' ref = lastPut wr ref := by
  refine ⟨{ wr with workspaceDetails := wr.workspaceDetails.put cluster (withPlacement wsd epName ep) },
    ?_, by simp, fun _ => rfl⟩
  simp [resolveEdgePlacement, withPlacement, hPrev, hSame]

theorem resolveEdgePlacement_new
    (hPrev : ∀ prevEp, wsd.placements.get epName = some prevEp → prevEp.spec.downsync ≠ ep.spec.downsync)
    (hWF : WellFormed wsd.resources)
    (hNodup : ∀ arName rr, wsd.resources.get arName = some rr →
      ((env.informers cluster rr.gvr).list.map MRObject.nn).Nodup) :
    ∃ success wr' resources', resolveEdgePlacement env wr cluster wsd epName ep = (success, wr') ∧
      wr'.workspaceDetails.get cluster = some ⟨wsd.placements.put epName ep, resources', wsd.gkToARName⟩ ∧
      SameShape wsd.resources resources' ∧
      (∀ arName rr, wsd.resources.get arName = some rr → ∃ rr', resources'.get arName = some rr' ∧
        Rematched env cluster (withPlacement wsd epName ep) ep.spec epName
          (env.informers cluster rr.gvr).list rr rr') ∧
      (success = true ↔ ∀ arName rr, wsd.resources.get arName = some rr →
        ∀ obj ∈ (env.informers cluster rr.gvr).list, Computable env.lib (env.informers cluster)
          (withPlacement wsd epName ep) ep.spec rr.gvr.resource obj) ∧
      (∀ ref, ref ≠ ⟨cluster, epName⟩ → lastPut wr' ref = lastPut wr ref) ∧
      (recorded resources' epName = recorded wsd.resources epName ∧
          lastPut wr' ⟨cluster, epName⟩ = lastPut wr ⟨cluster, epName⟩ ∨
        ∃ what, lastPut wr' ⟨cluster, epName⟩ = some what ∧
          Resolves resources' (recorded resources' epName) ep.spec.upsync what) := by
  obtain ⟨resources', anyChange, success, hRun, hShape, hEach, hChange, hSuccess⟩ :=
    @matchResources_spec Sel env cluster (withPlacement wsd epName ep) ep.spec epName hNodup
  have hNew : (wsd.placements.get epName).any (fun prevEp => prevEp.spec.downsync = ep.spec.downsync) =
      false := by
    cases hGet : wsd.placements.get epName with
    | none => rfl
    | some prevEp => simpa using hPrev prevEp hGet
  let wsd' : WorkspaceDetails Sel := ⟨wsd.placements.put epName ep, resources', wsd.gkToARName⟩
  let wr₁ : State Sel :=
    ⟨(wr.workspaceDetails.put cluster (withPlacement wsd epName ep)).put cluster wsd', wr.received⟩
  have hSpace : wr₁.workspaceDetails.get cluster = some wsd' := by simp [wr₁]
  have hResolve : resolveEdgePlacement env wr cluster wsd epName ep =
      (success, if anyChange then notifyReceivers env.ord wr₁ cluster epName else wr₁) := by
    unfold withPlacement at hRun
    simp only [resolveEdgePlacement, hNew, hRun]
    rfl
  cases hAny : anyChange with
  | false =>
    rw [hAny] at hResolve hChange
    have hSame : recorded resources' epName = recorded wsd.resources epName :=
      not_not.mp fun hNe => Bool.false_ne_true (hChange.mpr hNe)
    exact ⟨success, wr₁, resources', hResolve, hSpace, hShape, hEach, hSuccess, fun _ _ => rfl, .inl ⟨hSame, rfl⟩⟩
  | true =>
    rw [hAny] at hResolve
    refine ⟨success, notifyReceivers env.ord wr₁ cluster epName, resources', hResolve, hSpace, hShape, hEach,
      hSuccess, fun ref hRef => ?_, .inr ⟨getPartsLocked env.ord wr₁ cluster epName, ?_, ?_⟩⟩
    · rw [lastPut_notifyReceivers, if_neg hRef]
      rfl
    · rw [lastPut_notifyReceivers, if_pos rfl]
    · have hResolves := getPartsLocked_resolves env.ord wr₁ cluster epName hSpace (hShape.wellFormed hWF)
      rwa [upsyncOf, show wsd'.placements.get epName = some ep by simp [wsd']] at hResolves

theorem processEdgePlacement_found {name kbSpaceID : String} (hLister : env.edgePlacementLister name = .found ep)
    (hAnalyzed : analyzeClusterScopedObject (some ep.objectMeta) = .ok (.ok (epName, kbSpaceID)))
    (hCluster : env.spaceIDFromKubeBind kbSpaceID = cluster) (hNamed : cluster ≠ "")
    (hClients : wr.workspaceDetails.get cluster = none → env.clients cluster = ⟨true, true, true, true⟩) :
    ∃ wr₁, wr₁.received = wr.received ∧ processEdgePlacement env wr name =
      .ok (resolveEdgePlacement env wr₁ cluster (detailsOf wr cluster) epName ep) := by
  cases hSpace : wr.workspaceDetails.get cluster with
  | none =>
    refine ⟨{ wr with workspaceDetails := wr.workspaceDetails.put cluster ⟨∅, ∅, ∅⟩ }, rfl, ?_⟩
    simp [processEdgePlacement, hLister, hAnalyzed, hCluster, hNamed, hSpace, hClients hSpace, detailsOf, pure,
      Except.pure, bind, Except.bind]
  | some wsd =>
    refine ⟨wr, rfl, ?_⟩
    simp [processEdgePlacement, hLister, hAnalyzed, hCluster, hNamed, hSpace, detailsOf, pure, Except.pure,
      bind, Except.bind]

end KubeStellar.WhatResolver
