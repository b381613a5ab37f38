import KubeStellar.WorkloadProjector.Retries

/-! # How copying an object ends

The work for one destination breaks down, or ends with or without a call that failed and with or without a
retry. Which of these it does is said here in terms of what it has been given, stage by stage.
-/

namespace KubeStellar.WorkloadProjector

open Option

def ObjectCall.tolerates {J : Type} : ObjectCall J → ApiError → Bool
  | .get .., .notFound => true
  | .getCustomizer .., .notFound => true
  | .getLocation .., .notFound => true
  | .delete .., .notFound => true
  | .createNamespace .., .alreadyExists => true
  | _, _ => false

structure Outcome where
  breaks : Prop
  fails : Prop
  retries : Prop

variable {J : Type} {calls : List (Attempt (ObjectCall J))} {work : Work J}

def AnyFailed (calls : List (Attempt (ObjectCall J))) : Prop :=
  ∃ attempt ∈ calls, attempt.Failed ObjectCall.tolerates

structure Behaves (work : Work J) (outcome : Outcome) : Prop where
  broken : outcome.breaks → ∃ problem, work = .error problem
  done : ¬ outcome.breaks → ∃ calls retry, work = .ok (calls, retry) ∧
    (AnyFailed calls ↔ outcome.fails) ∧ (retry = true ↔ outcome.retries)

theorem anyFailed_append {more : List (Attempt (ObjectCall J))} :
    AnyFailed (calls ++ more) ↔ AnyFailed calls ∨ AnyFailed more := by
  simp only [AnyFailed, List.mem_append, or_and_right, exists_or]

theorem anyFailed_nil : ¬ AnyFailed ([] : List (Attempt (ObjectCall J))) := by
  simp [AnyFailed]

open ObjectCall

theorem anyFailed_singleton {attempt : Attempt (ObjectCall J)} :
    AnyFailed [attempt] ↔ attempt.Failed tolerates := by
  simp [AnyFailed]

theorem Behaves.of_ok {retry : Bool} {outcome : Outcome}
    (hBreaks : ¬ outcome.breaks) (hFailed : AnyFailed calls ↔ outcome.fails)
    (hRetry : retry = true ↔ outcome.retries) : Behaves (.ok (calls, retry)) outcome :=
  ⟨fun h => absurd h hBreaks, fun _ => ⟨calls, retry, rfl, hFailed, hRetry⟩⟩

theorem Behaves.after {outcome : Outcome}
    (hCalls : ¬ AnyFailed calls) (hWork : Behaves work outcome) : Behaves (Work.after calls work) outcome := by
  refine ⟨fun hBreaks => ?_, fun hBreaks => ?_⟩
  · obtain ⟨problem, rfl⟩ := hWork.broken hBreaks
    exact ⟨problem, rfl⟩
  · obtain ⟨more, retry, rfl, hFailed, hRetry⟩ := hWork.done hBreaks
    refine ⟨calls ++ more, retry, rfl, ?_, hRetry⟩
    rw [anyFailed_append, hFailed]
    exact or_iff_right hCalls

theorem Behaves.congr {outcome outcome' : Outcome} (hWork : Behaves work outcome)
    (hBreaks : outcome.breaks ↔ outcome'.breaks) (hFails : outcome.fails ↔ outcome'.fails)
    (hRetries : outcome.retries ↔ outcome'.retries) : Behaves work outcome' := by
  refine ⟨fun h => hWork.broken (hBreaks.mpr h), fun h => ?_⟩
  rw [← hFails, ← hRetries]
  exact hWork.done fun hBroken => h (hBreaks.mp hBroken)

namespace SourceToDest

variable {C L : Type} (std : SourceToDest J C L) (srcObj : Unstructured J)

def LacksClient : Prop :=
  srcObj.annotationFor CustomizerAnnotationKey ≠ "" ∧ std.answers.customize.customizerClient = false ∨
    wantsExpansion std.cz std.answers.customize srcObj = true ∧ std.answers.customize.locationClient = false

def CustomizationFails : Prop :=
  (srcObj.annotationFor CustomizerAnnotationKey ≠ "" ∧
      ∃ err, std.answers.customize.getCustomizer = .error err ∧ err ≠ .notFound) ∨
    wantsExpansion std.cz std.answers.customize srcObj = true ∧
      ∃ err, std.answers.customize.getLocation = .error err ∧ err ≠ .notFound

def customizerOf : Option C :=
  if srcObj.annotationFor CustomizerAnnotationKey = "" then none
  else some (std.answers.customize.getCustomizer.toOption.getD std.cz.zeroCustomizer)

def locationOf : Option L :=
  if wantsExpansion std.cz std.answers.customize srcObj then
    some (std.answers.customize.getLocation.toOption.getD std.cz.zeroLocation)
  else none

def customizedObject : Unstructured J :=
  if (std.customizerOf srcObj).isSome || (std.locationOf srcObj).isSome then
    std.cz.customize srcObj (std.customizerOf srcObj) (std.locationOf srcObj)
  else srcObj

def CountFails : Prop :=
  std.distributionBits.returnSingletonState = true ∧
    srcObj.annotationFor ExecutingCountKey ≠ toString std.numDestinations ∧ std.answers.updateSource ≠ none

def NamespaceFails : Prop :=
  std.soRef.namespaced = true ∧ std.nsLookup = .notFound ∧
    ∃ err, std.answers.createNamespace = some err ∧ err ≠ .alreadyExists

def GetFails : Prop := ∃ err, std.answers.getObject = .error err ∧ err ≠ .notFound

def StatusFails : Prop :=
  std.distributionBits.returnSingletonState = true ∧ std.numDestinations = 1 ∧
    ∃ destObj, std.answers.getObject = .ok destObj ∧ srcObj.status ≠ destObj.status ∧
      std.answers.updateSourceStatus ≠ none

def Customizes : Prop :=
  std.answers.getObject = .error .notFound ∨
    (∃ destObj, std.answers.getObject = .ok destObj) ∧ std.distributionBits.createOnly = false ∧
      ¬ std.StatusFails srcObj

variable [DecidableEq J] (srcObj : Unstructured J) {destObj : Unstructured J}

def WriteFails : Prop :=
  std.answers.getObject = .error .notFound ∧ std.answers.createObject ≠ none ∨
    ∃ destObj, std.answers.getObject = .ok destObj ∧
      destObj.deepEqual (genericObjectMerge (std.customizedObject srcObj) destObj) = false ∧
        std.answers.updateObject ≠ none

def copyOutcome : Outcome where
  breaks := ¬ std.CountFails srcObj ∧ ¬ std.NamespaceFails ∧ std.Customizes srcObj ∧ std.LacksClient srcObj
  fails := std.CountFails srcObj ∨ std.NamespaceFails ∨ std.GetFails ∨ std.StatusFails srcObj ∨
    std.Customizes srcObj ∧ (std.CustomizationFails srcObj ∨ std.WriteFails srcObj)
  retries := ¬ std.CountFails srcObj ∧
    (std.NamespaceFails ∨ std.GetFails ∨ std.Customizes srcObj ∧ std.WriteFails srcObj)

def outcome : Option (Unstructured J) → Outcome
  | none => ⟨False, ∃ err, std.answers.deleteObject = some err ∧ err ≠ .notFound,
      ∃ err, std.answers.deleteObject = some err ∧ err ≠ .notFound⟩
  | some srcObj => std.copyOutcome srcObj

def Swallows : Option (Unstructured J) → Prop
  | none => False
  | some srcObj => std.CountFails srcObj ∨ std.StatusFails srcObj ∨
      std.Customizes srcObj ∧ std.CustomizationFails srcObj

omit [DecidableEq J] in
theorem fetchCustomizer_spec
    (hClient : ¬ (srcObj.annotationFor CustomizerAnnotationKey ≠ "" ∧ std.answers.customize.customizerClient = false)) :
    ∃ calls, fetchCustomizer std.cz std.answers.customize std.soRef.cluster srcObj =
        .ok (calls, std.customizerOf srcObj) ∧
      (AnyFailed calls ↔ srcObj.annotationFor CustomizerAnnotationKey ≠ "" ∧
        ∃ err, std.answers.customize.getCustomizer = .error err ∧ err ≠ .notFound) := by
  by_cases hRef : srcObj.annotationFor CustomizerAnnotationKey = ""
  · exact ⟨[], by simp [fetchCustomizer, customizerOf, hRef], iff_of_false anyFailed_nil fun h => h.1 hRef⟩
  · have hThere : std.answers.customize.customizerClient = true := by simpa [hRef] using hClient
    refine ⟨_, by simp only [fetchCustomizer, customizerOf, hRef, hThere, if_false]; rfl, ?_⟩
    rw [anyFailed_singleton, failed_iff_of_tolerates .notFound _ fun err => by cases err <;> simp [tolerates]]
    simp only [errorOf_eq_some_iff, ne_eq, hRef, not_false_eq_true, true_and]

omit [DecidableEq J] in
theorem fetchLocation_spec (hClient : ¬ (wantsExpansion std.cz std.answers.customize srcObj = true ∧
      std.answers.customize.locationClient = false)) :
    ∃ calls, fetchLocation std.cz std.answers.customize std.destination srcObj = .ok (calls, std.locationOf srcObj) ∧
      (AnyFailed calls ↔ wantsExpansion std.cz std.answers.customize srcObj = true ∧
        ∃ err, std.answers.customize.getLocation = .error err ∧ err ≠ .notFound) := by
  by_cases hWants : wantsExpansion std.cz std.answers.customize srcObj = true
  · have hThere : std.answers.customize.locationClient = true := by simpa [hWants] using hClient
    refine ⟨_, by simp only [fetchLocation, locationOf, hWants, hThere, if_true]; rfl, ?_⟩
    rw [anyFailed_singleton, failed_iff_of_tolerates .notFound _ fun err => by cases err <;> simp [tolerates]]
    simp only [errorOf_eq_some_iff, hWants, true_and]
  · exact ⟨[], by simp [fetchLocation, locationOf, hWants], iff_of_false anyFailed_nil fun h => hWants h.1⟩

omit [DecidableEq J] in
theorem customized_lacks (hLacks : std.LacksClient srcObj) : ∃ problem, std.customized srcObj = .error problem := by
  by_cases hClient : srcObj.annotationFor CustomizerAnnotationKey ≠ "" ∧ std.answers.customize.customizerClient = false
  · refine ⟨.nilDereference, ?_⟩
    rw [customized, customizeOrCopy, fetchCustomizer]
    simp only [hClient.1, hClient.2, if_false]
    rfl
  · obtain ⟨calls, hFetch, -⟩ := std.fetchCustomizer_spec srcObj hClient
    obtain ⟨hWants, hLocation⟩ := hLacks.resolve_left hClient
    refine ⟨.nilDereference, ?_⟩
    rw [customized, customizeOrCopy, hFetch, fetchLocation]
    simp only [hWants, hLocation]
    rfl

omit [DecidableEq J] in
theorem customized_spec (hLacks : ¬ std.LacksClient srcObj) :
    ∃ calls, std.customized srcObj = .ok (calls, std.customizedObject srcObj) ∧
      (AnyFailed calls ↔ std.CustomizationFails srcObj) := by
  obtain ⟨hCustomizer, hLocation⟩ := not_or.mp hLacks
  obtain ⟨calls, hFetch, hFailed⟩ := std.fetchCustomizer_spec srcObj hCustomizer
  obtain ⟨more, hFetchMore, hFailedMore⟩ := std.fetchLocation_spec srcObj hLocation
  refine ⟨calls ++ more, ?_, anyFailed_append.trans (or_congr hFailed hFailedMore)⟩
  rw [customized, customizeOrCopy, hFetch, hFetchMore]
  by_cases hAny : ((std.customizerOf srcObj).isSome || (std.locationOf srcObj).isSome) = true
  · simp only [customizedObject, hAny, if_true, bind, Except.bind, pure, Except.pure]
  · simp only [customizedObject, hAny, bind, Except.bind, pure, Except.pure, if_false, Bool.false_eq_true]

omit [DecidableEq J] in
theorem createObject_behaves : Behaves (std.createObject srcObj)
    ⟨std.LacksClient srcObj, std.CustomizationFails srcObj ∨ std.answers.createObject ≠ none,
      std.answers.createObject ≠ none⟩ := by
  refine ⟨fun hLacks => ?_, fun hLacks => ?_⟩
  · obtain ⟨problem, hProblem⟩ := std.customized_lacks srcObj hLacks
    exact ⟨problem, by rw [createObject, hProblem]⟩
  · obtain ⟨calls, hOk, hFailed⟩ := std.customized_spec srcObj hLacks
    refine ⟨_, _, by rw [createObject, hOk], ?_, isSome_iff_ne_none⟩
    rw [anyFailed_append, hFailed, anyFailed_singleton, failed_iff_of_strict _ fun _ => rfl, isSome_iff_ne_none]

theorem updateObject_behaves (destObj : Unstructured J) (hUpdates : std.distributionBits.createOnly = false) :
    Behaves (std.updateObject srcObj destObj) ⟨std.LacksClient srcObj, std.CustomizationFails srcObj ∨
        destObj.deepEqual (genericObjectMerge (std.customizedObject srcObj) destObj) = false ∧
          std.answers.updateObject ≠ none,
      destObj.deepEqual (genericObjectMerge (std.customizedObject srcObj) destObj) = false ∧
        std.answers.updateObject ≠ none⟩ := by
  refine ⟨fun hLacks => ?_, fun hLacks => ?_⟩
  · obtain ⟨problem, hProblem⟩ := std.customized_lacks srcObj hLacks
    exact ⟨problem, by rw [updateObject, hProblem, if_neg (by simp [hUpdates])]⟩
  · obtain ⟨calls, hOk, hFailed⟩ := std.customized_spec srcObj hLacks
    rw [updateObject, hOk, if_neg (by simp [hUpdates])]
    by_cases hSame : destObj.deepEqual (genericObjectMerge (std.customizedObject srcObj) destObj) = true
    · exact ⟨calls, false, if_pos hSame, by simp [hFailed, hSame], by simp [hSame]⟩
    · refine ⟨_, _, if_neg hSame, ?_, by simp [hSame, isSome_iff_ne_none]⟩
      rw [anyFailed_append, hFailed, anyFailed_singleton, failed_iff_of_strict _ fun _ => rfl]
      simp [hSame, isSome_iff_ne_none]

theorem reportAndUpdate_fails (hGet : std.answers.getObject = .ok destObj)
    (hStatus : std.StatusFails srcObj) : Behaves (std.reportAndUpdate srcObj destObj) ⟨False, True, False⟩ := by
  obtain ⟨hReturns, hSingle, destObj', hGet', hDiffers, hRefused⟩ := hStatus
  cases Except.ok.inj (hGet'.symm.trans hGet)
  have hSome : std.answers.updateSourceStatus.isSome = true := isSome_iff_ne_none.mpr hRefused
  rw [reportAndUpdate, if_pos (by simp [hReturns, hSingle])]
  simp only [reportSingletonState, if_neg hDiffers]
  rw [if_pos (by simpa using hSome)]
  refine Behaves.of_ok not_false (iff_of_true ?_ trivial) (by simp)
  exact anyFailed_singleton.mpr ((failed_iff_of_strict _ fun _ => rfl).mpr hSome)

theorem reportAndUpdate_passes (hGet : std.answers.getObject = .ok destObj)
    (hStatus : ¬ std.StatusFails srcObj) {outcome : Outcome}
    (hUpdate : Behaves (std.updateObject srcObj destObj) outcome) :
    Behaves (std.reportAndUpdate srcObj destObj) outcome := by
  rw [reportAndUpdate]
  split
  · rename_i hReturns
    obtain ⟨hReturns, hSingle⟩ : std.distributionBits.returnSingletonState = true ∧ std.numDestinations = 1 := by
      simpa using hReturns
    by_cases hSame : srcObj.status = destObj.status
    · simp only [reportSingletonState, if_pos hSame]
      exact hUpdate.after anyFailed_nil
    · have hNone : std.answers.updateSourceStatus = none := by
        by_contra hRefused
        exact hStatus ⟨hReturns, hSingle, destObj, hGet, hSame, hRefused⟩
      simp only [reportSingletonState, if_neg hSame, hNone]
      exact hUpdate.after (by simp [anyFailed_singleton, Attempt.Failed])
  · exact hUpdate

def projectOutcome : Outcome where
  breaks := std.Customizes srcObj ∧ std.LacksClient srcObj
  fails := std.GetFails ∨ std.StatusFails srcObj ∨
    std.Customizes srcObj ∧ (std.CustomizationFails srcObj ∨ std.WriteFails srcObj)
  retries := std.GetFails ∨ std.Customizes srcObj ∧ std.WriteFails srcObj

omit [DecidableEq J] in
theorem get_failed_iff_getFails : (⟨.get std.mailbox std.soRef.groupResource std.soRef.ns std.soRef.name,
    errorOf std.answers.getObject⟩ : Attempt (ObjectCall J)).Failed tolerates ↔ std.GetFails := by
  rw [failed_iff_of_tolerates .notFound _ fun err => by cases err <;> simp [tolerates]]
  simp only [errorOf_eq_some_iff, GetFails]

theorem updateStage_behaves (hGet : std.answers.getObject = .ok destObj) :
    Behaves (std.reportAndUpdate srcObj destObj) (std.projectOutcome srcObj) := by
  have hGetFails : ¬ std.GetFails := by simp [GetFails, hGet]
  by_cases hStatus : std.StatusFails srcObj
  · have hCustom : ¬ std.Customizes srcObj := by simp [Customizes, hGet, hStatus]
    refine (std.reportAndUpdate_fails srcObj hGet hStatus).congr ?_ ?_ ?_ <;>
      simp [projectOutcome, hStatus, hCustom, hGetFails]
  · refine std.reportAndUpdate_passes srcObj hGet hStatus ?_
    by_cases hUpdates : std.distributionBits.createOnly = false
    · have hCustom : std.Customizes srcObj := .inr ⟨⟨destObj, hGet⟩, hUpdates, hStatus⟩
      refine (std.updateObject_behaves srcObj destObj hUpdates).congr ?_ ?_ ?_ <;>
        simp [projectOutcome, hStatus, hCustom, hGetFails, WriteFails, hGet]
    · have hCustom : ¬ std.Customizes srcObj := by simp [Customizes, hGet, hUpdates]
      rw [updateObject, if_pos (by simpa using hUpdates)]
      refine Behaves.of_ok ?_ ?_ ?_ <;> simp [projectOutcome, hStatus, hCustom, hGetFails, anyFailed_nil]

theorem projectObject_behaves : Behaves (std.projectObject srcObj) (std.projectOutcome srcObj) := by
  have hCall := anyFailed_singleton.trans std.get_failed_iff_getFails
  rw [projectObject]
  cases hGet : std.answers.getObject with
  | ok destObj =>
    rw [hGet] at hCall
    exact (std.updateStage_behaves srcObj hGet).after fun h => by simpa [GetFails, hGet] using hCall.mp h
  | error err =>
    rw [hGet] at hCall
    have hStatus : ¬ std.StatusFails srcObj := by simp [StatusFails, hGet]
    by_cases hNotFound : err = .notFound
    · subst hNotFound
      have hGetFails : ¬ std.GetFails := by simp [GetFails, hGet]
      have hCustom : std.Customizes srcObj := .inl hGet
      refine Behaves.after (fun h => hGetFails (hCall.mp h)) ((std.createObject_behaves srcObj).congr ?_ ?_ ?_) <;>
        simp [projectOutcome, hStatus, hCustom, hGetFails, WriteFails, hGet]
    · have hGetFails : std.GetFails := ⟨err, hGet, hNotFound⟩
      have hCustom : ¬ std.Customizes srcObj := by simp [Customizes, hGet, hNotFound]
      have hDone : Behaves (.ok (_, true)) (std.projectOutcome srcObj) := Behaves.of_ok (fun h => hCustom h.1)
        (iff_of_true (hCall.mpr hGetFails) (.inl hGetFails)) (iff_of_true rfl (.inl hGetFails))
      cases err with
      | notFound => exact absurd rfl hNotFound
      | alreadyExists => exact hDone
      | other => exact hDone

variable (hLookup : std.nsLookup ≠ .failed)

include hLookup

omit [DecidableEq J] in
theorem ensureNamespace_spec :
    (AnyFailed std.ensureNamespace.1 ↔ std.NamespaceFails) ∧ (std.ensureNamespace.2 = true ↔ std.NamespaceFails) := by
  by_cases hScope : std.soRef.namespaced = true
  · cases hFound : std.nsLookup with
    | found _ => simp [ensureNamespace, NamespaceFails, hScope, hFound, anyFailed_nil]
    | failed => exact absurd hFound hLookup
    | notFound =>
      simp only [ensureNamespace, NamespaceFails, hScope, hFound, Bool.not_true, true_and]
      refine ⟨anyFailed_singleton.trans (failed_iff_of_tolerates .alreadyExists _ fun err => ?_), ?_⟩
      · cases err <;> simp [tolerates]
      cases std.answers.createNamespace with
      | none => simp
      | some err => cases err <;> simp
  · simp [ensureNamespace, NamespaceFails, hScope, anyFailed_nil]

theorem inNamespace_behaves (hNs : ¬ std.NamespaceFails) :
    Behaves (std.inNamespace srcObj) (std.projectOutcome srcObj) := by
  obtain ⟨hFailed, hWrong⟩ := std.ensureNamespace_spec hLookup
  rw [inNamespace]
  dsimp only
  rw [if_neg (mt hWrong.mp hNs)]
  exact (std.projectObject_behaves srcObj).after (mt hFailed.mp hNs)

theorem inNamespace_fails (hNs : std.NamespaceFails) : Behaves (std.inNamespace srcObj) ⟨False, True, True⟩ := by
  obtain ⟨hFailed, hWrong⟩ := std.ensureNamespace_spec hLookup
  rw [inNamespace]
  dsimp only
  rw [if_pos (hWrong.mpr hNs)]
  exact Behaves.of_ok not_false (iff_of_true (hFailed.mpr hNs) trivial) (by simp)

theorem counted_behaves (hCount : ¬ std.CountFails srcObj) :
    Behaves (std.inNamespace srcObj) (std.copyOutcome srcObj) := by
  by_cases hNs : std.NamespaceFails
  · refine (std.inNamespace_fails srcObj hLookup hNs).congr ?_ ?_ ?_ <;> simp [copyOutcome, hCount, hNs]
  · refine (std.inNamespace_behaves srcObj hLookup hNs).congr ?_ ?_ ?_ <;>
      simp [copyOutcome, projectOutcome, hCount, hNs]

theorem copy_behaves : Behaves (std.work (some srcObj)) (std.copyOutcome srcObj) := by
  rw [work]
  split
  · rename_i hReturns
    by_cases hSame : srcObj.annotationFor ExecutingCountKey = toString std.numDestinations
    · simp only [ensureDestCount, if_pos hSame]
      exact (std.counted_behaves srcObj hLookup fun h => h.2.1 hSame).after anyFailed_nil
    · simp only [ensureDestCount, if_neg hSame]
      cases hAnswer : std.answers.updateSource with
      | none =>
        refine (std.counted_behaves srcObj hLookup fun h => h.2.2 hAnswer).after ?_
        simp [anyFailed_singleton, Attempt.Failed]
      | some err =>
        have hCount : std.CountFails srcObj := ⟨hReturns, hSame, by simp [hAnswer]⟩
        refine Behaves.of_ok (fun h => h.1 hCount) (iff_of_true ?_ (.inl hCount))
          (iff_of_false Bool.false_ne_true fun h => h.1 hCount)
        exact anyFailed_singleton.mpr ((failed_iff_of_strict _ fun _ => rfl).mpr rfl)
  · rename_i hReturns
    exact std.counted_behaves srcObj hLookup fun h => hReturns h.1

theorem work_behaves (present : Option (Unstructured J)) : Behaves (std.work present) (std.outcome present) := by
  cases present with
  | some srcObj => exact std.copy_behaves srcObj hLookup
  | none =>
    refine Behaves.of_ok not_false ?_ ?_
    · rw [anyFailed_singleton, failed_iff_of_tolerates .notFound _ fun err => by cases err <;> simp [tolerates]]
      rfl
    · rw [outcome]
      cases std.answers.deleteObject with
      | none => simp
      | some err => cases err <;> simp

end SourceToDest

end KubeStellar.WorkloadProjector
