import KubeStellar.WorkloadProjector.CopyOutcomes

/-! # The retry discipline

When the three functions of the projector retry as they should. For each of them the condition is about the
state, the caches and the answers of the API server.
-/

namespace KubeStellar.WorkloadProjector

open List

variable {J ι : Type}

def WorkRetriesRightly (missing : Prop) (work : Work J) : Prop :=
  ∃ calls retry, work = .ok (calls, retry) ∧ RetriesRightly ObjectCall.tolerates missing calls retry

def Outcome.all (items : List ι) (outcome : ι → Outcome) : Outcome where
  breaks := ∃ item ∈ items, (outcome item).breaks
  fails := ∃ item ∈ items, (outcome item).fails
  retries := ∃ item ∈ items, (outcome item).retries

open Behaves

theorem triersTry_behaves (items : List ι) (work : ι → Work J) (outcome : ι → Outcome)
    (hWork : ∀ item ∈ items, Behaves (work item) (outcome item)) :
    Behaves (triersTry (items.map work)) (Outcome.all items outcome) := by
  induction items with
  | nil => exact of_ok (by simp [Outcome.all]) (by simp [Outcome.all, anyFailed_nil]) (by simp [Outcome.all])
  | cons item items ih =>
    have hFirst := hWork item mem_cons_self
    have hRest := ih fun other hMem => hWork other (mem_cons_of_mem _ hMem)
    have hParts : ∀ part : ι → Prop, (∃ other ∈ item :: items, part other) ↔ part item ∨ ∃ other ∈ items, part other :=
      fun part => exists_mem_cons_iff part item items
    by_cases hItem : (outcome item).breaks
    · obtain ⟨problem, hProblem⟩ := hFirst.broken hItem
      refine ⟨fun _ => ⟨problem, by rw [map_cons, hProblem, triersTry]⟩, fun h => ?_⟩
      exact absurd ((hParts _).mpr (.inl hItem)) h
    · obtain ⟨calls, retry, hOk, hFailed, hRetry⟩ := hFirst.done hItem
      rw [map_cons, hOk, triersTry]
      by_cases hItems : ∃ other ∈ items, (outcome other).breaks
      · obtain ⟨problem, hProblem⟩ := hRest.broken hItems
        refine ⟨fun _ => ⟨problem, by rw [hProblem]⟩, fun h => ?_⟩
        exact absurd ((hParts _).mpr (.inr hItems)) h
      · obtain ⟨more, retryMore, hOkMore, hFailedMore, hRetryMore⟩ := hRest.done hItems
        rw [hOkMore]
        refine of_ok (fun h => ((hParts _).mp h).elim hItem hItems) ?_ ?_
        · rw [anyFailed_append, hFailed, hFailedMore]
          exact (hParts fun other => (outcome other).fails).symm
        · rw [Bool.or_eq_true, hRetry, hRetryMore]
          exact (hParts fun other => (outcome other).retries).symm

theorem workRetriesRightly_iff {missing : Prop} {work : Work J} {outcome : Outcome} (hWork : Behaves work outcome) :
    WorkRetriesRightly missing work ↔ ¬ outcome.breaks ∧ (outcome.fails → outcome.retries) ∧
      (¬ outcome.fails → ¬ missing → ¬ outcome.retries) := by
  by_cases hBreaks : outcome.breaks
  · obtain ⟨problem, rfl⟩ := hWork.broken hBreaks
    refine iff_of_false ?_ fun h => h.1 hBreaks
    rintro ⟨calls, retry, hOk, -⟩
    cases hOk
  · obtain ⟨calls, retry, rfl, hFailed, hRetry⟩ := hWork.done hBreaks
    have hRightly := @retriesRightly_iff _ _ missing _ _ retry hFailed
    rw [← Bool.not_eq_true, hRetry] at hRightly
    constructor
    · rintro ⟨calls', retry', hOk, hCalls⟩
      cases hOk
      exact ⟨hBreaks, hRightly.mp hCalls⟩
    · rintro ⟨-, h⟩
      exact ⟨calls, retry, rfl, hRightly.mpr h⟩

section Source

variable {C L : Type} [DecidableEq J] (env : Env) (wp : State) (caches : Caches J) (cz : Customization J C L)
  (answers : SinglePlacement → DestinationAnswers J C L) (soRef : SourceObjectRef) {std : SourceToDest J C L}

def copiesTo {Obj : Type} [DecidableEq Obj] (maps : ScopeMaps Obj) (obj : Obj) : List (Option (SourceToDest J C L)) :=
  let destinations := objectDestinations maps soRef.cluster soRef.groupResource obj
  (env.ord.visit destinations).map fun tup => (readyDestination env wp soRef maps tup.1).map fun _ =>
    ⟨cz, soRef, tup.1, tup.2, destinations.len, caches.ns tup.1 soRef.ns, answers tup.1⟩

def sourceObject : Option (Unstructured J) :=
  (caches.source soRef.cluster soRef.groupResource soRef.ns soRef.name).live

def watched : Bool :=
  match wp.perSource.get soRef.cluster with
  | none => false
  | some wps => wps.preInformers.has soRef.groupResource &&
      match caches.source soRef.cluster soRef.groupResource soRef.ns soRef.name with
      | .failed => false
      | _ => true

def copies : List (Option (SourceToDest J C L)) :=
  if !watched wp caches soRef then []
  else if soRef.namespaced then copiesTo env wp caches cz answers soRef wp.ns (soRef.ns, soRef.name)
  else copiesTo env wp caches cz answers soRef wp.nns soRef.name

variable (present : Option (Unstructured J))

def copyWork : Option (SourceToDest J C L) → Work J
  | none => .ok ([], true)
  | some std => std.work present

def copyResult : Option (SourceToDest J C L) → Outcome
  | none => ⟨False, False, True⟩
  | some std => std.outcome present

theorem copiesTo_work {Obj : Type} [DecidableEq Obj] (maps : ScopeMaps Obj) (obj : Obj)
    (present : Option (Unstructured J)) :
    (copyToDestinations env wp caches cz answers soRef maps obj present).2 =
      triersTry ((copiesTo env wp caches cz answers soRef maps obj).map (copyWork present)) := by
  rw [copyToDestinations, copiesTo, map_map]
  refine congrArg triersTry (map_congr_left fun tup _ => ?_)
  rw [syncSourceToDestLocked, Function.comp_apply]
  cases readyDestination env wp soRef maps tup.1 <;> rfl

theorem syncSourceObject_of_watched (hWatched : watched wp caches soRef = true) :
    syncSourceObject env wp caches cz answers soRef =
      if soRef.namespaced then
        copyToDestinations env wp caches cz answers soRef wp.ns (soRef.ns, soRef.name) (sourceObject caches soRef)
      else copyToDestinations env wp caches cz answers soRef wp.nns soRef.name (sourceObject caches soRef) := by
  rw [watched] at hWatched
  rw [syncSourceObject, sourceObject]
  cases hSource : wp.perSource.get soRef.cluster with
  | none => simp [hSource] at hWatched
  | some wps =>
    rw [hSource] at hWatched
    obtain ⟨hHas, hFound⟩ := Bool.and_eq_true_iff.mp hWatched
    simp only [hHas, Bool.not_true, Bool.false_eq_true, if_false]
    cases hLookup : caches.source soRef.cluster soRef.groupResource soRef.ns soRef.name with
    | failed => simp [hLookup] at hFound
    | notFound => rfl
    | found obj => rfl

theorem syncSourceObject_of_not_watched (hWatched : watched wp caches soRef = false) :
    (syncSourceObject env wp caches cz answers soRef).2 = .ok ([], false) := by
  rw [watched] at hWatched
  rw [syncSourceObject]
  cases hSource : wp.perSource.get soRef.cluster with
  | none => rfl
  | some wps =>
    rw [hSource] at hWatched
    by_cases hHas : wps.preInformers.has soRef.groupResource = true
    · simp only [hHas, Bool.true_and] at hWatched
      simp only [hHas, Bool.not_true, Bool.false_eq_true, if_false]
      cases hLookup : caches.source soRef.cluster soRef.groupResource soRef.ns soRef.name with
      | failed => rfl
      | notFound => simp [hLookup] at hWatched
      | found obj => simp [hLookup] at hWatched
    · simp only [hHas, Bool.not_false, if_true]

theorem copies_work : (syncSourceObject env wp caches cz answers soRef).2 =
    triersTry ((copies env wp caches cz answers soRef).map (copyWork (sourceObject caches soRef))) := by
  rw [copies]
  by_cases hWatched : watched wp caches soRef = true
  · rw [if_neg (by simp [hWatched]), syncSourceObject_of_watched _ _ _ _ _ _ hWatched]
    split <;> exact copiesTo_work ..
  · rw [syncSourceObject_of_not_watched _ _ _ _ _ _ (by simpa using hWatched), if_pos (by simpa using hWatched)]
    rfl

theorem outcome_fails_iff {present : Option (Unstructured J)} :
    (std.outcome present).fails ↔ std.Swallows present ∨ (std.outcome present).retries := by
  cases present with
  | none => exact (or_iff_right not_false).symm
  | some srcObj =>
    constructor
    · intro hFails
      by_cases hCount : std.CountFails srcObj
      · exact .inl (.inl hCount)
      · obtain hNs | hGet | hStatus | ⟨hCustom, hCustomization | hWrite⟩ := hFails.resolve_left hCount
        · exact .inr ⟨hCount, .inl hNs⟩
        · exact .inr ⟨hCount, .inr (.inl hGet)⟩
        · exact .inl (.inr (.inl hStatus))
        · exact .inl (.inr (.inr ⟨hCustom, hCustomization⟩))
        · exact .inr ⟨hCount, .inr (.inr ⟨hCustom, hWrite⟩)⟩
    · rintro ((hCount | hStatus | ⟨hCustom, hCustomization⟩) | ⟨-, hNs | hGet | ⟨hCustom, hWrite⟩⟩)
      · exact .inl hCount
      · exact .inr (.inr (.inr (.inl hStatus)))
      · exact .inr (.inr (.inr (.inr ⟨hCustom, .inl hCustomization⟩)))
      · exact .inr (.inl hNs)
      · exact .inr (.inr (.inl hGet))
      · exact .inr (.inr (.inr (.inr ⟨hCustom, .inr hWrite⟩)))

def SourceRetriesRightly : Prop :=
  WorkRetriesRightly (none ∈ copies env wp caches cz answers soRef) (syncSourceObject env wp caches cz answers soRef).2

/-- No destination lacks a client for the customization, and if the failure of a call for one of them is
swallowed then some destination is not ready or does retry. -/
structure KeepsFailures : Prop where
  client : ∀ std, some std ∈ copies env wp caches cz answers soRef → ¬ (std.outcome (sourceObject caches soRef)).breaks
  kept : (∃ std, some std ∈ copies env wp caches cz answers soRef ∧ std.Swallows (sourceObject caches soRef)) →
    none ∈ copies env wp caches cz answers soRef ∨
      ∃ std, some std ∈ copies env wp caches cz answers soRef ∧ (std.outcome (sourceObject caches soRef)).retries

variable (hCache : ∀ destination ns, caches.ns destination ns ≠ .failed)

include hCache

omit [DecidableEq J] in
theorem copies_nsLookup (hStd : some std ∈ copies env wp caches cz answers soRef) : std.nsLookup ≠ .failed := by
  have hCopiesTo : ∀ {Obj : Type} [DecidableEq Obj] (maps : ScopeMaps Obj) (obj : Obj),
      some std ∈ copiesTo env wp caches cz answers soRef maps obj → std.nsLookup ≠ .failed := by
    intro Obj _ maps obj hMem
    obtain ⟨tup, -, hTup⟩ := mem_map.mp hMem
    obtain ⟨ready, -, rfl⟩ := Option.map_eq_some_iff.mp hTup
    exact hCache _ _
  rw [copies] at hStd
  split at hStd
  · cases hStd
  · split at hStd
    · exact hCopiesTo _ _ hStd
    · exact hCopiesTo _ _ hStd

theorem sourceRetriesRightly_iff :
    SourceRetriesRightly env wp caches cz answers soRef ↔ KeepsFailures env wp caches cz answers soRef := by
  have hWork : Behaves (syncSourceObject env wp caches cz answers soRef).2
      (Outcome.all (copies env wp caches cz answers soRef) (copyResult (sourceObject caches soRef))) := by
    rw [copies_work]
    refine triersTry_behaves _ _ _ fun copy hCopy => ?_
    cases copy with
    | none => exact of_ok not_false (iff_of_false anyFailed_nil not_false) (iff_of_true rfl trivial)
    | some std => exact std.work_behaves (copies_nsLookup env wp caches cz answers soRef hCache hCopy) _
  rw [SourceRetriesRightly, workRetriesRightly_iff hWork]
  constructor
  · rintro ⟨hBreaks, hFails, -⟩
    refine ⟨fun std hStd hStdBreaks => hBreaks ⟨some std, hStd, hStdBreaks⟩, ?_⟩
    rintro ⟨std, hStd, hSwallows⟩
    obtain ⟨copy, hCopy, hRetries⟩ := hFails ⟨some std, hStd, outcome_fails_iff.mpr (.inl hSwallows)⟩
    cases copy with
    | none => exact .inl hCopy
    | some other => exact .inr ⟨other, hCopy, hRetries⟩
  · rintro ⟨hClient, hKept⟩
    refine ⟨?_, ?_, ?_⟩
    · rintro ⟨copy, hCopy, hBreaks⟩
      cases copy with
      | none => exact hBreaks
      | some std => exact hClient std hCopy hBreaks
    · rintro ⟨copy, hCopy, hFails⟩
      cases copy with
      | none => exact hFails.elim
      | some std =>
        obtain hSwallows | hRetries := outcome_fails_iff.mp hFails
        · obtain hUnready | ⟨other, hOther, hRetries⟩ := hKept ⟨std, hCopy, hSwallows⟩
          · exact ⟨none, hUnready, trivial⟩
          · exact ⟨some other, hOther, hRetries⟩
        · exact ⟨some std, hCopy, hRetries⟩
    · rintro hNone hReady ⟨copy, hCopy, hRetries⟩
      cases copy with
      | none => exact hReady hCopy
      | some std => exact hNone ⟨some std, hCopy, outcome_fails_iff.mpr (.inr hRetries)⟩

end Source

variable [DecidableEq J] (env : Env) (wp : State) (caches : Caches J) (answers : ReturnAnswers)
  (doRef : DestinationObjectRef) {returns : Unstructured J → String → Prop} (objM : Unstructured J)
  {Obj : Type} [DecidableEq Obj] (maps : ScopeMaps Obj) (obj : Obj) (present : Option (Unstructured J))

structure Returning (objM : Unstructured J) (source : String) : Prop where
  present : present = some objM
  notCRD : doRef.groupResource ≠ crdGR
  wanted : ∃ bits, (sourcesWants maps doRef.destination doRef.groupResource obj).get source = some bits ∧
    wantsReturn wp doRef maps obj (source, bits) = true

structure ReturnsTo (objM : Unstructured J) (source : String) : Prop where
  notNamespace : doRef.groupResource ≠ nsGR
  informed : ∃ wpd, wp.perDestination.get doRef.destination = some wpd ∧
    wpd.preInformers.has doRef.groupResource = true
  returning : if doRef.namespaced then Returning wp doRef wp.ns (doRef.ns, doRef.name)
      (caches.destination doRef.destination doRef.groupResource doRef.ns doRef.name).live objM source
    else Returning wp doRef wp.nns doRef.name
      (caches.destination doRef.destination doRef.groupResource doRef.ns doRef.name).live objM source

def SourceMissing (source : String) : Prop :=
  ∀ srcU, caches.source source doRef.groupResource doRef.ns doRef.name ≠ .found srcU

def Refused (objM : Unstructured J) (source : String) : Prop :=
  ∃ srcU, caches.source source doRef.groupResource doRef.ns doRef.name = .found srcU ∧
    srcU.status ≠ objM.status ∧ answers.updateSourceStatus source ≠ none

def Accepted (objM : Unstructured J) (source : String) : Prop :=
  ∃ srcU, caches.source source doRef.groupResource doRef.ns doRef.name = .found srcU ∧
    (srcU.status = objM.status ∨ answers.updateSourceStatus source = none)

theorem returnState_behaves (source : String) :
    Behaves (returnState caches answers doRef objM source) ⟨False, Refused caches answers doRef objM source,
      SourceMissing caches doRef source ∨ Accepted caches answers doRef objM source⟩ := by
  rw [returnState]
  cases hLookup : caches.source source doRef.groupResource doRef.ns doRef.name with
  | notFound =>
    exact of_ok not_false (by simp [Refused, hLookup, anyFailed_nil]) (by simp [SourceMissing, hLookup])
  | failed =>
    exact of_ok not_false (by simp [Refused, hLookup, anyFailed_nil]) (by simp [SourceMissing, hLookup])
  | found srcU =>
    by_cases hSame : srcU.status = objM.status
    · simp only [reportSingletonState, if_pos hSame]
      exact of_ok not_false (by simp [Refused, hLookup, hSame, anyFailed_nil]) (by simp [Accepted, hLookup, hSame])
    · simp only [reportSingletonState, if_neg hSame]
      refine of_ok not_false ?_ ?_
      · rw [anyFailed_singleton, failed_iff_of_strict _ fun _ => rfl]
        simp [Refused, hLookup, hSame, Option.isSome_iff_ne_none]
      · simp [SourceMissing, Accepted, hLookup, hSame]

def returnOutcome (returns : Unstructured J → String → Prop) (deletionFails : Prop) : Outcome where
  breaks := False
  fails := deletionFails ∨ ∃ objM source, returns objM source ∧ Refused caches answers doRef objM source
  retries := deletionFails ∨ ∃ objM source, returns objM source ∧
    (SourceMissing caches doRef source ∨ Accepted caches answers doRef objM source)

omit [DecidableEq J] in
theorem idle_behaves (hReturns : ∀ objM source, ¬ returns objM source) :
    Behaves (.ok ([], false) : Work J) (returnOutcome caches answers doRef returns False) :=
  of_ok not_false (by simp [returnOutcome, hReturns, anyFailed_nil]) (by simp [returnOutcome, hReturns])

omit [DecidableEq J] in
theorem deleteUndesired_behaves (hReturns : ∀ objM source, ¬ returns objM source) :
    Behaves (deleteUndesired answers doRef objM) (returnOutcome caches answers doRef returns
      (∃ err, answers.deleteObject = some err ∧ err ≠ .notFound)) := by
  refine of_ok not_false ?_ ?_
  · rw [anyFailed_singleton, failed_iff_of_tolerates .notFound _ fun err =>
      by cases err <;> simp [ObjectCall.tolerates]]
    simp [returnOutcome, hReturns]
  · cases answers.deleteObject with
    | none => simp [returnOutcome, hReturns]
    | some err => cases err <;> simp [returnOutcome, hReturns]

theorem retainOrDelete_behaves {Obj : Type} [DecidableEq Obj] (maps : ScopeMaps Obj) (obj : Obj)
    (present : Option (Unstructured J)) :
    ∃ deletionFails, (deletionFails → ∀ objM source, ¬ Returning wp doRef maps obj present objM source) ∧
      Behaves (retainOrDelete env wp caches answers doRef maps obj present)
        (returnOutcome caches answers doRef (Returning wp doRef maps obj present) deletionFails) := by
  cases present with
  | none => exact ⟨False, False.elim, idle_behaves caches answers doRef fun _ _ h => by cases h.present⟩
  | some objM =>
    simp only [retainOrDelete]
    by_cases hEmpty : (sourcesWants maps doRef.destination doRef.groupResource obj).isEmpty = true
    · rw [if_pos hEmpty]
      have hReturns : ∀ objM' source, ¬ Returning wp doRef maps obj (some objM) objM' source := by
        intro objM' source hReturning
        obtain ⟨bits, hBits, -⟩ := hReturning.wanted
        rw [(GoMap.isEmpty_iff _).mp hEmpty source] at hBits
        cases hBits
      exact ⟨_, fun _ => hReturns, deleteUndesired_behaves caches answers doRef objM hReturns⟩
    · rw [if_neg hEmpty]
      by_cases hCRD : doRef.groupResource = crdGR
      · rw [if_pos hCRD]
        exact ⟨False, False.elim, idle_behaves caches answers doRef fun _ _ h => h.notCRD hCRD⟩
      · rw [if_neg hCRD]
        have hWork := triersTry_behaves ((env.ord.visit (sourcesWants maps doRef.destination doRef.groupResource
          obj)).filter (wantsReturn wp doRef maps obj)) (fun sourceWant =>
            returnState caches answers doRef objM sourceWant.1)
          _ fun sourceWant _ => returnState_behaves caches answers doRef objM sourceWant.1
        have hParts : ∀ part : Unstructured J → String → Prop,
            (∃ sourceWant ∈ (env.ord.visit (sourcesWants maps doRef.destination doRef.groupResource obj)).filter
              (wantsReturn wp doRef maps obj), part objM sourceWant.1) ↔
              ∃ objM' source, Returning wp doRef maps obj (some objM) objM' source ∧ part objM' source := by
          intro part
          constructor
          · rintro ⟨⟨source, bits⟩, hMem, hPart⟩
            obtain ⟨hVisit, hWants⟩ := mem_filter.mp hMem
            exact ⟨objM, source, ⟨rfl, hCRD, bits, (env.ord.mem_visit_iff _ _ _).mp hVisit, hWants⟩, hPart⟩
          · rintro ⟨objM', source, ⟨hPresent, -, bits, hGet, hWants⟩, hPart⟩
            cases hPresent
            exact ⟨(source, bits), mem_filter.mpr ⟨(env.ord.mem_visit_iff _ _ _).mpr hGet, hWants⟩, hPart⟩
        refine ⟨False, False.elim, hWork.congr (by simp [Outcome.all, returnOutcome]) ?_ ?_⟩
        · exact (hParts (Refused caches answers doRef)).trans (or_iff_right not_false).symm
        · exact (hParts fun objM source => SourceMissing caches doRef source ∨
            Accepted caches answers doRef objM source).trans
            (or_iff_right not_false).symm

theorem syncDestinationObject_behaves :
    ∃ deletionFails, (deletionFails → ∀ objM source, ¬ ReturnsTo wp caches doRef objM source) ∧
      Behaves (syncDestinationObject env wp caches answers doRef)
        (returnOutcome caches answers doRef (ReturnsTo wp caches doRef) deletionFails) := by
  rw [syncDestinationObject]
  by_cases hNS : doRef.groupResource = nsGR
  · rw [if_pos hNS]
    exact ⟨False, False.elim, idle_behaves caches answers doRef fun _ _ h => h.notNamespace hNS⟩
  · rw [if_neg hNS]
    cases hRecord : wp.perDestination.get doRef.destination with
    | none =>
      refine ⟨False, False.elim, idle_behaves caches answers doRef fun _ _ h => ?_⟩
      obtain ⟨wpd, hGet, -⟩ := h.informed
      exact Option.some_ne_none wpd (hGet.symm.trans hRecord)
    | some wpd =>
      by_cases hHas : wpd.preInformers.has doRef.groupResource = true
      · have hInformed := (⟨wpd, hRecord, hHas⟩ : ∃ wpd, wp.perDestination.get doRef.destination = some wpd ∧
          wpd.preInformers.has doRef.groupResource = true)
        simp only [hHas, Bool.not_true, Bool.false_eq_true, if_false]
        by_cases hScope : doRef.namespaced = true
        · have hReturns : ReturnsTo wp caches doRef = Returning wp doRef wp.ns (doRef.ns, doRef.name)
              (caches.destination doRef.destination doRef.groupResource doRef.ns doRef.name).live := by
            funext objM source
            exact propext ⟨fun h => by simpa only [hScope, if_true] using h.returning,
              fun h => ⟨hNS, hInformed, by simpa only [hScope, if_true] using h⟩⟩
          rw [if_pos hScope, hReturns]
          exact retainOrDelete_behaves env wp caches answers doRef wp.ns _ _
        · have hReturns : ReturnsTo wp caches doRef = Returning wp doRef wp.nns doRef.name
              (caches.destination doRef.destination doRef.groupResource doRef.ns doRef.name).live := by
            funext objM source
            exact propext ⟨fun h => by simpa only [hScope, Bool.false_eq_true, if_false] using h.returning,
              fun h => ⟨hNS, hInformed, by simpa only [hScope, Bool.false_eq_true, if_false] using h⟩⟩
          rw [if_neg hScope, hReturns]
          exact retainOrDelete_behaves env wp caches answers doRef wp.nns _ _
      · simp only [hHas, Bool.not_false, if_true]
        refine ⟨False, False.elim, idle_behaves caches answers doRef fun _ _ h => ?_⟩
        obtain ⟨wpd', hGet, hHas'⟩ := h.informed
        cases Option.mem_unique hGet hRecord
        exact hHas hHas'

def DestinationRetriesRightly : Prop :=
  WorkRetriesRightly (∃ objM source, ReturnsTo wp caches doRef objM source ∧ SourceMissing caches doRef source)
    (syncDestinationObject env wp caches answers doRef)

def RefusedAsAccepted : Prop :=
  (∃ objM source, ReturnsTo wp caches doRef objM source ∧ SourceMissing caches doRef source) ∨
    ((∃ objM source, ReturnsTo wp caches doRef objM source ∧ Refused caches answers doRef objM source) ↔
      ∃ objM source, ReturnsTo wp caches doRef objM source ∧ Accepted caches answers doRef objM source)

theorem destinationRetriesRightly_iff :
    DestinationRetriesRightly env wp caches answers doRef ↔ RefusedAsAccepted wp caches answers doRef := by
  obtain ⟨deletionFails, hDeletion, hWork⟩ := syncDestinationObject_behaves env wp caches answers doRef
  rw [DestinationRetriesRightly, workRetriesRightly_iff hWork]
  simp only [returnOutcome, not_false_eq_true, true_and, and_or_left, exists_or]
  rw [RefusedAsAccepted]
  by_cases hFails : deletionFails
  · have hReturns := hDeletion hFails
    simp [hFails, hReturns]
  · simp only [hFails, false_or]
    by_cases hMissing : ∃ objM source, ReturnsTo wp caches doRef objM source ∧ SourceMissing caches doRef source
    · exact iff_of_true ⟨fun _ => .inl hMissing, fun _ hNone => absurd hMissing hNone⟩ (.inl hMissing)
    · simp only [hMissing, false_or, not_false_eq_true, forall_const, not_imp_not]
      exact iff_iff_implies_and_implies.symm

def reportCaches : Caches Unit :=
  ⟨fun _ _ _ _ => .found settingsObject, fun _ _ _ _ => .found settingsObject, fun _ _ => .found ()⟩

theorem reportCaches_ns (destination : SinglePlacement) (ns : String) : reportCaches.ns destination ns ≠ .failed := by
  intro hFailed
  cases hFailed

def plainCopy : Customization Unit Unit Unit := ⟨(), (), fun _ => false, fun obj _ _ => obj⟩

def settingsSource : SourceObjectRef := ⟨"wds1", settingsModeKey.groupResource, "apps", "settings"⟩

def refusingAnswers : DestinationAnswers Unit Unit Unit :=
  ⟨none, some .other, none, .error .notFound, some .other, ⟨true, .error .notFound, true, .error .notFound⟩,
    some .other, some .other⟩

def reportWrites : List SectionWrite :=
  [.namespacedModes (.put settingsModeKey ⟨"v1"⟩),
    .namespacedObjectDistributions (.put (settingsModeKey, ("wds1", "apps", "settings")) ⟨true, false⟩)]

def removalWrites : List SectionWrite :=
  [.namespacedObjectDistributions (.delete (settingsModeKey, ("wds1", "apps", "settings"))),
    .namespacedModes (.delete settingsModeKey)]

/-- The `SyncerConfig` cannot be got. -/
def unreadableAnswers : ConfigAnswers := ⟨none, true, .error .other, none, ConfigAnswers.named⟩

end KubeStellar.WorkloadProjector
