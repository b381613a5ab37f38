import KubeStellar.WorkloadProjector.Mailboxes

/-! # When the projector retries

Each of the functions that process a queue item says whether to retry. It should do so iff one of its calls
failed in a way that is not to be expected, or something that it needs was missing.
-/

namespace KubeStellar.WorkloadProjector

section Rightly

variable {Call : Type} {tolerates : Call → ApiError → Bool} {call : Call}

def Attempt.Failed (tolerates : Call → ApiError → Bool) (attempt : Attempt Call) : Prop :=
  ∃ err, attempt.error = some err ∧ tolerates attempt.call err = false

structure RetriesRightly (tolerates : Call → ApiError → Bool) (missing : Prop) (calls : List (Attempt Call))
    (retry : Bool) : Prop where
  failed : (∃ attempt ∈ calls, attempt.Failed tolerates) → retry = true
  succeeded : (∀ attempt ∈ calls, ¬ attempt.Failed tolerates) → ¬ missing → retry = false

theorem retriesRightly_iff {missing fails : Prop} {calls : List (Attempt Call)}
    {retry : Bool} (hFails : (∃ attempt ∈ calls, attempt.Failed tolerates) ↔ fails) :
    RetriesRightly tolerates missing calls retry ↔ (fails → retry = true) ∧ (¬ fails → ¬ missing → retry = false) := by
  have hNone : (∀ attempt ∈ calls, ¬ attempt.Failed tolerates) ↔ ¬ fails := by
    rw [← hFails]
    push Not
    rfl
  constructor
  · rintro ⟨hFailed, hSucceeded⟩
    exact ⟨fun h => hFailed (hFails.mpr h), fun h => hSucceeded (hNone.mpr h)⟩
  · rintro ⟨hFailed, hSucceeded⟩
    exact ⟨fun h => hFailed (hFails.mp h), fun h => hSucceeded (hNone.mp h)⟩

theorem failed_iff_of_strict (error : Option ApiError) (hStrict : ∀ err, tolerates call err = false) :
    (⟨call, error⟩ : Attempt Call).Failed tolerates ↔ error.isSome = true := by
  simp only [Attempt.Failed, hStrict, and_true, Option.isSome_iff_exists]

theorem failed_iff_of_tolerates (expected : ApiError)
    (error : Option ApiError) (hTolerates : ∀ err, tolerates call err = false ↔ err ≠ expected) :
    (⟨call, error⟩ : Attempt Call).Failed tolerates ↔ ∃ err, error = some err ∧ err ≠ expected := by
  simp only [Attempt.Failed, hTolerates]

theorem errorOf_eq_some_iff {α : Type} {answer : Except ApiError α} {err : ApiError} :
    errorOf answer = some err ↔ answer = .error err := by
  cases answer <;> simp [errorOf]

end Rightly

def ConfigCall.tolerates : ConfigCall → ApiError → Bool
  | .get _, .notFound => true
  | _, _ => false

variable (env : Env) (answers : ConfigAnswers) (wp : State) (scRef : ExternalName) (name : ObjectName)
  (relations : SyncerConfigSpecRelations)

def ConfigRetriesRightly : Prop :=
  RetriesRightly ConfigCall.tolerates (wp.mbwsNameToSP.get scRef.cluster = none ∨ answers.newForConfig = false)
    (syncConfigObject env answers wp scRef).1 (syncConfigObject env answers wp scRef).2

/-- The `SyncerConfig` cannot be read, and the empty one that is taken for it is good. -/
structure LosesGetError : Prop where
  cluster : scRef.cluster ≠ ""
  client : answers.configForSpace = none ∧ answers.newForConfig = true
  unreadable : ∃ err, answers.get = .error err ∧ err ≠ .notFound
  lost : ∃ sp, wp.mbwsNameToSP.get scRef.cluster = some sp ∧
    syncerConfigIsGood env.ord SyncerConfigSpec.zero (syncerConfigRelations env wp sp) = true

open ConfigCall

theorem createConfig_failed_iff :
    (∃ attempt ∈ (createConfig env answers name relations).1, attempt.Failed tolerates) ↔
      (createConfig env answers name relations).2 = true := by
  rw [createConfig]
  simp only [List.mem_singleton, exists_eq_left]
  exact failed_iff_of_strict answers.create fun _ => rfl

theorem updateConfig_failed_iff (spec : SyncerConfigSpec) :
    (∃ attempt ∈ (updateConfig env answers name relations spec).1, attempt.Failed tolerates) ↔
      (updateConfig env answers name relations spec).2 = true := by
  rw [updateConfig]
  split
  · simp
  · simp only [List.mem_singleton, exists_eq_left]
    exact failed_iff_of_strict (answers.update name) fun _ => rfl

theorem writeConfig_failed_iff :
    (∃ attempt ∈ (writeConfig env answers name relations).1, attempt.Failed tolerates) ↔
      (writeConfig env answers name relations).2 = true := by
  rw [writeConfig]
  split
  · exact updateConfig_failed_iff env answers name relations _
  · exact createConfig_failed_iff env answers name relations
  · exact updateConfig_failed_iff env answers "" relations _

theorem get_failed_iff : (⟨.get name, errorOf answers.get⟩ : Attempt ConfigCall).Failed tolerates ↔
      ∃ err, answers.get = .error err ∧ err ≠ .notFound := by
  rw [failed_iff_of_tolerates .notFound _ fun err => by cases err <;> simp [tolerates]]
  simp only [errorOf_eq_some_iff]

theorem writeConfig_retry_iff (hNameless : answers.update "" ≠ none)
    (hGet : ∃ err, answers.get = .error err ∧ err ≠ .notFound) :
    (writeConfig env answers name relations).2 = true ↔
      ¬ syncerConfigIsGood env.ord SyncerConfigSpec.zero relations = true := by
  obtain ⟨err, hErr, hNotFound⟩ := hGet
  have hWrite : writeConfig env answers name relations =
      updateConfig env answers "" relations SyncerConfigSpec.zero := by
    rw [writeConfig, hErr]
    cases err with
    | notFound => exact absurd rfl hNotFound
    | alreadyExists => rfl
    | other => rfl
  rw [hWrite, updateConfig]
  split
  · rename_i hGood
    simp [hGood]
  · rename_i hGood
    simp [hGood, Option.isSome_iff_ne_none, hNameless]

theorem writes_failed_iff : (∃ attempt ∈ ⟨.configForSpace scRef.cluster, none⟩ :: ⟨.get name, errorOf answers.get⟩ ::
        (writeConfig env answers name relations).1, Attempt.Failed tolerates attempt) ↔
      (∃ err, answers.get = .error err ∧ err ≠ .notFound) ∨ (writeConfig env answers name relations).2 = true := by
  have hSpace : ¬ (⟨.configForSpace scRef.cluster, none⟩ : Attempt ConfigCall).Failed tolerates := by
    simp [Attempt.Failed]
  simp only [List.exists_mem_cons_iff, hSpace, false_or, get_failed_iff, writeConfig_failed_iff]

theorem configRetriesRightly_iff (hNameless : answers.update "" ≠ none) :
    ConfigRetriesRightly env answers wp scRef ↔ ¬ LosesGetError env answers wp scRef := by
  rw [ConfigRetriesRightly, syncConfigObject]
  by_cases hCluster : scRef.cluster = ""
  · simp only [hCluster, if_true]
    exact iff_of_true ⟨by simp, by simp⟩ fun h => h.cluster hCluster
  · simp only [hCluster, if_false]
    cases hSP : wp.mbwsNameToSP.get scRef.cluster with
    | none =>
      refine iff_of_true ⟨by simp, by simp⟩ fun h => ?_
      obtain ⟨sp, hSP', -⟩ := h.lost
      exact Option.some_ne_none sp (hSP'.symm.trans hSP)
    | some sp =>
      dsimp only
      by_cases hSpace : answers.configForSpace.isSome = true
      · rw [if_pos hSpace]
        refine iff_of_true ⟨fun _ => rfl, fun hSucceeded => ?_⟩ fun h => ?_
        · exact absurd ((failed_iff_of_strict _ fun _ => rfl).mpr hSpace) (hSucceeded _ List.mem_cons_self)
        · simp [h.client.1] at hSpace
      · have hNone : answers.configForSpace = none := by simpa using hSpace
        rw [if_neg hSpace, hNone]
        by_cases hClient : answers.newForConfig = true
        · rw [if_neg (by simp [hClient]), retriesRightly_iff (writes_failed_iff env answers scRef scRef.name _)]
          constructor
          · rintro ⟨hFailed, -⟩ hLoses
            obtain ⟨sp', hSP', hLost⟩ := hLoses.lost
            cases Option.mem_unique hSP hSP'
            have hRetry := hFailed (.inl hLoses.unreadable)
            exact (writeConfig_retry_iff env answers _ _ hNameless hLoses.unreadable).mp hRetry hLost
          · refine fun hKeeps => ⟨?_, fun hNone _ => by simpa using fun h => hNone (.inr h)⟩
            rintro (hGet | hRetry)
            · refine (writeConfig_retry_iff env answers _ _ hNameless hGet).mpr fun hLost => ?_
              exact hKeeps ⟨hCluster, ⟨hNone, hClient⟩, hGet, sp, hSP, hLost⟩
            · exact hRetry
        · rw [if_pos (by simpa using hClient)]
          refine iff_of_true ⟨?_, fun _ _ => rfl⟩ fun h => hClient h.client.2
          simp [Attempt.Failed]

end KubeStellar.WorkloadProjector
