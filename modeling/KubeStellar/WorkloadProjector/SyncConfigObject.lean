import KubeStellar.WorkloadProjector.SyncerConfig
import KubeStellar.WorkloadProjector.Tracking

/-! # Writing a SyncerConfig

`syncConfigObject` reads the `SyncerConfig` of a mailbox and creates or updates it. The answers of the
API server and of the client libraries are inputs, and the calls are recorded with their outcomes.
-/

namespace KubeStellar.WorkloadProjector

open Option

/-- A call that was made and how it failed, if it did. -/
structure Attempt (Call : Type) where
  call : Call
  error : Option ApiError

def errorOf {α : Type} : Except ApiError α → Option ApiError
  | .ok _ => none
  | .error err => some err

inductive ConfigCall where
  | configForSpace (mbwsName : String)
  | get (name : ObjectName)
  | create (name : ObjectName) (spec : SyncerConfigSpec)
  | update (name : ObjectName) (spec : SyncerConfigSpec)

structure ConfigAnswers where
  configForSpace : Option ApiError
  newForConfig : Bool
  get : Except ApiError SyncerConfigSpec
  create : Option ApiError
  update : ObjectName → Option ApiError

def SyncerConfigSpec.zero : SyncerConfigSpec := ⟨[], [], []⟩

variable (env : Env) (answers : ConfigAnswers) (name : ObjectName) (relations : SyncerConfigSpecRelations)

def createConfig : List (Attempt ConfigCall) × Bool :=
  ([⟨.create name (syncerConfigSpecFromRelations env.ord relations), answers.create⟩], answers.create.isSome)

def updateConfig (spec : SyncerConfigSpec) : List (Attempt ConfigCall) × Bool :=
  if syncerConfigIsGood env.ord spec relations then ([], false)
  else
    ([⟨.update name (syncerConfigSpecFromRelations env.ord relations), answers.update name⟩],
      (answers.update name).isSome)

def writeConfig : List (Attempt ConfigCall) × Bool :=
  match answers.get with
  | .ok spec => updateConfig env answers name relations spec
  | .error .notFound => createConfig env answers name relations
  -- the error is only logged, and the client has returned an object without a name
  | .error _ => updateConfig env answers "" relations SyncerConfigSpec.zero

def syncConfigObject (wp : State) (scRef : ExternalName) : List (Attempt ConfigCall) × Bool :=
  if scRef.cluster = "" then ([], false)
  else match wp.mbwsNameToSP.get scRef.cluster with
    | none => ([], true)
    | some sp =>
      let space := ⟨.configForSpace scRef.cluster, answers.configForSpace⟩
      if answers.configForSpace.isSome then ([space], true)
      else if !answers.newForConfig then ([space], false)
      else
        let (calls, retry) := writeConfig env answers scRef.name (syncerConfigRelations env wp sp)
        (space :: ⟨.get scRef.name, errorOf answers.get⟩ :: calls, retry)

def ConfigCall.written : ConfigCall → Option SyncerConfigSpec
  | .configForSpace _ => none
  | .get _ => none
  | .create _ spec => some spec
  | .update _ spec => some spec

/-- The client does not send an update of an object without a name. -/
def ConfigAnswers.named : Option ApiError := if name = "" then some .other else none

/-- Every call with a name succeeds, and there is this `SyncerConfig` to get. -/
def ConfigAnswers.succeeding : Option SyncerConfigSpec → ConfigAnswers
  | none => ⟨none, true, .error .notFound, none, named⟩
  | some existing => ⟨none, true, .ok existing, none, named⟩

theorem written_succeeding_iff (env : Env) (existing : Option SyncerConfigSpec) (wp : State) (scRef : ExternalName)
    (spec : SyncerConfigSpec) :
    (∃ attempt ∈ (syncConfigObject env (.succeeding existing) wp scRef).1, attempt.call.written = some spec) ↔
      scRef.cluster ≠ "" ∧ ∃ sp, wp.mbwsNameToSP.get scRef.cluster = some sp ∧
        (∀ old, existing = some old → syncerConfigIsGood env.ord old (syncerConfigRelations env wp sp) = false) ∧
          spec = syncerConfigSpecFromRelations env.ord (syncerConfigRelations env wp sp) := by
  rw [syncConfigObject]
  by_cases hCluster : scRef.cluster = ""
  · simp [hCluster]
  · cases hSP : wp.mbwsNameToSP.get scRef.cluster with
    | none => simp [hCluster]
    | some sp =>
      cases existing with
      | none =>
        simp [hCluster, ConfigAnswers.succeeding, writeConfig, createConfig, ConfigCall.written, @eq_comm _ spec]
      | some old =>
        by_cases hGood : syncerConfigIsGood env.ord old (syncerConfigRelations env wp sp) <;>
          simp [hCluster, ConfigAnswers.succeeding, writeConfig, updateConfig, ConfigCall.written, hGood,
            @eq_comm _ spec]

theorem not_written_of_good {env : Env} {answers : ConfigAnswers} {wp : State} {scRef : ExternalName}
    {sp : SinglePlacement} {existing : SyncerConfigSpec} (hSP : wp.mbwsNameToSP.get scRef.cluster = some sp)
    (hGet : answers.get = .ok existing)
    (hGood : syncerConfigIsGood env.ord existing (syncerConfigRelations env wp sp) = true) :
    ∀ attempt ∈ (syncConfigObject env answers wp scRef).1, attempt.call.written = none := by
  have hWrite : writeConfig env answers scRef.name (syncerConfigRelations env wp sp) = ([], false) := by
    rw [writeConfig, hGet]
    exact if_pos hGood
  rw [syncConfigObject, hSP]
  simp only [hWrite]
  split
  · simp
  · split
    · simp [ConfigCall.written]
    · split <;> simp [ConfigCall.written]

def HasModes {Obj : Type} [DecidableEq Obj] (maps : ScopeMaps Obj) : Prop :=
  ∀ destination gr obj, Distributed maps destination gr obj → maps.modesForSync.get destination gr ≠ none

/-- What a destination is to get: the objects that go to the edge, in their versions, and the upsync sets. -/
structure Denotes (modes : ResourceModes) (wp : State) (destination : SinglePlacement) (spec : SyncerConfigSpec) :
    Prop where
  namespacedObjects : ∀ gr version nn, spec.ListsNamespaced gr version nn ↔ Distributed wp.ns destination gr nn ∧
    (modes gr).toEdge = true ∧ wp.ns.modesForSync.get destination gr = some ⟨version⟩
  clusterScope : ∀ gr version name, spec.ListsClusterScoped gr version name ↔ Distributed wp.nns destination gr name ∧
    (modes gr).toEdge = true ∧ wp.nns.modesForSync.get destination gr = some ⟨version⟩
  upsync : ∀ upsync, upsync ∈ spec.upsync ↔ wp.upsyncs.get destination upsync ≠ none

variable (wp : State) (destination : SinglePlacement)

theorem entry_scopeObjects_of_hasModes {Obj : Type} [DecidableEq Obj] {maps : ScopeMaps Obj} (hModes : HasModes maps)
    (gr : GroupResource) (obj : Obj) (version : String) :
    entry (scopeObjects env maps destination) gr obj = some ⟨version⟩ ↔ Distributed maps destination gr obj ∧
      (env.resourceModes gr).toEdge = true ∧ maps.modesForSync.get destination gr = some ⟨version⟩ := by
  rw [entry_scopeObjects_iff]
  refine and_congr_right fun hDistr => and_congr_right fun _ => ?_
  obtain ⟨pmv, hGet⟩ := ne_none_iff_exists'.mp (hModes destination gr obj hDistr)
  rw [modeOf, hGet, getD_some, Option.some.injEq, eq_comm]

theorem mem_upsync_fromRelations_iff (upsync : UpsyncSet) :
    upsync ∈ (syncerConfigSpecFromRelations env.ord (syncerConfigRelations env wp destination)).upsync ↔
      wp.upsyncs.get destination upsync ≠ none := by
  refine (mem_visitableToSlice_iff env.ord _ upsync).trans ?_
  rw [GoMap.has, isSome_iff_ne_none, syncerConfigRelations, FactoredMap.get]
  cases wp.upsyncs.index destination <;> exact Iff.rfl

/-- The spec of a destination says what the destination is to get, and once it is there it is left alone. -/
theorem syncerConfigSpec_denotes (hNs : HasModes wp.ns) (hNns : HasModes wp.nns) :
    Denotes env.resourceModes wp destination
        (syncerConfigSpecFromRelations env.ord (syncerConfigRelations env wp destination)) ∧
      ∀ ord, syncerConfigIsGood ord (syncerConfigSpecFromRelations env.ord (syncerConfigRelations env wp destination))
          (syncerConfigRelations { env with ord := ord } wp destination) = true ∧
        ∀ scRef answers, wp.mbwsNameToSP.get scRef.cluster = some destination →
          answers.get = .ok (syncerConfigSpecFromRelations env.ord (syncerConfigRelations env wp destination)) →
            ∀ attempt ∈ (syncConfigObject { env with ord := ord } answers wp scRef).1, attempt.call.written = none := by
  refine ⟨⟨?_, ?_, mem_upsync_fromRelations_iff env wp destination⟩, fun ord => ?_⟩
  · intro gr version nn
    exact (listsNamespaced_fromRelations_iff env.ord _ gr version nn).trans
      (entry_scopeObjects_of_hasModes env destination hNs gr nn version)
  · intro gr version name
    exact (listsClusterScoped_fromRelations_iff env.ord _ gr version name).trans
      (entry_scopeObjects_of_hasModes env destination hNns gr name version)
  · have hGood := syncerConfigIsGood_fromRelations env ord wp destination
    exact ⟨hGood, fun scRef answers hSP hGet => not_written_of_good hSP hGet hGood⟩

/-- One `ConfigMap` for one destination, in version `v1`. -/
def settingsState : State :=
  { newWorkloadProjector with
    ns := { newWorkloadProjector.ns with
      distributionsForSync := (∅ : FactoredMap SinglePlacement ((GroupResource × NamespacedName) × String) _).put
        edgeDestination ((settingsModeKey.groupResource, ("apps", "settings")), "wds1") ⟨false, false⟩
      modesForSync := (∅ : FactoredMap SinglePlacement GroupResource _).put
        edgeDestination settingsModeKey.groupResource ⟨"v1"⟩ } }

theorem eq_of_distributed_single {Obj : Type} [DecidableEq Obj] {maps : ScopeMaps Obj} {d₀ d : SinglePlacement}
    {key : (GroupResource × Obj) × String} {bits : DistributionBits} {gr : GroupResource} {obj : Obj}
    (hMaps : maps.distributionsForSync = (∅ : FactoredMap SinglePlacement _ DistributionBits).put d₀ key bits)
    (hDistr : Distributed maps d gr obj) : d = d₀ ∧ (gr, obj) = key.1 := by
  obtain ⟨source, hGet⟩ := hDistr
  rw [hMaps, FactoredMap.get_put] at hGet
  by_contra hKey
  refine hGet (if_neg ?_)
  rintro ⟨hDest, rfl⟩
  exact hKey ⟨hDest, rfl⟩

theorem settingsState_hasModes : HasModes settingsState.ns := by
  intro destination gr obj hDistr
  obtain ⟨rfl, hKey⟩ := eq_of_distributed_single rfl hDistr
  cases hKey
  exact some_ne_none _

theorem syncerConfigSpec_denotes_settings : HasModes settingsState.ns ∧ HasModes settingsState.nns ∧
    Denotes edgeEnv.resourceModes settingsState edgeDestination
      (syncerConfigSpecFromRelations edgeEnv.ord (syncerConfigRelations edgeEnv settingsState edgeDestination)) := by
  have hNns : HasModes settingsState.nns := by
    rintro destination gr obj ⟨source, hGet⟩
    exact absurd rfl hGet
  exact ⟨settingsState_hasModes, hNns,
    (syncerConfigSpec_denotes edgeEnv settingsState edgeDestination settingsState_hasModes hNns).1⟩

end KubeStellar.WorkloadProjector
