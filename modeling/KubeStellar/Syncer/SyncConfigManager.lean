import KubeStellar.Syncer.Client
import Mathlib.Data.List.Induction

/-! # The resources to be synced

`pkg/syncer/controller/syncconfigmanager.go`: which resources the current configs say to sync, and which ones earlier
configs said and the current ones do not. The conversions lag behind by one operation.
-/

namespace KubeStellar.Syncer

section

structure EdgeSynConversion where
  upstream : EdgeSyncConfigResource
  downstream : EdgeSyncConfigResource
deriving DecidableEq

structure EdgeSyncConfig where
  name : String
  downSyncedResources : List EdgeSyncConfigResource
  upSyncedResources : List EdgeSyncConfigResource
  conversions : List EdgeSynConversion

structure IndexedSyncedResources where
  syncedResources : List EdgeSyncConfigResource
  index : GoMap EdgeSyncConfigResource Bool
  nodup : syncedResources.Nodup
  mem_iff : ∀ resource, resource ∈ syncedResources ↔ index.has resource = true

namespace IndexedSyncedResources

def indexOf (resources : List EdgeSyncConfigResource) : GoMap EdgeSyncConfigResource Bool :=
  resources.foldl (fun index resource => if index.has resource then index else index.put resource true) ∅

variable (resources : List EdgeSyncConfigResource) (resource : EdgeSyncConfigResource)

theorem has_foldl_iff (index : GoMap EdgeSyncConfigResource Bool) (resource : EdgeSyncConfigResource) :
    (resources.foldl (fun index resource => if index.has resource then index else index.put resource true) index).has
      resource = true ↔ resource ∈ resources ∨ index.has resource = true := by
  induction resources generalizing index with
  | nil => simp
  | cons first resources ih =>
    have hFirst : (if index.has first then index else index.put first true).has resource = true ↔
        resource = first ∨ index.has resource = true := by
      split
      · refine ⟨.inr, fun h => h.elim (fun hEq => ?_) id⟩
        rwa [hEq]
      · rw [GoMap.has, GoMap.get_put]
        split
        · rename_i hEq
          exact ⟨fun _ => .inl hEq, fun _ => rfl⟩
        · rename_i hNe
          exact ⟨.inr, fun h => h.resolve_left hNe⟩
    rw [List.foldl_cons, ih, hFirst, List.mem_cons]
    tauto

theorem has_indexOf_iff : (indexOf resources).has resource = true ↔ resource ∈ resources := by
  rw [indexOf, has_foldl_iff, GoMap.has, GoMap.get_empty]
  simp

theorem zero_mem_iff :
    resource ∈ ([] : List EdgeSyncConfigResource) ↔ (∅ : GoMap EdgeSyncConfigResource Bool).has resource = true := by
  rw [GoMap.has, GoMap.get_empty]
  simp

def zero : IndexedSyncedResources := ⟨[], ∅, List.nodup_nil, zero_mem_iff⟩

end IndexedSyncedResources

def createIndexedSyncedResources (ord : RangeOrder) (resources : List EdgeSyncConfigResource) :
    IndexedSyncedResources where
  syncedResources := (ord.visit (IndexedSyncedResources.indexOf resources)).map Prod.fst
  index := IndexedSyncedResources.indexOf resources
  nodup := ord.visit_nodup _
  mem_iff := ord.mem_visit_keys_iff _

theorem mem_createIndexedSyncedResources_iff {ord : RangeOrder} {resources : List EdgeSyncConfigResource}
    {resource : EdgeSyncConfigResource} :
    resource ∈ (createIndexedSyncedResources ord resources).syncedResources ↔ resource ∈ resources :=
  ((createIndexedSyncedResources ord resources).mem_iff resource).trans
    (IndexedSyncedResources.has_indexOf_iff resources resource)

inductive Flow where
  | down
  | up

def EdgeSyncConfig.resources (config : EdgeSyncConfig) : Flow → List EdgeSyncConfigResource
  | .down => config.downSyncedResources
  | .up => config.upSyncedResources

structure SyncConfigManager where
  syncConfigMap : GoMap String EdgeSyncConfig
  indexedDownSyncedResources : IndexedSyncedResources
  indexedUpSyncedResources : IndexedSyncedResources
  indexedDownUnsyncedResources : IndexedSyncedResources
  indexedUpUnsyncedResources : IndexedSyncedResources
  conversions : List EdgeSynConversion

def newSyncConfigManager : SyncConfigManager where
  syncConfigMap := ∅
  indexedDownSyncedResources := createIndexedSyncedResources .insertion []
  indexedUpSyncedResources := createIndexedSyncedResources .insertion []
  indexedDownUnsyncedResources := .zero
  indexedUpUnsyncedResources := .zero
  conversions := []

variable (ord : RangeOrder)

def createIndexedResources (flow : Flow) (syncConfigMap : GoMap String EdgeSyncConfig) : IndexedSyncedResources :=
  createIndexedSyncedResources ord ((ord.visit syncConfigMap).flatMap fun e => e.2.resources flow)

variable (syncConfigMap : GoMap String EdgeSyncConfig)

def createIndexedDownAndUpSyncedResources : IndexedSyncedResources × IndexedSyncedResources :=
  (createIndexedResources ord .down syncConfigMap, createIndexedResources ord .up syncConfigMap)

def notIn (resources newIndexedSyncedResources : IndexedSyncedResources) : List EdgeSyncConfigResource :=
  ((ord.visit resources.index).map Prod.fst).filter fun key => !newIndexedSyncedResources.index.has key

def updateUnsyncedResources (currentIndexedUnsyncedResources currentIndexedSyncedResources
    newIndexedSyncedResources : IndexedSyncedResources) : IndexedSyncedResources :=
  createIndexedSyncedResources ord (notIn ord currentIndexedUnsyncedResources newIndexedSyncedResources ++
    notIn ord currentIndexedSyncedResources newIndexedSyncedResources)

def copySyncConfigMap : GoMap String EdgeSyncConfig :=
  GoMap.putAll ∅ (ord.visit syncConfigMap)

namespace SyncConfigManager

variable (s : SyncConfigManager)

def refresh (newSyncConfig : GoMap String EdgeSyncConfig) : SyncConfigManager :=
  let current := createIndexedDownAndUpSyncedResources ord s.syncConfigMap
  let new := createIndexedDownAndUpSyncedResources ord newSyncConfig
  { s with
    -- those of the configs before the operation
    conversions := (ord.visit s.syncConfigMap).flatMap fun e => e.2.conversions
    indexedDownSyncedResources := new.1
    indexedDownUnsyncedResources := updateUnsyncedResources ord s.indexedDownUnsyncedResources current.1 new.1
    indexedUpSyncedResources := new.2
    indexedUpUnsyncedResources := updateUnsyncedResources ord s.indexedUpUnsyncedResources current.2 new.2 }

def upsert (syncConfig : EdgeSyncConfig) : SyncConfigManager :=
  let newSyncConfig := (copySyncConfigMap ord s.syncConfigMap).put syncConfig.name syncConfig
  { s.refresh ord newSyncConfig with syncConfigMap := newSyncConfig }

def delete (key : String) : SyncConfigManager :=
  let newSyncConfig := (copySyncConfigMap ord s.syncConfigMap).delete key
  { s.refresh ord newSyncConfig with syncConfigMap := newSyncConfig }

def getDownSyncedResources : List EdgeSyncConfigResource := s.indexedDownSyncedResources.syncedResources

def getUpSyncedResources : List EdgeSyncConfigResource := s.indexedUpSyncedResources.syncedResources

def getDownUnsyncedResources : List EdgeSyncConfigResource :=
  s.indexedDownUnsyncedResources.syncedResources

def getUpUnsyncedResources : List EdgeSyncConfigResource :=
  s.indexedUpUnsyncedResources.syncedResources

def getConversions : List EdgeSynConversion := s.conversions

def synced : Flow → List EdgeSyncConfigResource
  | .down => s.getDownSyncedResources
  | .up => s.getUpSyncedResources

def unsynced : Flow → List EdgeSyncConfigResource
  | .down => s.getDownUnsyncedResources
  | .up => s.getUpUnsyncedResources

end SyncConfigManager

end

open List GoMap

def Says (configs : String → Option EdgeSyncConfig) (flow : Flow) (resource : EdgeSyncConfigResource) : Prop :=
  ∃ name config, configs name = some config ∧ resource ∈ config.resources flow

variable {ord : RangeOrder} {resource : EdgeSyncConfigResource} {flow : Flow}

theorem get_copySyncConfigMap (syncConfigMap : GoMap String EdgeSyncConfig) (key : String) :
    (copySyncConfigMap ord syncConfigMap).get key = syncConfigMap.get key := by
  have hAgree : ∀ k v v', (k, v) ∈ ord.visit syncConfigMap → (k, v') ∈ ord.visit syncConfigMap → v = v' := by
    intro k v v' hv hv'
    rw [ord.mem_visit_iff] at hv hv'
    exact Option.mem_unique hv hv'
  refine Option.ext fun config => ?_
  rw [copySyncConfigMap, get_putAll_empty_iff _ hAgree, ord.mem_visit_iff]

theorem mem_createIndexedResources_iff {syncConfigMap : GoMap String EdgeSyncConfig} :
    resource ∈ (createIndexedResources ord flow syncConfigMap).syncedResources ↔
      Says syncConfigMap.get flow resource := by
  rw [createIndexedResources, mem_createIndexedSyncedResources_iff, mem_flatMap]
  constructor
  · rintro ⟨e, hMem, hResource⟩
    exact ⟨e.1, e.2, (ord.mem_visit_iff _ e.1 e.2).mp hMem, hResource⟩
  · rintro ⟨name, config, hGet, hResource⟩
    exact ⟨(name, config), (ord.mem_visit_iff _ _ _).mpr hGet, hResource⟩

theorem mem_notIn_iff {resources new : IndexedSyncedResources} : resource ∈ notIn ord resources new ↔
    resource ∈ resources.syncedResources ∧ resource ∉ new.syncedResources := by
  rw [notIn, mem_filter, ord.mem_visit_keys_iff, resources.mem_iff, new.mem_iff, Bool.not_eq_true', Bool.not_eq_true]

theorem mem_updateUnsyncedResources_iff {unsynced current new : IndexedSyncedResources} :
    resource ∈ (updateUnsyncedResources ord unsynced current new).syncedResources ↔
      (resource ∈ unsynced.syncedResources ∨ resource ∈ current.syncedResources) ∧ resource ∉ new.syncedResources := by
  rw [updateUnsyncedResources, mem_createIndexedSyncedResources_iff, mem_append, mem_notIn_iff, mem_notIn_iff,
    or_and_right]

namespace SyncConfigManager

inductive Operation where
  | upsert (syncConfig : EdgeSyncConfig)
  | delete (key : String)

/-- An operation, with the order in which it ranges over maps. -/
structure Step where
  ord : RangeOrder
  operation : Operation

variable (s : SyncConfigManager)

def step (x : Step) : SyncConfigManager :=
  match x.operation with
  | .upsert syncConfig => s.upsert x.ord syncConfig
  | .delete key => s.delete x.ord key

variable (steps : List Step)

def run : SyncConfigManager := steps.foldl step newSyncConfigManager

def Operation.configs (configs : String → Option EdgeSyncConfig) : Operation → String → Option EdgeSyncConfig
  | .upsert syncConfig, name => if name = syncConfig.name then some syncConfig else configs name
  | .delete key, name => if name = key then none else configs name

def currentConfigs : String → Option EdgeSyncConfig :=
  steps.foldl (fun configs x => x.operation.configs configs) fun _ => none

theorem synced_nodup (flow : Flow) : (s.synced flow).Nodup := by
  cases flow
  · exact s.indexedDownSyncedResources.nodup
  · exact s.indexedUpSyncedResources.nodup

theorem unsynced_nodup (flow : Flow) : (s.unsynced flow).Nodup := by
  cases flow
  · exact s.indexedDownUnsyncedResources.nodup
  · exact s.indexedUpUnsyncedResources.nodup

variable (s : SyncConfigManager) (x : Step)

theorem step_eq : s.step x =
    { s.refresh x.ord (s.step x).syncConfigMap with syncConfigMap := (s.step x).syncConfigMap } := by
  obtain ⟨ord, operation⟩ := x
  cases operation <;> rfl

theorem configs_step : (s.step x).syncConfigMap.get = x.operation.configs s.syncConfigMap.get := by
  obtain ⟨ord, operation⟩ := x
  funext name
  cases operation with
  | upsert syncConfig =>
    refine (get_put _ _ _ _).trans ?_
    rw [get_copySyncConfigMap]
    rfl
  | delete key =>
    refine (get_delete _ _ _).trans ?_
    rw [get_copySyncConfigMap]
    rfl

theorem mem_synced_step_iff (flow : Flow) (resource : EdgeSyncConfigResource) :
    resource ∈ (s.step x).synced flow ↔ Says (s.step x).syncConfigMap.get flow resource := by
  rw [step_eq]
  cases flow <;> exact mem_createIndexedResources_iff

theorem mem_unsynced_step_iff (flow : Flow) (resource : EdgeSyncConfigResource) : resource ∈ (s.step x).unsynced flow ↔
      (resource ∈ s.unsynced flow ∨ Says s.syncConfigMap.get flow resource) ∧ resource ∉ (s.step x).synced flow := by
  rw [step_eq]
  cases flow <;> refine mem_updateUnsyncedResources_iff.trans (and_congr_left fun _ => or_congr_right ?_) <;>
    exact mem_createIndexedResources_iff

variable (steps : List Step)

theorem run_append (x : Step) : run (steps ++ [x]) = (run steps).step x := by
  rw [run, foldl_append]
  rfl

theorem configs_run : (run steps).syncConfigMap.get = currentConfigs steps := by
  induction steps using List.reverseRecOn with
  | nil =>
    funext name
    exact get_empty name
  | append_singleton steps x ih =>
    rw [run_append, configs_step, ih, currentConfigs, currentConfigs, foldl_append]
    rfl

theorem mem_synced_run_iff (flow : Flow) (resource : EdgeSyncConfigResource) :
    resource ∈ (run steps).synced flow ↔ Says (run steps).syncConfigMap.get flow resource := by
  rcases eq_nil_or_concat steps with rfl | ⟨earlier, x, rfl⟩
  · have hNone : ¬ Says (run []).syncConfigMap.get flow resource := by
      rintro ⟨name, config, hGet, -⟩
      cases (get_empty name).symm.trans hGet
    refine iff_of_false (fun hMem => ?_) hNone
    cases flow <;> exact not_mem_nil (mem_createIndexedSyncedResources_iff.mp hMem)
  · rw [concat_eq_append, run_append]
    exact mem_synced_step_iff (run earlier) x flow resource

def SyncedEarlier (flow : Flow) (resource : EdgeSyncConfigResource) : Prop :=
  ∃ earlier, earlier <+: steps ∧ earlier ≠ steps ∧ resource ∈ (run earlier).synced flow

theorem syncedEarlier_append_iff {steps : List Step} {x : Step} {resource : EdgeSyncConfigResource} :
    SyncedEarlier (steps ++ [x]) flow resource ↔
      SyncedEarlier steps flow resource ∨ resource ∈ (run steps).synced flow := by
  constructor
  · rintro ⟨earlier, hPrefix, hNe, hMem⟩
    rcases prefix_concat_iff.mp hPrefix with hAll | hPrefix
    · exact absurd hAll hNe
    · by_cases hEq : earlier = steps
      · exact .inr (hEq ▸ hMem)
      · exact .inl ⟨earlier, hPrefix, hEq, hMem⟩
  · have hNe : ∀ {earlier}, earlier <+: steps → earlier ≠ steps ++ [x] := by
      rintro earlier hPrefix rfl
      have hLength := hPrefix.length_le
      rw [length_append, length_singleton] at hLength
      omega
    rintro (⟨earlier, hPrefix, -, hMem⟩ | hMem)
    · exact ⟨earlier, hPrefix.trans (prefix_append _ _), hNe hPrefix, hMem⟩
    · exact ⟨steps, prefix_append _ _, hNe prefix_rfl, hMem⟩

theorem mem_unsynced_run_iff (flow : Flow) (resource : EdgeSyncConfigResource) : resource ∈ (run steps).unsynced flow ↔
      SyncedEarlier steps flow resource ∧ resource ∉ (run steps).synced flow := by
  induction steps using List.reverseRecOn with
  | nil =>
    refine iff_of_false (fun hMem => ?_) fun h => ?_
    · cases flow <;> exact not_mem_nil hMem
    · obtain ⟨earlier, hPrefix, hNe, -⟩ := h.1
      exact hNe (prefix_nil.mp hPrefix)
  | append_singleton steps x ih =>
    rw [run_append, mem_unsynced_step_iff, ih, ← mem_synced_run_iff, syncedEarlier_append_iff]
    -- what was unsynced or synced before is what was synced at some time before
    refine and_congr_left fun _ => ?_
    tauto

/-- How the lists for one direction relate to the operations so far. -/
structure Bookkeeping (steps : List Step) (flow : Flow) : Prop where
  syncedNodup : ((run steps).synced flow).Nodup
  synced : ∀ resource, resource ∈ (run steps).synced flow ↔ Says (currentConfigs steps) flow resource
  unsyncedNodup : ((run steps).unsynced flow).Nodup
  unsynced : ∀ resource, resource ∈ (run steps).unsynced flow ↔
    SyncedEarlier steps flow resource ∧ resource ∉ (run steps).synced flow
  disjoint : ((run steps).synced flow).Disjoint ((run steps).unsynced flow)

/-- After any operations, the synced resources are those that the configurations name, and the others that ever were
are to be unsynced. -/
theorem bookkeeping (steps : List Step) (flow : Flow) : Bookkeeping steps flow where
  syncedNodup := synced_nodup (run steps) flow
  synced resource := by
    rw [mem_synced_run_iff, configs_run]
  unsyncedNodup := unsynced_nodup (run steps) flow
  unsynced := mem_unsynced_run_iff steps flow
  disjoint resource hSynced hUnsynced := ((mem_unsynced_run_iff steps flow resource).mp hUnsynced).2 hSynced

def Operation.key : Operation → String
  | .upsert syncConfig => syncConfig.name
  | .delete key => key

def Operation.conversions : Operation → List EdgeSynConversion
  | .upsert syncConfig => syncConfig.conversions
  | .delete _ => []

def conversionsOf (config : Option EdgeSyncConfig) : List EdgeSynConversion := config.elim [] EdgeSyncConfig.conversions

/-- The conversions that the manager tells are those of the configs that it has, in some order. -/
def ConversionsCurrent : Prop :=
  s.getConversions.Perm (s.syncConfigMap.entries.flatMap fun e => e.2.conversions)

theorem conversions_step : (s.step x).getConversions.Perm
    (s.syncConfigMap.entries.flatMap fun e => e.2.conversions) := by
  rw [step_eq]
  exact (x.ord.perm s.syncConfigMap).flatMap_right _

theorem get_key_step : conversionsOf ((s.step x).syncConfigMap.get x.operation.key) = x.operation.conversions := by
  rw [configs_step]
  cases x.operation with
  | upsert syncConfig => exact congrArg conversionsOf (if_pos rfl)
  | delete key => exact congrArg conversionsOf (if_pos rfl)

theorem get_step_of_ne {name : String} (hNe : name ≠ x.operation.key) :
    (s.step x).syncConfigMap.get name = s.syncConfigMap.get name := by
  rw [configs_step]
  obtain ⟨ord, operation⟩ := x
  cases operation <;> exact if_neg hNe

theorem conversionsCurrent_step_iff : ConversionsCurrent (s.step x) ↔
      (conversionsOf (s.syncConfigMap.get x.operation.key)).Perm x.operation.conversions := by
  have hBefore := s.syncConfigMap.flatMap_perm_delete x.operation.key EdgeSyncConfig.conversions
  have hAfter := (s.step x).syncConfigMap.flatMap_perm_delete x.operation.key EdgeSyncConfig.conversions
  -- the other configs are the same before and after
  have hOthers : ((s.step x).syncConfigMap.delete x.operation.key).entries.Perm
      (s.syncConfigMap.delete x.operation.key).entries := by
    refine entries_perm_of_get fun name => ?_
    rw [get_delete, get_delete]
    split
    · rfl
    · rename_i hNe
      exact get_step_of_ne s x hNe
  have hAfter := hAfter.trans ((hOthers.flatMap_right fun e => e.2.conversions).append_left _)
  rw [ConversionsCurrent, ← get_key_step s x]
  calc
    _ ↔ (s.syncConfigMap.entries.flatMap fun e => e.2.conversions).Perm
        ((s.step x).syncConfigMap.entries.flatMap fun e => e.2.conversions) :=
      ⟨(conversions_step s x).symm.trans, (conversions_step s x).trans⟩
    _ ↔ _ := ⟨fun h => hBefore.symm.trans (h.trans hAfter), fun h => hBefore.trans (h.trans hAfter.symm)⟩
    _ ↔ _ := perm_append_right_iff _

/-- After an operation, the conversions are current if it leaves those of the config it is about as they are. -/
theorem conversionsCurrent_run_iff (steps : List Step) (x : Step) : ConversionsCurrent (run (steps ++ [x])) ↔
      (conversionsOf (currentConfigs steps x.operation.key)).Perm x.operation.conversions := by
  rw [run_append, conversionsCurrent_step_iff, configs_run]

/-- Of a ConfigMap that is another ConfigMap downstream. -/
def renamedSettings : EdgeSyncConfig where
  name := "settings"
  downSyncedResources := [⟨"ConfigMap", "", "v1", "settings", "default"⟩]
  upSyncedResources := []
  conversions := [⟨⟨"ConfigMap", "", "v1", "settings", "default"⟩, ⟨"ConfigMap", "", "v1", "settings-1", "default"⟩⟩]

/-- The conversions are collected before the configuration is stored. -/
theorem conversions_late_after_first_upsert : (run [⟨.insertion, .upsert renamedSettings⟩]).getConversions = [] ∧
      (run [⟨.insertion, .upsert renamedSettings⟩]).syncConfigMap.entries = [("settings", renamedSettings)] ∧
      ¬ ConversionsCurrent (run [⟨.insertion, .upsert renamedSettings⟩]) := by
  refine ⟨by rfl, by rfl, fun hCurrent => ?_⟩
  exact absurd hCurrent.length_eq (by decide)

end SyncConfigManager

end KubeStellar.Syncer
