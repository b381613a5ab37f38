import KubeStellar.Syncer.SyncerConfig

/-! # The SyncerConfigs of a syncer

`SyncerConfigManager` of `pkg/syncer/controller/syncerconfigmanager.go`. A SyncerConfig is only kept when it comes; a
refresh turns each one into four EdgeSyncConfigs.
-/

namespace KubeStellar.Syncer

open List GoMap

structure SyncerConfigManager where
  syncConfigManager : SyncConfigManager
  syncerConfigMap : GoMap String SyncerConfig

/-- What `GetAPIGroupResources` of the two factories returns, none if it fails. -/
structure Discovered where
  upstream : Option Discovery
  downstream : Option Discovery

namespace SyncerConfigManager

def newSyncerConfigManager : SyncerConfigManager := ⟨newSyncConfigManager, ∅⟩

variable (syncerConfig : SyncerConfig)

def part (suffix : String) (down up : List EdgeSyncConfigResource) : EdgeSyncConfig :=
  { name := syncerConfig.name ++ suffix, downSyncedResources := down, upSyncedResources := up, conversions := [] }

variable (upstream : Discovery)

def upsertNamespaceScoped : EdgeSyncConfig :=
  part syncerConfig downsyncNamespacedSuffix (namespaceScopedResources upstream syncerConfig.spec) []

def upsertNamespacedObjects : EdgeSyncConfig :=
  part syncerConfig downsyncNamespacedObjectsSuffix (namespacedObjectsResources upstream syncerConfig.spec) []

def upsertClusterScoped : EdgeSyncConfig :=
  part syncerConfig downsyncClusterscopedSuffix (clusterScopedResources upstream syncerConfig.spec) []

def upsertUpsync (ord : RangeOrder) (syncerConfig : SyncerConfig) (downstream : Discovery) : EdgeSyncConfig :=
  part syncerConfig upsyncSuffix [] (upsyncResources downstream syncerConfig.spec ord)

/-- What one pass of the loop of `Refresh` upserts to the manager below. -/
def parts (ord : RangeOrder) (upstream downstream : Discovery) (syncerConfig : SyncerConfig) : List EdgeSyncConfig :=
  [upsertNamespacedObjects syncerConfig upstream, upsertNamespaceScoped syncerConfig upstream,
    upsertClusterScoped syncerConfig upstream, upsertUpsync ord syncerConfig downstream]

def refreshParts (ord : RangeOrder) : List (SyncerConfig × Discovered) → List EdgeSyncConfig
  | [] => []
  | (syncerConfig, discovered) :: rest =>
    match discovered.upstream with
    | none => []
    | some upstream =>
      match discovered.downstream with
      | none => []
      | some downstream => parts ord upstream downstream syncerConfig ++ refreshParts ord rest

def suffixes : List String :=
  [downsyncNamespacedSuffix, downsyncNamespacedObjectsSuffix, downsyncClusterscopedSuffix, upsyncSuffix]

inductive Operation where
  | upsert (syncerConfig : SyncerConfig)
  | delete (key : String)
  | refresh (discovered : Nat → Discovered)

/-- An operation, with the orders of its own ranges and of those in the operations that it calls for. -/
structure Step where
  ord : RangeOrder
  orders : Nat → RangeOrder
  operation : Operation

variable (s : SyncerConfigManager) (x : Step) {c : EdgeSyncConfig}

def operations : List SyncConfigManager.Operation :=
  match x.operation with
  | .upsert _ => []
  | .delete key => suffixes.map fun suffix => .delete (key ++ suffix)
  | .refresh discovered =>
    (refreshParts x.ord ((x.ord.visit s.syncerConfigMap).mapIdx fun i e => (e.2, discovered i))).map .upsert

def Operation.configs (operation : Operation) (syncerConfigMap : GoMap String SyncerConfig) :
    GoMap String SyncerConfig :=
  match operation with
  | .upsert syncerConfig => syncerConfigMap.put syncerConfig.name syncerConfig
  | .delete key => syncerConfigMap.delete key
  | .refresh _ => syncerConfigMap

/-- What the operation does to the manager below, step by step. -/
def steps : List SyncConfigManager.Step := (s.operations x).mapIdx fun i operation => ⟨x.orders i, operation⟩

def step : SyncerConfigManager where
  syncConfigManager := (s.steps x).foldl SyncConfigManager.step s.syncConfigManager
  syncerConfigMap := x.operation.configs s.syncerConfigMap

variable (steps : List Step)

def run : SyncerConfigManager := steps.foldl step newSyncerConfigManager

def ending (key : String) : List Char := key.toList.reverse.take 3

theorem ending_append {name suffix : String} (hSuffix : suffix ∈ suffixes) :
    ending (name ++ suffix) = ending suffix := by
  have hLong : ∀ suffix ∈ suffixes, 3 ≤ suffix.toList.reverse.length := by decide
  rw [ending, ending, String.toList_append, reverse_append, take_append_of_le_length (hLong suffix hSuffix)]

theorem ending_inj : ∀ suffix ∈ suffixes, ∀ suffix' ∈ suffixes, ending suffix = ending suffix' → suffix = suffix' := by
  decide

theorem key_inj {name name' suffix suffix' : String} (hSuffix : suffix ∈ suffixes) (hSuffix' : suffix' ∈ suffixes)
    (hKey : name ++ suffix = name' ++ suffix') : name = name' ∧ suffix = suffix' := by
  have hEnding : ending suffix = ending suffix' := by
    rw [← @ending_append name suffix hSuffix, hKey, ending_append hSuffix']
  obtain rfl := ending_inj suffix hSuffix suffix' hSuffix' hEnding
  have hChars := congrArg String.toList hKey
  rw [String.toList_append, String.toList_append] at hChars
  exact ⟨String.toList_inj.mp (append_cancel_right hChars), rfl⟩

section Below

variable (operations : List SyncConfigManager.Operation)

def configsAfter (configs : String → Option EdgeSyncConfig) : String → Option EdgeSyncConfig :=
  operations.foldl (fun configs operation => operation.configs configs) configs

theorem configs_foldl (orders : Nat → RangeOrder)
    (m : SyncConfigManager) :
    ((operations.mapIdx fun i operation => ⟨orders i, operation⟩).foldl SyncConfigManager.step m).syncConfigMap.get =
      configsAfter operations m.syncConfigMap.get := by
  induction operations generalizing orders m with
  | nil => rfl
  | cons operation operations ih =>
    rw [mapIdx_cons, foldl_cons, configsAfter, foldl_cons, ← SyncConfigManager.configs_step m ⟨orders 0, operation⟩]
    exact ih (fun i => orders (i + 1)) _

variable (configs : String → Option EdgeSyncConfig) {parts : List EdgeSyncConfig}

theorem configsAfter_upserts_of_not_mem {key : String} (hNot : ∀ c ∈ parts, c.name ≠ key) :
    configsAfter (parts.map .upsert) configs key = configs key := by
  induction parts generalizing configs with
  | nil => rfl
  | cons first parts ih =>
    refine (ih _ fun c hMem => hNot c (mem_cons_of_mem _ hMem)).trans ?_
    exact if_neg (hNot first mem_cons_self).symm

theorem configsAfter_upserts_of_mem
    (hAgree : ∀ c ∈ parts, ∀ c' ∈ parts, c.name = c'.name → c = c') (hMem : c ∈ parts) :
    configsAfter (parts.map .upsert) configs c.name = some c := by
  induction parts generalizing configs with
  | nil => cases hMem
  | cons first parts ih =>
    by_cases hRest : ∃ c' ∈ parts, c'.name = c.name
    · obtain ⟨c', hMem', hName⟩ := hRest
      obtain rfl := hAgree c' (mem_cons_of_mem _ hMem') c hMem hName
      exact ih _ (fun a ha b hb => hAgree a (mem_cons_of_mem _ ha) b (mem_cons_of_mem _ hb)) hMem'
    · refine (configsAfter_upserts_of_not_mem _ fun c' hMem' hName => hRest ⟨c', hMem', hName⟩).trans ?_
      rcases mem_cons.mp hMem with rfl | hMem
      · exact if_pos rfl
      · exact absurd ⟨c, hMem, rfl⟩ hRest

theorem configsAfter_deletes (keys : List String) (key : String) :
    configsAfter (keys.map .delete) configs key = if key ∈ keys then none else configs key := by
  induction keys generalizing configs with
  | nil => rfl
  | cons first keys ih =>
    refine (ih _).trans ?_
    by_cases hFirst : key = first
    · simp [SyncConfigManager.Operation.configs, hFirst]
    · simp [SyncConfigManager.Operation.configs, hFirst]

end Below

variable {ord : RangeOrder} {upstream downstream : Discovery} {syncerConfig : SyncerConfig} (steps : List Step)

theorem name_of_mem_parts (hMem : c ∈ parts ord upstream downstream syncerConfig) :
    ∃ suffix ∈ suffixes, c.name = syncerConfig.name ++ suffix := by
  simp only [parts, mem_cons, not_mem_nil, or_false] at hMem
  rcases hMem with rfl | rfl | rfl | rfl
  · exact ⟨downsyncNamespacedObjectsSuffix, by decide, rfl⟩
  · exact ⟨downsyncNamespacedSuffix, by decide, rfl⟩
  · exact ⟨downsyncClusterscopedSuffix, by decide, rfl⟩
  · exact ⟨upsyncSuffix, by decide, rfl⟩

theorem exists_part {suffix : String} (hSuffix : suffix ∈ suffixes) :
    ∃ c ∈ parts ord upstream downstream syncerConfig, c.name = syncerConfig.name ++ suffix := by
  simp only [suffixes, mem_cons, not_mem_nil, or_false] at hSuffix
  rcases hSuffix with rfl | rfl | rfl | rfl
  · exact ⟨upsertNamespaceScoped syncerConfig upstream, by simp [parts], rfl⟩
  · exact ⟨upsertNamespacedObjects syncerConfig upstream, by simp [parts], rfl⟩
  · exact ⟨upsertClusterScoped syncerConfig upstream, by simp [parts], rfl⟩
  · exact ⟨upsertUpsync ord syncerConfig downstream, by simp [parts], rfl⟩

theorem parts_agree {c' : EdgeSyncConfig}
    (hMem : c ∈ parts ord upstream downstream syncerConfig) (hMem' : c' ∈ parts ord upstream downstream syncerConfig)
    (hName : c.name = c'.name) : c = c' := by
  have hNodup : ((parts ord upstream downstream syncerConfig).map EdgeSyncConfig.name).Nodup := by
    have hNames : (parts ord upstream downstream syncerConfig).map EdgeSyncConfig.name =
        [downsyncNamespacedObjectsSuffix, downsyncNamespacedSuffix, downsyncClusterscopedSuffix, upsyncSuffix].map
          (syncerConfig.name ++ ·) := rfl
    rw [hNames]
    refine List.Nodup.map_on (fun a ha b hb hKey => ?_) (by decide)
    have hIn : ∀ a ∈ [downsyncNamespacedObjectsSuffix, downsyncNamespacedSuffix, downsyncClusterscopedSuffix,
        upsyncSuffix], a ∈ suffixes := by decide
    exact (key_inj (hIn a ha) (hIn b hb) hKey).2
  exact inj_on_of_nodup_map hNodup hMem hMem' hName

theorem mem_refreshParts {passes : List (SyncerConfig × Discovered)} (hMem : c ∈ refreshParts ord passes) :
    ∃ pass ∈ passes, ∃ suffix ∈ suffixes, c.name = pass.1.name ++ suffix := by
  induction passes with
  | nil => cases hMem
  | cons pass passes ih =>
    rw [refreshParts] at hMem
    split at hMem
    · cases hMem
    · split at hMem
      · cases hMem
      · rcases mem_append.mp hMem with hMem | hMem
        · exact ⟨pass, mem_cons_self, name_of_mem_parts hMem⟩
        · obtain ⟨pass', hPass, hName⟩ := ih hMem
          exact ⟨pass', mem_cons_of_mem _ hPass, hName⟩

theorem of_mem_passes {syncerConfigMap : GoMap String SyncerConfig} {discovered : Nat → Discovered}
    {pass : SyncerConfig × Discovered}
    (hMem : pass ∈ (ord.visit syncerConfigMap).mapIdx fun i e => (e.2, discovered i)) :
    ∃ name, syncerConfigMap.get name = some pass.1 := by
  obtain ⟨i, hi, rfl⟩ := mem_mapIdx.mp hMem
  exact ⟨_, (ord.mem_visit_iff syncerConfigMap _ _).mp (getElem_mem hi)⟩

theorem refreshParts_of_discovered (entries : List (String × SyncerConfig)) :
    refreshParts ord (entries.mapIdx fun _ e => (e.2, ⟨some upstream, some downstream⟩)) =
      entries.flatMap fun e => parts ord upstream downstream e.2 := by
  induction entries with
  | nil => rfl
  | cons e entries ih =>
    rw [mapIdx_cons, flatMap_cons, ← ih]
    rfl

section Invariant

structure Kept (s : SyncerConfigManager) : Prop where
  names : ∀ name syncerConfig, s.syncerConfigMap.get name = some syncerConfig → syncerConfig.name = name
  keys : ∀ key c, s.syncConfigManager.syncConfigMap.get key = some c →
    ∃ name, s.syncerConfigMap.has name = true ∧ ∃ suffix ∈ suffixes, key = name ++ suffix

theorem configs_step_below (s : SyncerConfigManager) (x : Step) : (s.step x).syncConfigManager.syncConfigMap.get =
      configsAfter (s.operations x) s.syncConfigManager.syncConfigMap.get :=
  configs_foldl (s.operations x) x.orders s.syncConfigManager

variable {s : SyncerConfigManager}

theorem Kept.step (hKept : Kept s) (x : Step) : Kept (s.step x) := by
  have hBelow := configs_step_below s x
  obtain ⟨ord, orders, operation⟩ := x
  cases operation with
  | upsert syncerConfig =>
    refine ⟨forall_get_put hKept.names rfl, fun key c hGet => ?_⟩
    · obtain ⟨name, hHas, hKey⟩ := hKept.keys key c hGet
      refine ⟨name, ?_, hKey⟩
      rw [SyncerConfigManager.step, Operation.configs, GoMap.has, get_put]
      split
      · rfl
      · exact hHas
  | delete deleted =>
    refine ⟨fun name config hGet => hKept.names name config (get_of_get_delete hGet).2, fun key c hGet => ?_⟩
    · have hDeletes : s.operations ⟨ord, orders, .delete deleted⟩ = (suffixes.map (deleted ++ ·)).map .delete := rfl
      rw [hBelow, hDeletes, configsAfter_deletes] at hGet
      split at hGet
      · cases hGet
      · rename_i hNot
        obtain ⟨name, hHas, suffix, hSuffix, rfl⟩ := hKept.keys key c hGet
        refine ⟨name, ?_, suffix, hSuffix, rfl⟩
        rw [SyncerConfigManager.step, Operation.configs, GoMap.has, get_delete, if_neg ?_]
        · exact hHas
        · rintro rfl
          exact hNot (mem_map_of_mem hSuffix)
  | refresh discovered =>
    refine ⟨hKept.names, fun key c hGet => ?_⟩
    rw [hBelow] at hGet
    by_cases hPart : ∃ c' ∈ refreshParts ord ((ord.visit s.syncerConfigMap).mapIdx fun i e => (e.2, discovered i)),
        c'.name = key
    · obtain ⟨c', hMem, rfl⟩ := hPart
      obtain ⟨pass, hPass, suffix, hSuffix, hName⟩ := mem_refreshParts hMem
      obtain ⟨name, hConfig⟩ := of_mem_passes hPass
      refine ⟨name, Option.isSome_iff_exists.mpr ⟨pass.1, hConfig⟩, suffix, hSuffix, ?_⟩
      rw [hName, hKept.names name pass.1 hConfig]
    · rw [operations, configsAfter_upserts_of_not_mem _ fun c' hMem hName => hPart ⟨c', hMem, hName⟩] at hGet
      exact hKept.keys key c hGet

theorem kept_run : Kept (run steps) := by
  induction steps using List.reverseRecOn with
  | nil =>
    refine ⟨fun name syncerConfig hGet => ?_, fun key c hGet => ?_⟩
    · cases (get_empty name).symm.trans hGet
    · cases (get_empty key).symm.trans hGet
  | append_singleton steps x ih =>
    rw [run, foldl_append]
    exact ih.step x

variable (hKept : Kept s) {x : Step} {upstream downstream : Discovery}
  (hRefresh : x.operation = .refresh fun _ => ⟨some upstream, some downstream⟩)

include hKept hRefresh

theorem get_part {name : String} (hConfig : s.syncerConfigMap.get name = some syncerConfig)
    (hPart : c ∈ parts x.ord upstream downstream syncerConfig) :
    (s.step x).syncConfigManager.syncConfigMap.get c.name = some c := by
  have hOperations : s.operations x =
      ((x.ord.visit s.syncerConfigMap).flatMap fun e => parts x.ord upstream downstream e.2).map .upsert := by
    rw [operations, hRefresh, ← refreshParts_of_discovered]
  rw [configs_step_below, hOperations]
  refine configsAfter_upserts_of_mem _ (fun a ha b hb hName => ?_) (mem_flatMap.mpr ⟨(name, syncerConfig), ?_, hPart⟩)
  · obtain ⟨⟨name, config⟩, hVisit, ha⟩ := mem_flatMap.mp ha
    obtain ⟨⟨name', config'⟩, hVisit', hb⟩ := mem_flatMap.mp hb
    rw [x.ord.mem_visit_iff] at hVisit hVisit'
    -- parts with one key are of one SyncerConfig
    obtain ⟨suffix, hSuffix, hKey⟩ := name_of_mem_parts ha
    obtain ⟨suffix', hSuffix', hKey'⟩ := name_of_mem_parts hb
    have hKeys := hName
    rw [hKey, hKey', hKept.names name config hVisit, hKept.names name' config' hVisit'] at hKeys
    obtain rfl := (key_inj hSuffix hSuffix' hKeys).1
    cases hVisit.symm.trans hVisit'
    exact parts_agree ha hb hName
  · exact (x.ord.mem_visit_iff _ _ _).mpr hConfig

theorem says_refreshed (resource : EdgeSyncConfigResource) :
    Says (s.step x).syncConfigManager.syncConfigMap.get .down resource ↔
      ∃ name syncerConfig, s.syncerConfigMap.get name = some syncerConfig ∧
        resource ∈ downsyncedResources upstream syncerConfig.spec := by
  have hMap : (s.step x).syncerConfigMap = s.syncerConfigMap := by
    rw [SyncerConfigManager.step, hRefresh]
    rfl
  constructor
  · rintro ⟨key, c, hGet, hResource⟩
    obtain ⟨name, hHas, suffix, hSuffix, rfl⟩ := (hKept.step x).keys key c hGet
    rw [hMap, GoMap.has, Option.isSome_iff_exists] at hHas
    obtain ⟨syncerConfig, hConfig⟩ := hHas
    refine ⟨name, syncerConfig, hConfig, ?_⟩
    obtain ⟨c', hPart, hName⟩ := @exists_part x.ord upstream downstream syncerConfig suffix hSuffix
    have hSame := get_part hKept hRefresh hConfig hPart
    rw [hName, hKept.names name syncerConfig hConfig, hGet] at hSame
    cases hSame
    rw [mem_downsyncedResources_iff]
    simp only [parts, mem_cons, not_mem_nil, or_false] at hPart
    rcases hPart with rfl | rfl | rfl | rfl
    · exact .inl (.inl hResource)
    · exact .inl (.inr hResource)
    · exact .inr hResource
    · cases hResource
  · rintro ⟨name, syncerConfig, hConfig, hResource⟩
    have hSays : ∀ c ∈ parts x.ord upstream downstream syncerConfig, resource ∈ c.resources .down →
        Says (s.step x).syncConfigManager.syncConfigMap.get .down resource :=
      fun c hPart hIn => ⟨c.name, c, get_part hKept hRefresh hConfig hPart, hIn⟩
    rcases mem_downsyncedResources_iff.mp hResource with (hIn | hIn) | hIn
    · exact hSays (upsertNamespacedObjects syncerConfig upstream) (by simp [parts]) hIn
    · exact hSays (upsertNamespaceScoped syncerConfig upstream) (by simp [parts]) hIn
    · exact hSays (upsertClusterScoped syncerConfig upstream) (by simp [parts]) hIn

end Invariant

def historyFrom : SyncerConfigManager → List Step → List SyncConfigManager.Step
  | _, [] => []
  | s, x :: steps => s.steps x ++ historyFrom (s.step x) steps

def history : List SyncConfigManager.Step := historyFrom newSyncerConfigManager steps

theorem historyFrom_append (s : SyncerConfigManager) (earlier later : List Step) :
    historyFrom s (earlier ++ later) = historyFrom s earlier ++ historyFrom (earlier.foldl step s) later := by
  induction earlier generalizing s with
  | nil => rfl
  | cons x earlier ih =>
    rw [cons_append, historyFrom, historyFrom, ih, append_assoc]
    rfl

theorem foldl_step_below (s : SyncerConfigManager) (steps : List Step) :
    (steps.foldl step s).syncConfigManager =
      (historyFrom s steps).foldl SyncConfigManager.step s.syncConfigManager := by
  induction steps generalizing s with
  | nil => rfl
  | cons x steps ih =>
    rw [foldl_cons, ih, historyFrom, foldl_append]
    rfl

theorem run_below : (run steps).syncConfigManager = SyncConfigManager.run (history steps) :=
  foldl_step_below newSyncerConfigManager steps

theorem history_prefix {earlier steps : List Step} (hPrefix : earlier <+: steps) :
    history earlier <+: history steps := by
  obtain ⟨later, rfl⟩ := hPrefix
  exact ⟨_, (historyFrom_append newSyncerConfigManager earlier later).symm⟩

def Operation.current (configs : String → Option SyncerConfig) : Operation → String → Option SyncerConfig
  | .upsert syncerConfig, name => if name = syncerConfig.name then some syncerConfig else configs name
  | .delete key, name => if name = key then none else configs name
  | .refresh _, name => configs name

def currentConfigs : String → Option SyncerConfig :=
  steps.foldl (fun configs x => x.operation.current configs) fun _ => none

theorem get_run : (run steps).syncerConfigMap.get = currentConfigs steps := by
  induction steps using List.reverseRecOn with
  | nil =>
    funext name
    exact get_empty name
  | append_singleton steps x ih =>
    rw [run, currentConfigs, foldl_append, foldl_append]
    change ((run steps).step x).syncerConfigMap.get = x.operation.current (currentConfigs steps)
    rw [← ih, step]
    funext name
    cases x.operation with
    | upsert syncerConfig => exact get_put _ _ _ _
    | delete key => exact get_delete _ _ _
    | refresh discovered => rfl

/-- After a refresh, what is downsynced is what the current SyncerConfigs say, and what was downsynced after an earlier
refresh and is not any more is in the list of what is not to be downsynced. The earlier refreshes may have failed. -/
theorem downsynced_after_refresh (upstream downstream : Discovery) (steps : List Step) (x : Step)
    (hRefresh : x.operation = .refresh fun _ => ⟨some upstream, some downstream⟩)
    (hExplicit : ∀ name syncerConfig, currentConfigs steps name = some syncerConfig → Explicit syncerConfig.spec) :
    (∀ resource, resource ∈ (run (steps ++ [x])).syncConfigManager.getDownSyncedResources ↔
      ∃ name syncerConfig, currentConfigs steps name = some syncerConfig ∧
        Downsyncs upstream syncerConfig.spec resource) ∧
    ∀ earlier, earlier <+: steps → ∀ resource ∈ (run earlier).syncConfigManager.getDownSyncedResources,
      resource ∉ (run (steps ++ [x])).syncConfigManager.getDownSyncedResources →
        resource ∈ (run (steps ++ [x])).syncConfigManager.getDownUnsyncedResources := by
  constructor
  · intro resource
    have hSynced := SyncConfigManager.mem_synced_run_iff (history (steps ++ [x])) .down resource
    rw [← run_below] at hSynced
    have hLast : run (steps ++ [x]) = (run steps).step x := foldl_append
    refine hSynced.trans ?_
    rw [hLast, says_refreshed (kept_run steps) hRefresh, get_run]
    refine exists_congr fun name => exists_congr fun syncerConfig => and_congr_right fun hConfig => ?_
    exact mem_downsyncedResources_iff_downsyncs (hExplicit name syncerConfig hConfig)
  · intro earlier hPrefix resource hMem hNot
    have hUnsynced := SyncConfigManager.mem_unsynced_run_iff (history (steps ++ [x])) .down resource
    rw [← run_below] at hUnsynced
    refine hUnsynced.mpr ⟨⟨history earlier, history_prefix (hPrefix.trans (prefix_append _ _)), ?_, ?_⟩, hNot⟩
    · intro hSame
      rw [run_below, hSame, ← run_below] at hMem
      exact hNot hMem
    · rwa [run_below] at hMem

def defaultConfigMaps : SyncerConfig where
  name := "the-one"
  spec :=
    { namespaceScope := ⟨some ["default"], some [⟨⟨"", "configmaps"⟩, "v1"⟩]⟩
      namespacedObjects := none
      clusterScope := some [⟨⟨"", "nodes"⟩, "v1", some ["node-1"]⟩]
      upsync := none }

theorem explicit_defaultConfigMaps : Explicit defaultConfigMaps.spec where
  namespaceScope r hMem := by
    obtain rfl := mem_singleton.mp hMem
    decide
  namespacedObjects nsObject hMem := absurd hMem not_mem_nil
  clusterScope entry hMem := by
    obtain rfl := mem_singleton.mp hMem
    decide
  objects entry hMem := by
    obtain rfl := mem_singleton.mp hMem
    decide

def upsertDefault : Step := ⟨.insertion, fun _ => .insertion, .upsert defaultConfigMaps⟩

def refreshCore : Step :=
  ⟨.reversed, fun _ => .reversed, .refresh fun _ => ⟨some coreDiscovery, some coreDiscovery⟩⟩

theorem downsynced_after_refresh_one : Explicit defaultConfigMaps.spec ∧ ⟨"ConfigMap", "", "v1", "*", "default"⟩ ∈
      (run ([upsertDefault] ++ [refreshCore])).syncConfigManager.getDownSyncedResources := by
  refine ⟨explicit_defaultConfigMaps, ((downsynced_after_refresh coreDiscovery coreDiscovery [upsertDefault] refreshCore
    rfl fun name syncerConfig hConfig => ?_).1 _).mpr ⟨"the-one", defaultConfigMaps, rfl, ?_⟩⟩
  · obtain ⟨-, hSame⟩ := Option.ite_none_right_eq_some.mp hConfig
    cases hSame
    exact explicit_defaultConfigMaps
  · exact .namespaceScope (r := ⟨⟨"", "configmaps"⟩, "v1"⟩) mem_cons_self mem_cons_self
      ⟨coreGroup, mem_cons_self, rfl, _, rfl, _, mem_cons_self, rfl, rfl⟩

end SyncerConfigManager

end KubeStellar.Syncer
