import KubeStellar.WorkloadProjector.SourceObject

/-! # Destinations that share a mailbox

Two Locations that select one `SyncTarget` are two destinations with one mailbox. The `SyncerConfig` of a mailbox is
made for one destination, and an object is deleted from a mailbox on behalf of one destination.
-/

namespace KubeStellar.WorkloadProjector

open List GoMap FactoredMap

/-- The states that transactions and the copying of source objects lead to. -/
inductive Reachable : State → Prop where
  | new : Reachable newWorkloadProjector
  | transact {env : Env} {wp wp' : State} {writes : List SectionWrite} {items : List QueueItem} :
      Reachable wp → transact env wp writes = .ok (wp', items) → Reachable wp'
  | sourceObject {J C L : Type} [DecidableEq J] {wp : State} (env : Env) (caches : Caches J) (cz : Customization J C L)
      (answers : SinglePlacement → DestinationAnswers J C L) (soRef : SourceObjectRef) :
      Reachable wp → Reachable (syncSourceObject env wp caches cz answers soRef).1

structure WellNamed (wp : State) : Prop where
  recorded : Recorded wp.begin
  named : ∀ mbwsName sp, wp.mbwsNameToSP.get mbwsName = some sp → SPMailboxWorkspaceName sp = mbwsName

theorem WellNamed.transact {env : Env} {wp wp' : State} {writes : List SectionWrite} {items : List QueueItem}
    (hNamed : WellNamed wp) (hOk : transact env wp writes = .ok (wp', items)) : WellNamed wp' := by
  refine ⟨transact_recorded env writes hNamed.recorded hOk, fun mbwsName sp hGet => ?_⟩
  rw [(transacted_of_transact env writes hNamed.recorded hOk).names] at hGet
  by_cases hMem : ∃ d, (mbwsName, d) ∈ (changedDestinations env wp writes).map fun d => (SPMailboxWorkspaceName d, d)
  · obtain ⟨d, hPair, hLast⟩ := get_putAll_of_mem wp.mbwsNameToSP _ _ hMem
    obtain ⟨d', -, hEq⟩ := mem_map.mp hPair
    obtain ⟨rfl, rfl⟩ := Prod.mk.inj hEq
    rw [hLast] at hGet
    exact congrArg SPMailboxWorkspaceName (Option.some.inj hGet).symm
  · rw [get_putAll_of_not_mem _ _ _ fun d hd => hMem ⟨d, hd⟩] at hGet
    exact hNamed.named mbwsName sp hGet

variable (env : Env) (wp : State) (soRef : SourceObjectRef)

theorem has_informDestinations {Obj : Type} (maps : ScopeMaps Obj) (destinations : List SinglePlacement)
    (d : SinglePlacement) (hHas : wp.perDestination.has d = true) :
    (informDestinations env wp soRef maps destinations).has d = true := by
  have hFold : ∀ (rest : List SinglePlacement) (perDestination : GoMap SinglePlacement PerDestination),
      perDestination.has d = true → (rest.foldl (addInformer env wp soRef maps) perDestination).has d = true := by
    intro rest
    induction rest with
    | nil => exact fun _ h => h
    | cons destination rest ih =>
      intro perDestination hHas
      refine ih _ ?_
      rw [addInformer]
      split
      · exact hHas
      · rw [GoMap.has, GoMap.get_put]
        split
        · rfl
        · exact hHas
  exact hFold destinations wp.perDestination hHas

theorem syncSourceObject_state {J C L : Type} [DecidableEq J] (caches : Caches J) (cz : Customization J C L)
    (answers : SinglePlacement → DestinationAnswers J C L) :
    ∃ perDestination, (syncSourceObject env wp caches cz answers soRef).1 =
        { wp with perDestination := perDestination } ∧
      ∀ d, wp.perDestination.has d = true → perDestination.has d = true := by
  have hSame : ∃ perDestination, wp = { wp with perDestination := perDestination } ∧
      ∀ d, wp.perDestination.has d = true → perDestination.has d = true := ⟨wp.perDestination, rfl, fun _ h => h⟩
  rw [syncSourceObject]
  split
  · exact hSame
  · split
    · exact hSame
    · split
      · exact hSame
      · split <;> exact ⟨_, rfl, has_informDestinations env wp soRef _ _⟩

theorem Reachable.wellNamed {wp : State} (hReach : Reachable wp) : WellNamed wp := by
  induction hReach with
  | new => exact ⟨newWorkloadProjector_recorded, fun _ _ hGet => absurd hGet (Option.some_ne_none _).symm⟩
  | transact _ hOk ih => exact ih.transact hOk
  | sourceObject env caches cz answers soRef _ ih =>
    rename_i wp _
    obtain ⟨perDestination, hState, hHas⟩ := syncSourceObject_state env wp soRef caches cz answers
    rw [hState]
    exact ⟨⟨fun d hIndex => hHas d (ih.recorded.ns d hIndex),
      fun d hIndex => hHas d (ih.recorded.nns d hIndex)⟩, ih.named⟩

theorem SPMailboxWorkspaceName_ne_empty (sp : SinglePlacement) : SPMailboxWorkspaceName sp ≠ "" := by
  intro hEmpty
  have hLength := congrArg String.length hEmpty
  simp [SPMailboxWorkspaceName, MBspaceNameSep] at hLength

/-- The spec lists what is distributed to any destination of the mailbox. -/
structure Covers (modes : ResourceModes) (wp : State) (mbwsName : String) (spec : SyncerConfigSpec) : Prop where
  namespacedObjects : ∀ gr nn, (∃ version, spec.ListsNamespaced gr version nn) ↔ (modes gr).toEdge = true ∧
    ∃ d, SPMailboxWorkspaceName d = mbwsName ∧ Distributed wp.ns d gr nn
  clusterScope : ∀ gr name, (∃ version, spec.ListsClusterScoped gr version name) ↔ (modes gr).toEdge = true ∧
    ∃ d, SPMailboxWorkspaceName d = mbwsName ∧ Distributed wp.nns d gr name
  upsync : ∀ upsync, upsync ∈ spec.upsync ↔
    ∃ d, SPMailboxWorkspaceName d = mbwsName ∧ wp.upsyncs.get d upsync ≠ none

/-- One destination has what any destination with the same mailbox has. -/
structure HasAll (modes : ResourceModes) (wp : State) (sp : SinglePlacement) : Prop where
  namespacedObjects : ∀ d gr nn, SPMailboxWorkspaceName d = SPMailboxWorkspaceName sp → (modes gr).toEdge = true →
    Distributed wp.ns d gr nn → Distributed wp.ns sp gr nn
  clusterScope : ∀ d gr name, SPMailboxWorkspaceName d = SPMailboxWorkspaceName sp → (modes gr).toEdge = true →
    Distributed wp.nns d gr name → Distributed wp.nns sp gr name
  upsyncs : ∀ d upsync, SPMailboxWorkspaceName d = SPMailboxWorkspaceName sp →
    wp.upsyncs.get d upsync ≠ none → wp.upsyncs.get sp upsync ≠ none

variable (sp : SinglePlacement)

theorem exists_version_iff {Obj : Type} [DecidableEq Obj] (maps : ScopeMaps Obj) (gr : GroupResource) (obj : Obj) :
    (∃ version, entry (scopeObjects env maps sp) gr obj = some ⟨version⟩) ↔
      (env.resourceModes gr).toEdge = true ∧ Distributed maps sp gr obj := by
  simp only [entry_scopeObjects_iff]
  constructor
  · rintro ⟨_, hDistr, hEdge, -⟩
    exact ⟨hEdge, hDistr⟩
  · rintro ⟨hEdge, hDistr⟩
    exact ⟨(modeOf maps sp gr).apiVersion, hDistr, hEdge, rfl⟩

theorem forall_shared_iff {Key : Type} (edge : Key → Prop) (has : SinglePlacement → Key → Prop) :
    (∀ key, edge key ∧ has sp key ↔ edge key ∧ ∃ d, SPMailboxWorkspaceName d = SPMailboxWorkspaceName sp ∧ has d key) ↔
      ∀ d key, SPMailboxWorkspaceName d = SPMailboxWorkspaceName sp → edge key → has d key → has sp key := by
  constructor
  · intro hShared d key hName hEdge hHas
    exact ((hShared key).mpr ⟨hEdge, d, hName, hHas⟩).2
  · intro hAll key
    constructor
    · rintro ⟨hEdge, hHas⟩
      exact ⟨hEdge, sp, rfl, hHas⟩
    · rintro ⟨hEdge, d, hName, hHas⟩
      exact ⟨hEdge, hAll d key hName hEdge hHas⟩

theorem covers_iff_hasAll : Covers env.resourceModes wp (SPMailboxWorkspaceName sp)
    (syncerConfigSpecFromRelations env.ord (syncerConfigRelations env wp sp)) ↔ HasAll env.resourceModes wp sp := by
  have hNs := forall_shared_iff sp (fun key : GroupResource × NamespacedName => (env.resourceModes key.1).toEdge = true)
    fun d key => Distributed wp.ns d key.1 key.2
  have hNns := forall_shared_iff sp (fun key : GroupResource × ObjectName => (env.resourceModes key.1).toEdge = true)
    fun d key => Distributed wp.nns d key.1 key.2
  have hUpsyncs := forall_shared_iff sp (fun _ : UpsyncSet => True) fun d upsync => wp.upsyncs.get d upsync ≠ none
  simp only [true_and, true_imp_iff] at hUpsyncs
  have hLists : ∀ gr nn, (∃ version, (syncerConfigSpecFromRelations env.ord
      (syncerConfigRelations env wp sp)).ListsNamespaced gr version nn) ↔ _ := fun gr nn =>
    (exists_congr fun version => listsNamespaced_fromRelations_iff env.ord _ gr version nn).trans
      (exists_version_iff env sp wp.ns gr nn)
  have hLists' : ∀ gr name, (∃ version, (syncerConfigSpecFromRelations env.ord
      (syncerConfigRelations env wp sp)).ListsClusterScoped gr version name) ↔ _ := fun gr name =>
    (exists_congr fun version => listsClusterScoped_fromRelations_iff env.ord _ gr version name).trans
      (exists_version_iff env sp wp.nns gr name)
  constructor
  · rintro ⟨hObjects, hClusterScope, hUpsync⟩
    simp only [hLists, hLists', mem_upsync_fromRelations_iff] at hObjects hClusterScope hUpsync
    exact ⟨fun d gr nn => hNs.mp (fun key => hObjects key.1 key.2) d (gr, nn),
      fun d gr name => hNns.mp (fun key => hClusterScope key.1 key.2) d (gr, name), hUpsyncs.mp hUpsync⟩
  · rintro ⟨hObjects, hClusterScope, hUpsync⟩
    constructor <;> simp only [hLists, hLists', mem_upsync_fromRelations_iff]
    · exact fun gr nn => hNs.mpr (fun d key => hObjects d key.1 key.2) (gr, nn)
    · exact fun gr name => hNns.mpr (fun d key => hClusterScope d key.1 key.2) (gr, name)
    · exact hUpsyncs.mpr hUpsync

/-- What `syncConfigObject` writes for a mailbox covers its destinations, every call succeeding. -/
def WritesCover (existing : Option SyncerConfigSpec) (mbwsName : String) : Prop :=
  ∀ attempt ∈ (syncConfigObject env (.succeeding existing) wp ⟨mbwsName, SyncerConfigName⟩).1, ∀ spec,
    attempt.call.written = some spec → Covers env.resourceModes wp mbwsName spec

/-- What is written to a mailbox covers all its destinations, if and only if the one that the mailbox is entered for
has what each of them has. -/
theorem writesCover_iff_hasAll (hReachable : Reachable wp) (existing : Option SyncerConfigSpec) (mbwsName : String) :
    WritesCover env wp existing mbwsName ↔ ∀ sp, wp.mbwsNameToSP.get mbwsName = some sp →
      (∀ old, existing = some old → syncerConfigIsGood env.ord old (syncerConfigRelations env wp sp) = false) →
        HasAll env.resourceModes wp sp := by
  have hNamed := hReachable.wellNamed.named
  constructor
  · intro hCover sp hSP hExisting
    obtain rfl := hNamed mbwsName sp hSP
    obtain ⟨attempt, hMem, hWritten⟩ := (written_succeeding_iff env existing wp ⟨_, SyncerConfigName⟩ _).mpr
      ⟨SPMailboxWorkspaceName_ne_empty sp, sp, hSP, hExisting, rfl⟩
    exact (covers_iff_hasAll env wp sp).mp (hCover attempt hMem _ hWritten)
  · intro hAll attempt hMem spec hWritten
    obtain ⟨-, sp, hSP, hExisting, rfl⟩ :=
      (written_succeeding_iff env existing wp ⟨mbwsName, SyncerConfigName⟩ spec).mp ⟨attempt, hMem, hWritten⟩
    obtain rfl := hNamed mbwsName sp hSP
    exact (covers_iff_hasAll env wp sp).mpr (hAll sp hSP hExisting)

theorem writesCover_iff_hasAll_settings : ∃ wp items,
    transact edgeEnv newWorkloadProjector settingsWrites = .ok (wp, items) ∧ Reachable wp ∧
      WritesCover edgeEnv wp none (SPMailboxWorkspaceName edgeDestination) := by
  obtain ⟨wp, items, hOk, hTransacted⟩ :=
    transact_of_ready edgeEnv settingsWrites newWorkloadProjector_recorded settings_tracked.ready
  have hReachable := Reachable.new.transact hOk
  refine ⟨wp, items, hOk, hReachable, (writesCover_iff_hasAll edgeEnv wp hReachable none _).mpr fun sp hSP _ => ?_⟩
  rw [hTransacted.names] at hSP
  cases hSP
  refine ⟨?_, ?_, ?_⟩
  · intro d gr nn _ _ hDistributed
    obtain ⟨rfl, -⟩ := eq_of_distributed_single (congrArg ScopeMaps.distributionsForSync hTransacted.ns) hDistributed
    exact hDistributed
  · rw [hTransacted.nns]
    rintro d gr name _ _ ⟨source, hGet⟩
    exact absurd rfl hGet
  · rw [hTransacted.upsyncs]
    intro d upsync _ hGet
    exact absurd rfl hGet

/-- Another Location with the same `SyncTarget`. -/
def twinDestination : SinglePlacement := { edgeDestination with locationName := "edge2" }

/-- Each of the two Locations gets one `ConfigMap`. -/
def twinWrites : List SectionWrite :=
  settingsWrites ++
    [.namespacedModes (.put { settingsModeKey with destination := twinDestination } ⟨"v1"⟩),
      .namespacedObjectDistributions
        (.put ({ settingsModeKey with destination := twinDestination }, ("wds1", "apps", "extra")) ⟨false, false⟩)]

/-- The `SyncerConfig` of the mailbox has the objects of only one of its Locations. -/
theorem writesCover_fails_twins : ∃ wp items,
    transact edgeEnv newWorkloadProjector twinWrites = .ok (wp, items) ∧ Reachable wp ∧
      ¬ WritesCover edgeEnv wp none (SPMailboxWorkspaceName edgeDestination) := by
  obtain ⟨⟨wp, items⟩, hOk⟩ : ∃ result, transact edgeEnv newWorkloadProjector twinWrites = .ok result := ⟨_, rfl⟩
  have hTransacted := transacted_of_transact edgeEnv twinWrites newWorkloadProjector_recorded hOk
  refine ⟨wp, items, hOk, Reachable.new.transact hOk, fun hCover => ?_⟩
  have hSP : wp.mbwsNameToSP.get (SPMailboxWorkspaceName edgeDestination) = some twinDestination := by
    rw [hTransacted.names]
    rfl
  obtain ⟨attempt, hMem, hWritten⟩ := (written_succeeding_iff edgeEnv none wp ⟨_, SyncerConfigName⟩ _).mpr
    ⟨SPMailboxWorkspaceName_ne_empty _, twinDestination, hSP, fun _ h => absurd h (Option.some_ne_none _).symm, rfl⟩
  have hAll := (covers_iff_hasAll edgeEnv wp twinDestination).mp (hCover attempt hMem _ hWritten)
  have hMaps := congrArg ScopeMaps.distributionsForSync hTransacted.ns
  obtain ⟨source, hGet⟩ := hAll.namespacedObjects edgeDestination settingsModeKey.groupResource ("apps", "settings")
    rfl rfl ⟨"wds1", by rw [hMaps]; decide⟩
  have hTwins : wp.ns.distributionsForSync =
      ((∅ : FactoredMap SinglePlacement ((GroupResource × NamespacedName) × String) DistributionBits).put
        edgeDestination ((settingsModeKey.groupResource, ("apps", "settings")), "wds1") ⟨false, false⟩).put
        twinDestination ((settingsModeKey.groupResource, ("apps", "extra")), "wds1") ⟨false, false⟩ := hMaps
  rw [hTwins, FactoredMap.get_put, FactoredMap.get_put, if_neg, if_neg] at hGet
  · exact hGet rfl
  · rintro ⟨hDestination, -⟩
    exact absurd hDestination (by decide)
  · rintro ⟨-, hKey⟩
    have hName : "settings" = "extra" := congrArg (fun key => key.1.2.2) hKey
    exact absurd hName (by decide)

def Wanted (wp : State) (destination : SinglePlacement) (gr : GroupResource) (ns name : String) : Prop :=
  if ns = noNamespace then Distributed wp.nns destination gr name else Distributed wp.ns destination gr (ns, name)

def DeletesUnwanted {J : Type} (wp : State) (work : Work J) : Prop :=
  ∃ calls retry, work = .ok (calls, retry) ∧ ∀ attempt ∈ calls, ∀ space gr ns name resourceVersion,
    attempt.call = .delete space gr ns name resourceVersion →
      ∀ d, SPMailboxWorkspaceName d = space → ¬ Wanted wp d gr ns name

variable {J : Type} [DecidableEq J] (env : Env) (wp : State) (caches : Caches J) (answers : ReturnAnswers)
  (doRef : DestinationObjectRef)

structure Undesired : Prop where
  notNamespace : doRef.groupResource ≠ nsGR
  informed : ∃ wpd, wp.perDestination.get doRef.destination = some wpd ∧ wpd.preInformers.has doRef.groupResource = true
  present : (caches.destination doRef.destination doRef.groupResource doRef.ns doRef.name).live.isSome = true
  unwanted : ¬ Wanted wp doRef.destination doRef.groupResource doRef.ns doRef.name

theorem sourcesWants_isEmpty_iff {Obj : Type} [DecidableEq Obj] (maps : ScopeMaps Obj) (destination : SinglePlacement)
    (gr : GroupResource) (obj : Obj) :
    (sourcesWants maps destination gr obj).isEmpty = true ↔ ¬ Distributed maps destination gr obj := by
  rw [GoMap.isEmpty_iff, Distributed]
  push Not
  refine forall_congr' fun source => ?_
  rw [sourcesWants, get_under, FactoredMap.get]
  cases maps.distributionsForSync.index destination <;> rfl

theorem returnState_spec (dstU : Unstructured J) (source : String) :
    ∃ result, returnState caches answers doRef dstU source = .ok result ∧
      ∀ attempt ∈ result.1, ∃ space gr ns obj, attempt.call = .updateStatus space gr ns obj := by
  rw [returnState]
  split
  · refine ⟨_, rfl, fun attempt hMem => ?_⟩
    rw [reportSingletonState] at hMem
    split at hMem
    · cases hMem
    · obtain rfl := mem_singleton.mp hMem
      exact ⟨_, _, _, _, rfl⟩
  · exact ⟨_, rfl, fun attempt hMem => absurd hMem not_mem_nil⟩
  · exact ⟨_, rfl, fun attempt hMem => absurd hMem not_mem_nil⟩

theorem retainOrDelete_spec {Obj : Type} [DecidableEq Obj] (maps : ScopeMaps Obj) (obj : Obj)
    (present : Option (Unstructured J)) :
    ∃ calls retry, retainOrDelete env wp caches answers doRef maps obj present = .ok (calls, retry) ∧
      ∀ space gr ns name resourceVersion,
        (∃ attempt ∈ calls, attempt.call = .delete space gr ns name resourceVersion) ↔
          ∃ objM, present = some objM ∧ ¬ Distributed maps doRef.destination doRef.groupResource obj ∧
            (space, gr, ns, name, resourceVersion) = (SPMailboxWorkspaceName doRef.destination, doRef.groupResource,
              doRef.ns, doRef.name, some objM.resourceVersion) := by
  cases present with
  | none => exact ⟨[], false, rfl, by simp⟩
  | some objM =>
    simp only [retainOrDelete]
    by_cases hEmpty : (sourcesWants maps doRef.destination doRef.groupResource obj).isEmpty = true
    · have hUnwanted := (sourcesWants_isEmpty_iff maps doRef.destination doRef.groupResource obj).mp hEmpty
      simp only [hEmpty, if_true, deleteUndesired]
      exact ⟨_, _, rfl, fun _ _ _ _ _ => by simp [hUnwanted, eq_comm]⟩
    · have hWanted :=
        not_not.mp (mt (sourcesWants_isEmpty_iff maps doRef.destination doRef.groupResource obj).mpr hEmpty)
      rw [if_neg hEmpty]
      split
      · exact ⟨[], false, rfl, by simp [hWanted]⟩
      · -- the triers only report status
        have hReports : ∀ work ∈ ((env.ord.visit (sourcesWants maps doRef.destination doRef.groupResource obj)).filter
            (wantsReturn wp doRef maps obj)).map (fun sourceWant => returnState caches answers doRef objM sourceWant.1),
            ∃ result, work = .ok result ∧
              ∀ attempt ∈ result.1, ∃ space gr ns obj, attempt.call = .updateStatus space gr ns obj := by
          intro work hMem
          obtain ⟨sourceWant, -, rfl⟩ := mem_map.mp hMem
          exact returnState_spec caches answers doRef objM sourceWant.1
        obtain ⟨calls, retry, hTry, hCalls, -⟩ := triersTry_spec fun work hMem =>
          (hReports work hMem).imp fun _ h => h.1
        refine ⟨calls, retry, hTry, fun space gr ns name resourceVersion => iff_of_false ?_ (by simp [hWanted])⟩
        rintro ⟨attempt, hMem, hCall⟩
        obtain ⟨part, hPart, hMem⟩ := (hCalls attempt).mp hMem
        obtain ⟨result, hResult, hStatus⟩ := hReports _ hPart
        obtain rfl := Except.ok.inj hResult
        obtain ⟨_, _, _, _, hCall'⟩ := hStatus attempt hMem
        cases hCall.symm.trans hCall'

def DeletesUndesired (work : Work J) : Prop :=
  ∃ calls retry, work = .ok (calls, retry) ∧ ∀ space gr ns name,
    (∃ attempt ∈ calls, ∃ resourceVersion, attempt.call = .delete space gr ns name resourceVersion) ↔
      Undesired wp caches doRef ∧
        (space, gr, ns, name) = (SPMailboxWorkspaceName doRef.destination, doRef.groupResource, doRef.ns, doRef.name)

omit [DecidableEq J] in
theorem deletesUndesired_nothing (hDesired : ¬ Undesired wp caches doRef) :
    DeletesUndesired wp caches doRef (.ok ([], false)) :=
  ⟨[], false, rfl, by simp [hDesired]⟩

theorem retainOrDelete_deletesUndesired {Obj : Type} [DecidableEq Obj] (maps : ScopeMaps Obj) (obj : Obj)
    {wpd : PerDestination} (hNamespace : doRef.groupResource ≠ nsGR)
    (hSome : wp.perDestination.get doRef.destination = some wpd)
    (hInformed : wpd.preInformers.has doRef.groupResource = true)
    (hWanted : Wanted wp doRef.destination doRef.groupResource doRef.ns doRef.name ↔
      Distributed maps doRef.destination doRef.groupResource obj) :
    DeletesUndesired wp caches doRef (retainOrDelete env wp caches answers doRef maps obj
      (caches.destination doRef.destination doRef.groupResource doRef.ns doRef.name).live) := by
  obtain ⟨calls, retry, hOk, hDeletes⟩ := retainOrDelete_spec env wp caches answers doRef maps obj
    (caches.destination doRef.destination doRef.groupResource doRef.ns doRef.name).live
  refine ⟨calls, retry, hOk, fun space gr ns name => ⟨?_, ?_⟩⟩
  · rintro ⟨attempt, hMem, resourceVersion, hCall⟩
    obtain ⟨objM, hLive, hUnwanted, hTuple⟩ := (hDeletes space gr ns name resourceVersion).mp ⟨attempt, hMem, hCall⟩
    obtain ⟨rfl, rfl, rfl, rfl, -⟩ := hTuple
    have hPresent := Option.isSome_iff_exists.mpr ⟨objM, hLive⟩
    exact ⟨⟨hNamespace, ⟨wpd, hSome, hInformed⟩, hPresent, mt hWanted.mp hUnwanted⟩, rfl⟩
  · rintro ⟨hUndesired, hTuple⟩
    obtain ⟨rfl, rfl, rfl, rfl⟩ := hTuple
    obtain ⟨objM, hLive⟩ := Option.isSome_iff_exists.mp hUndesired.present
    obtain ⟨attempt, hMem, hCall⟩ := (hDeletes _ _ _ _ _).mpr ⟨objM, hLive, mt hWanted.mpr hUndesired.unwanted, rfl⟩
    exact ⟨attempt, hMem, _, hCall⟩

theorem syncDestinationObject_deletesUndesired :
    DeletesUndesired wp caches doRef (syncDestinationObject env wp caches answers doRef) := by
  rw [syncDestinationObject]
  split
  · rename_i hNamespace
    exact deletesUndesired_nothing wp caches doRef fun h => h.notNamespace hNamespace
  · rename_i hNamespace
    split
    · rename_i hNone
      refine deletesUndesired_nothing wp caches doRef fun h => ?_
      obtain ⟨wpd, hSome, -⟩ := h.informed
      exact Option.some_ne_none wpd (hSome.symm.trans hNone)
    · rename_i wpd hSome
      split
      · rename_i hInformed
        refine deletesUndesired_nothing wp caches doRef fun h => ?_
        obtain ⟨wpd', hSome', hHas⟩ := h.informed
        obtain rfl := Option.mem_unique hSome hSome'
        simp [hHas] at hInformed
      · rename_i hInformed
        rw [Bool.not_eq_true', Bool.not_eq_false] at hInformed
        split
        · rename_i hNs
          refine retainOrDelete_deletesUndesired env wp caches answers doRef wp.ns _ hNamespace hSome hInformed ?_
          rw [Wanted, if_neg (by simpa [DestinationObjectRef.namespaced] using hNs)]
        · rename_i hNs
          refine retainOrDelete_deletesUndesired env wp caches answers doRef wp.nns _ hNamespace hSome hInformed ?_
          rw [Wanted, if_pos (by simpa [DestinationObjectRef.namespaced] using hNs)]

theorem not_wanted_of_deletesUnwanted
    (hUnwanted : DeletesUnwanted wp (syncDestinationObject env wp caches answers doRef))
    (hUndesired : Undesired wp caches doRef) {d : SinglePlacement}
    (hName : SPMailboxWorkspaceName d = SPMailboxWorkspaceName doRef.destination) :
    ¬ Wanted wp d doRef.groupResource doRef.ns doRef.name := by
  obtain ⟨calls, retry, hOk, hDeletes⟩ := syncDestinationObject_deletesUndesired env wp caches answers doRef
  obtain ⟨calls', retry', hOk', hUnwanted⟩ := hUnwanted
  obtain ⟨rfl, rfl⟩ := Prod.mk.inj (Except.ok.inj (hOk.symm.trans hOk'))
  obtain ⟨attempt, hMem, resourceVersion, hCall⟩ := (hDeletes _ _ _ _).mpr ⟨hUndesired, rfl⟩
  exact hUnwanted attempt hMem _ _ _ _ _ hCall d hName

/-- A deletion hits nothing wanted iff the object is not undesired by its own destination, or no other destination
with the mailbox wants it either. -/
theorem deletesUnwanted_iff :
    DeletesUnwanted wp (syncDestinationObject env wp caches answers doRef) ↔ (Undesired wp caches doRef →
      ∀ d, d ≠ doRef.destination → SPMailboxWorkspaceName d = SPMailboxWorkspaceName doRef.destination →
        ¬ Wanted wp d doRef.groupResource doRef.ns doRef.name) := by
  constructor
  · intro hDeletes hUndesired d _ hName
    exact not_wanted_of_deletesUnwanted env wp caches answers doRef hDeletes hUndesired hName
  · intro hShared
    obtain ⟨calls, retry, hOk, hDeletes⟩ := syncDestinationObject_deletesUndesired env wp caches answers doRef
    refine ⟨calls, retry, hOk, fun attempt hMem space gr ns name resourceVersion hCall d hName => ?_⟩
    obtain ⟨hUndesired, hRef⟩ := (hDeletes space gr ns name).mp ⟨attempt, hMem, resourceVersion, hCall⟩
    obtain ⟨rfl, rfl, rfl, rfl⟩ := hRef
    by_cases hSame : d = doRef.destination
    · rw [hSame]
      exact hUndesired.unwanted
    · exact hShared hUndesired d hSame hName

/-- Both Locations get the same `ConfigMap`. -/
def sharedWrites : List SectionWrite :=
  settingsWrites ++
    [.namespacedModes (.put { settingsModeKey with destination := twinDestination } ⟨"v1"⟩),
      .namespacedObjectDistributions
        (.put ({ settingsModeKey with destination := twinDestination }, ("wds1", "apps", "settings")) ⟨false, false⟩)]

def unbindWrites : List SectionWrite :=
  [.namespacedObjectDistributions (.delete (settingsModeKey, ("wds1", "apps", "settings")))]

def settingsObject : Unstructured Unit where
  apiVersion := "v1"
  kind := "ConfigMap"
  ns := "apps"
  name := "settings"
  uid := "uid2"
  resourceVersion := "7"
  selfLink := ""
  clusterName := ""
  deletionTimestamp := none
  annotations := none
  labels := none
  managedFields := none
  ownerReferences := none
  status := .absent
  content := ∅

def settingsCaches : Caches Unit :=
  ⟨fun _ _ _ _ => .notFound, fun _ _ _ _ => .found settingsObject, fun _ _ => .found ()⟩

def settingsRef : DestinationObjectRef := ⟨edgeDestination, settingsModeKey.groupResource, "apps", "settings"⟩

/-- The object is deleted from the mailbox although the other Location still wants it there. -/
theorem deletesUnwanted_fails_shared : ∃ wp₁ items₁ wp₂ items₂,
    transact edgeEnv newWorkloadProjector sharedWrites = .ok (wp₁, items₁) ∧
      transact edgeEnv wp₁ unbindWrites = .ok (wp₂, items₂) ∧ Reachable wp₂ ∧
        ¬ DeletesUnwanted wp₂ (syncDestinationObject edgeEnv wp₂ settingsCaches ⟨none, fun _ => none⟩ settingsRef) := by
  refine ⟨_, _, _, _, rfl, rfl, ?_, ?_⟩
  · exact @Reachable.transact edgeEnv _ _ unbindWrites _ (@Reachable.transact edgeEnv _ _ sharedWrites _ .new rfl) rfl
  · intro hDeletes
    have hUndesired := not_wanted_of_deletesUnwanted edgeEnv _ settingsCaches _ settingsRef hDeletes
      ⟨by decide, ⟨_, rfl, rfl⟩, rfl, ?_⟩ (d := twinDestination) rfl
    · exact hUndesired ⟨"wds1", by decide⟩
    · rintro ⟨source, hGet⟩
      exact hGet ((index_eq_none_iff _ _).mp rfl _)

end KubeStellar.WorkloadProjector
