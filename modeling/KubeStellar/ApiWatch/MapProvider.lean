import KubeStellar.Api
import KubeStellar.Containers.Differencers
import KubeStellar.Library.Run

/-! # The provider of API information

`pkg/placement/apiwatch-map-provider.go`, for one cluster: an informer on its API resources, started with the first
receivers. An item of the work queue has a name; what is told is read from the store when the item is processed.
-/

namespace KubeStellar.ApiMap

open List GoMap MapWrite

/-- An `APIResource`, by the name of the object and the parts of its spec that are read. -/
structure APIResource where
  metaname : String
  name : String
  namespaced : Bool
  group : String
  version : String
  verbs : List String

structure ResourceDetails where
  namespaced : Bool
  supportsInformers : Bool
  preferredVersion : String
deriving DecidableEq

inductive Panic where
  | nilDereference
deriving DecidableEq

variable (metarsc : APIResource)

def resourceSupportsInformers : Bool :=
  metarsc.verbs.contains "list" && metarsc.verbs.contains "watch"

def APIResource.groupResource : GroupResource := ⟨metarsc.group, metarsc.name⟩

def APIResource.details : ResourceDetails :=
  ⟨metarsc.namespaced, resourceSupportsInformers metarsc, metarsc.version⟩

abbrev Receiver := Nat

structure PerCluster where
  groupReceivers : List Receiver
  resourceReceivers : List Receiver

inductive QueueItem where
  | resourceRef (metaname : String)
  | groupReceiver (receiver : Receiver)
  | resourceReceiver (receiver : Receiver)

structure Provider where
  /-- The API resources of the cluster, which the store of the informer has. -/
  store : GoMap String APIResource
  perCluster : Option PerCluster
  /-- What the receivers have made of the calls they got. -/
  received : GoMap (Receiver × GroupResource) ResourceDetails

abbrev Told := MapWrite (Receiver × GroupResource) ResourceDetails

variable (receivers : List Receiver)

def puts (metarsc : APIResource) : List Told :=
  receivers.map fun receiver => .put (receiver, metarsc.groupResource) metarsc.details

def externalizeReceiver : Option APIResource → Except Panic (List Told)
  | some metarsc => .ok (puts receivers metarsc)
  | none => .error .nilDereference

namespace Provider

variable (ord : RangeOrder) (awp : Provider)

def syncResourceRef (metaname : String) : Except Panic (List Told) :=
  match awp.perCluster with
  | none => externalizeReceiver [] none
  | some wpc => externalizeReceiver wpc.resourceReceivers (awp.store.get metaname)

def syncResourceReceiver (receiver : Receiver) : List Told :=
  match awp.perCluster with
  | none => []
  | some _ => (ord.visit awp.store).flatMap fun e => puts [receiver] e.2

def sync : QueueItem → Except Panic (List Told)
  | .resourceRef metaname => awp.syncResourceRef metaname
  | .groupReceiver _ => .ok []
  | .resourceReceiver receiver => .ok (awp.syncResourceReceiver ord receiver)

def receive (told : List Told) : Provider := { awp with received := told.foldl GoMap.write awp.received }

/-- The items of the queue are processed one after the other. -/
def process (awp : Provider) : List QueueItem → Except Panic Provider
  | [] => .ok awp
  | item :: items =>
    match awp.sync ord item with
    | .error panic => .error panic
    | .ok told => process (awp.receive told) items

def enqueueResourceRef (metaname : String) : List QueueItem :=
  match awp.perCluster with
  | none => []
  | some _ => [.resourceRef metaname]

def addReceivers (ord : RangeOrder) (groupReceiver resourceReceiver : Receiver) : Provider × List QueueItem :=
  let wpc := awp.perCluster.getD ⟨[], []⟩
  let seen := match awp.perCluster with
    | none => (ord.visit awp.store).map fun e => .resourceRef e.1
    | some _ => []
  ({ awp with perCluster := some ⟨groupReceiver :: wpc.groupReceivers, resourceReceiver :: wpc.resourceReceivers⟩ },
    .groupReceiver groupReceiver :: .resourceReceiver resourceReceiver :: seen)

inductive Event where
  | put (metarsc : APIResource)
  | delete (metaname : String)
  | addReceivers (groupReceiver resourceReceiver : Receiver)

/-- An event and the processing of the items that it enqueues, with the order in which maps are ranged over. -/
def step (event : RangeOrder × Event) : Except Panic Provider :=
  match event.2 with
  | .put metarsc =>
    { awp with store := awp.store.put metarsc.metaname metarsc }.process event.1
      (awp.enqueueResourceRef metarsc.metaname)
  | .delete metaname =>
    { awp with store := awp.store.delete metaname }.process event.1
      (if awp.store.has metaname then awp.enqueueResourceRef metaname else [])
  | .addReceivers groupReceiver resourceReceiver =>
    let added := awp.addReceivers event.1 groupReceiver resourceReceiver
    added.1.process event.1 added.2

def run (awp : Provider) : List (RangeOrder × Event) → Except Panic Provider
  | [] => .ok awp
  | event :: events =>
    match awp.step event with
    | .error panic => .error panic
    | .ok awp => run awp events

def start : Provider := ⟨∅, none, ∅⟩

def registered (awp : Provider) : List Receiver :=
  match awp.perCluster with
  | none => []
  | some wpc => wpc.resourceReceivers

end Provider

variable (store : GoMap String APIResource)

def Distinct : Prop :=
  ∀ metaname metaname' rsc rsc', store.get metaname = some rsc → store.get metaname' = some rsc' →
    rsc.groupResource = rsc'.groupResource → metaname = metaname'

def Lists (gr : GroupResource) (details : ResourceDetails) : Prop :=
  ∃ metaname rsc, store.get metaname = some rsc ∧ rsc.groupResource = gr ∧ rsc.details = details

def Accurate (awp : Provider) : Prop :=
  ∀ receiver ∈ awp.registered, ∀ gr details, awp.received.get (receiver, gr) = some details ↔ Lists awp.store gr details

/-- No step panics, and the receivers are accurate after each. -/
def Followed (awp : Provider) (events : List (RangeOrder × Provider.Event)) : Prop :=
  ∀ before after, events = before ++ after → ∃ awp', awp.run before = .ok awp' ∧ Accurate awp'

structure World where
  store : GoMap String APIResource
  watched : Bool

namespace World

def start : World := ⟨∅, false⟩

def step (world : World) (event : RangeOrder × Provider.Event) : World :=
  match event.2 with
  | .put metarsc => { world with store := world.store.put metarsc.metaname metarsc }
  | .delete metaname => { world with store := world.store.delete metaname }
  | .addReceivers _ _ => { world with watched := true }

def Stays (world : World) (event : RangeOrder × Provider.Event) : Prop :=
  world.watched = true →
    match event.2 with
    | .put metarsc => ∀ rsc, world.store.get metarsc.metaname = some rsc → rsc.groupResource = metarsc.groupResource
    | .delete metaname => world.store.get metaname = none
    | .addReceivers _ _ => True

end World

variable {store : GoMap String APIResource} {told : List Told} {receiver : Receiver} {gr : GroupResource}
  {ord : RangeOrder} {awp : Provider}

theorem sync_receive (told : List Told) (item : QueueItem) : (awp.receive told).sync ord item = awp.sync ord item := by
  cases item <;> rfl

open Provider

theorem process_ok {items : List QueueItem} (hSync : ∀ item ∈ items, ∃ told, awp.sync ord item = .ok told) :
    ∃ told, awp.process ord items = .ok (awp.receive told) ∧
      ∀ write, write ∈ told ↔ ∃ item ∈ items, ∃ told', awp.sync ord item = .ok told' ∧ write ∈ told' := by
  induction items generalizing awp with
  | nil => exact ⟨[], rfl, by simp⟩
  | cons item items ih =>
    obtain ⟨now, hNow⟩ := hSync item mem_cons_self
    obtain ⟨later, hLater, hMem⟩ := @ih (awp.receive now) fun item hItem => by
      exact hSync item (mem_cons_of_mem _ hItem)
    refine ⟨now ++ later, ?_, fun write => ?_⟩
    · rw [process, hNow]
      refine hLater.trans ?_
      rw [receive, receive, receive, foldl_append]
    · simp only [mem_append, hMem, sync_receive, exists_mem_cons_iff, hNow, Except.ok.injEq, exists_eq_left']

theorem lists_iff {metaname : String} {rsc : APIResource} (hDist : Distinct store)
    (hGet : store.get metaname = some rsc) (details : ResourceDetails) :
    Lists store rsc.groupResource details ↔ rsc.details = details := by
  constructor
  · rintro ⟨metaname', rsc', hGet', hKey, rfl⟩
    cases hDist metaname' metaname rsc' rsc hGet' hGet hKey
    rw [Option.mem_unique hGet hGet']
  · exact fun hDetails => ⟨metaname, rsc, hGet, rfl, hDetails⟩

theorem received_accurate (hDist : Distinct awp.store)
    (hListed : ∀ write ∈ told, ∃ receiver metaname rsc, awp.store.get metaname = some rsc ∧
      write = .put (receiver, rsc.groupResource) rsc.details)
    (hRest : (∀ write ∈ told, write.key ≠ (receiver, gr)) →
      ∀ details, awp.received.get (receiver, gr) = some details ↔ Lists awp.store gr details)
    (details : ResourceDetails) :
    (awp.receive told).received.get (receiver, gr) = some details ↔ Lists awp.store gr details := by
  rw [receive, get_foldl_write]
  by_cases hTold : ∃ write ∈ told, write.key = (receiver, gr)
  · obtain ⟨write, hMem, hKey⟩ := hTold
    obtain ⟨receiver', metaname, rsc, hGet, rfl⟩ := hListed write hMem
    obtain ⟨rfl, rfl⟩ := Prod.mk.inj hKey
    have hFinal : MapWrite.replay awp.received.get told (receiver', rsc.groupResource) = some rsc.details := by
      refine replay_eq_of_agree (fun write hWrite hSame => ?_) fun hNone => absurd rfl (hNone _ hMem)
      obtain ⟨_, metaname', rsc', hGet', rfl⟩ := hListed write hWrite
      have hNames := hDist metaname' metaname rsc' rsc hGet' hGet (Prod.mk.inj hSame).2
      rw [hNames, hGet] at hGet'
      rw [MapWrite.after, Option.some.inj hGet']
    rw [hFinal, Option.some.injEq, lists_iff hDist hGet]
  · have hNone : ∀ write ∈ told, write.key ≠ (receiver, gr) := fun write hMem hKey => hTold ⟨write, hMem, hKey⟩
    rw [replay_of_forall_ne hNone]
    exact hRest hNone details

/-- The provider has what the world has, and a receiver that is not registered has nothing. -/
structure Tracks (world : World) (awp : Provider) : Prop where
  store : awp.store = world.store
  watched : world.watched = true ↔ awp.registered ≠ []
  running : awp.perCluster.isSome = world.watched
  fresh : ∀ receiver, receiver ∉ awp.registered → ∀ gr, awp.received.get (receiver, gr) = none

section Step

variable {world : World} {awp : Provider} (ord : RangeOrder)

theorem step_put (awp : Provider) (metarsc : APIResource) : awp.step (ord, .put metarsc) =
    .ok ({ awp with store := awp.store.put metarsc.metaname metarsc }.receive (puts awp.registered metarsc)) := by
  simp only [step, enqueueResourceRef, registered]
  cases hPerCluster : awp.perCluster with
  | none => rfl
  | some wpc =>
    simp only [process, sync, syncResourceRef, get_put, if_true, externalizeReceiver]

theorem step_delete_panics {metaname : String} (hHas : awp.store.has metaname = true)
    (hRunning : awp.perCluster.isSome = true) : awp.step (ord, .delete metaname) = .error .nilDereference := by
  obtain ⟨wpc, hPerCluster⟩ := Option.isSome_iff_exists.mp hRunning
  simp only [step, enqueueResourceRef, hPerCluster, hHas, if_true, process, sync,
    syncResourceRef, get_delete, externalizeReceiver]

theorem step_delete_ok {metaname : String} (hQuiet : awp.store.has metaname = true → awp.perCluster = none) :
    awp.step (ord, .delete metaname) = .ok { awp with store := awp.store.delete metaname } := by
  simp only [step]
  split
  · next hHas =>
    rw [enqueueResourceRef, hQuiet hHas]
    rfl
  · rfl

theorem lists_put_iff {metarsc : APIResource}
    (hSame : ∀ rsc, store.get metarsc.metaname = some rsc → rsc.groupResource = metarsc.groupResource)
    (hOther : gr ≠ metarsc.groupResource) (details : ResourceDetails) :
    Lists (store.put metarsc.metaname metarsc) gr details ↔ Lists store gr details := by
  constructor
  · rintro ⟨metaname, rsc, hGet, rfl, hDetails⟩
    rw [get_put] at hGet
    split at hGet
    · exact absurd (congrArg APIResource.groupResource (Option.some.inj hGet)).symm hOther
    · exact ⟨metaname, rsc, hGet, rfl, hDetails⟩
  · rintro ⟨metaname, rsc, hGet, rfl, hDetails⟩
    refine ⟨metaname, rsc, ?_, rfl, hDetails⟩
    rw [get_put, if_neg]
    · exact hGet
    · rintro rfl
      exact hOther (hSame rsc hGet)

theorem put_accurate_iff (hTracks : Tracks world awp) (hAcc : Accurate awp) (hDist : Distinct world.store)
    (metarsc : APIResource) (hNext : Distinct (world.step (ord, .put metarsc)).store) :
    Accurate ({ awp with store := awp.store.put metarsc.metaname metarsc }.receive (puts awp.registered metarsc)) ↔
      world.Stays (ord, .put metarsc) := by
  have hStore := hTracks.store
  constructor
  · intro hAfter hWatched rsc hGet
    by_contra hMoved
    -- what was told of the former group-resource stays with a receiver
    obtain ⟨receiver, hRecv⟩ := exists_mem_of_ne_nil _ (hTracks.watched.mp hWatched)
    rw [← hStore] at hGet hDist
    have hBefore := (hAcc receiver hRecv rsc.groupResource rsc.details).mpr ⟨_, rsc, hGet, rfl, rfl⟩
    have hKept : ∀ write ∈ puts awp.registered metarsc, write.key ≠ (receiver, rsc.groupResource) := by
      rintro write hMem hKey
      obtain ⟨receiver', -, rfl⟩ := mem_map.mp hMem
      exact hMoved (Prod.mk.inj hKey).2.symm
    obtain ⟨metaname, rsc', hGet', hKey, -⟩ := (hAfter receiver hRecv rsc.groupResource rsc.details).mp (by
      rw [receive, get_foldl_write, replay_of_forall_ne hKept]
      exact hBefore)
    rw [receive, get_put] at hGet'
    split at hGet'
    · rw [← Option.some.inj hGet'] at hKey
      exact hMoved hKey.symm
    · next hOther => exact hOther (hDist metaname metarsc.metaname rsc' rsc hGet' hGet hKey)
  · intro hStays receiver hRecv gr
    have hListed : (awp.store.put metarsc.metaname metarsc).get metarsc.metaname = some metarsc := by
      rw [get_put, if_pos rfl]
    refine received_accurate (by rw [hStore]; exact hNext) ?_ fun hNone details => ?_
    · intro write hMem
      obtain ⟨receiver', -, rfl⟩ := mem_map.mp hMem
      exact ⟨receiver', metarsc.metaname, metarsc, hListed, rfl⟩
    · have hOther : gr ≠ metarsc.groupResource := by
        rintro rfl
        exact hNone _ (mem_map_of_mem hRecv) rfl
      rw [lists_put_iff ?_ hOther]
      · exact hAcc receiver hRecv gr details
      · rw [hStore]
        exact hStays (hTracks.watched.mpr (ne_nil_of_mem hRecv))

theorem delete_accurate (hAcc : Accurate awp) {metaname : String}
    (hQuiet : awp.registered ≠ [] → awp.store.has metaname = false) :
    Accurate { awp with store := awp.store.delete metaname } := by
  intro receiver hRecv gr details
  rw [delete_of_not_has (hQuiet (ne_nil_of_mem hRecv))]
  exact hAcc receiver hRecv gr details

theorem mem_sync {item : QueueItem} (hSync : awp.sync ord item = .ok told)
    (hItem : ∀ receiver, item = .resourceReceiver receiver → receiver ∈ awp.registered) {write : Told}
    (hMem : write ∈ told) : ∃ receiver ∈ awp.registered, ∃ metaname rsc, awp.store.get metaname = some rsc ∧
      write = .put (receiver, rsc.groupResource) rsc.details := by
  cases item with
  | groupReceiver receiver =>
    cases hSync
    cases hMem
  | resourceRef metaname =>
    rw [sync, syncResourceRef] at hSync
    cases hPerCluster : awp.perCluster with
    | none =>
      rw [hPerCluster] at hSync
      cases hSync
    | some wpc =>
      cases hGet : awp.store.get metaname with
      | none =>
        simp only [hPerCluster, hGet] at hSync
        cases hSync
      | some rsc =>
        simp only [hPerCluster, hGet] at hSync
        cases hSync
        obtain ⟨receiver, hRecv, rfl⟩ := mem_map.mp hMem
        refine ⟨receiver, ?_, metaname, rsc, hGet, rfl⟩
        rw [registered, hPerCluster]
        exact hRecv
  | resourceReceiver receiver =>
    cases hSync
    rw [syncResourceReceiver] at hMem
    split at hMem
    · cases hMem
    · obtain ⟨e, hVisit, hMem⟩ := mem_flatMap.mp hMem
      exact ⟨receiver, hItem receiver rfl, e.1, e.2, (ord.mem_visit_iff _ _ _).mp hVisit, mem_singleton.mp hMem⟩

theorem addReceivers_sync_ok (groupReceiver resourceReceiver : Receiver) :
    ∀ item ∈ (awp.addReceivers ord groupReceiver resourceReceiver).2, ∃ told,
      (awp.addReceivers ord groupReceiver resourceReceiver).1.sync ord item = .ok told := by
  intro item hItem
  simp only [addReceivers, mem_cons] at hItem
  obtain rfl | rfl | hSeen := hItem
  · exact ⟨_, rfl⟩
  · exact ⟨_, rfl⟩
  · split at hSeen
    · obtain ⟨e, hVisit, rfl⟩ := mem_map.mp hSeen
      refine ⟨puts (resourceReceiver :: (awp.perCluster.getD ⟨[], []⟩).resourceReceivers) e.2, ?_⟩
      rw [sync, syncResourceRef]
      dsimp only [addReceivers]
      rw [(ord.mem_visit_iff _ _ _).mp hVisit]
      rfl
    · cases hSeen

theorem addReceivers_items {groupReceiver resourceReceiver : Receiver}
    (hItem : .resourceReceiver receiver ∈ (awp.addReceivers ord groupReceiver resourceReceiver).2) :
    receiver = resourceReceiver := by
  simp only [addReceivers, mem_cons, reduceCtorEq, false_or, QueueItem.resourceReceiver.injEq] at hItem
  obtain rfl | hSeen := hItem
  · rfl
  · split at hSeen
    · obtain ⟨e, -, hRef⟩ := mem_map.mp hSeen
      cases hRef
    · cases hSeen

theorem registered_addReceivers (groupReceiver resourceReceiver : Receiver) :
    (awp.addReceivers ord groupReceiver resourceReceiver).1.registered = resourceReceiver :: awp.registered := by
  simp only [addReceivers, registered]
  cases awp.perCluster <;> rfl

theorem fresh_receive (hTold : ∀ write ∈ told, write.key.1 ∈ awp.registered) (hRecv : receiver ∉ awp.registered)
    (gr : GroupResource) : (awp.receive told).received.get (receiver, gr) = awp.received.get (receiver, gr) := by
  rw [receive, get_foldl_write]
  refine replay_of_forall_ne fun write hMem hKey => hRecv ?_
  have hReg := hTold write hMem
  rwa [hKey] at hReg

theorem step_addReceivers (hTracks : Tracks world awp) (hAcc : Accurate awp) (hDist : Distinct awp.store)
    (groupReceiver resourceReceiver : Receiver) :
    ∃ told, awp.step (ord, .addReceivers groupReceiver resourceReceiver) =
        .ok ((awp.addReceivers ord groupReceiver resourceReceiver).1.receive told) ∧
      Accurate ((awp.addReceivers ord groupReceiver resourceReceiver).1.receive told) ∧
        ∀ write ∈ told, write.key.1 ∈ (awp.addReceivers ord groupReceiver resourceReceiver).1.registered := by
  obtain ⟨told, hProcess, hTold⟩ := process_ok (addReceivers_sync_ok ord groupReceiver resourceReceiver)
  have hListed : ∀ write ∈ told, ∃ receiver ∈ (awp.addReceivers ord groupReceiver resourceReceiver).1.registered,
      ∃ metaname rsc, awp.store.get metaname = some rsc ∧ write = .put (receiver, rsc.groupResource) rsc.details := by
    intro write hMem
    obtain ⟨item, hItem, told', hSync, hMem⟩ := (hTold write).mp hMem
    refine mem_sync ord hSync (fun receiver hEq => ?_) hMem
    rw [hEq] at hItem
    rw [registered_addReceivers, addReceivers_items ord hItem]
    exact mem_cons_self
  refine ⟨told, hProcess, fun receiver hRecv gr => ?_, fun write hMem => ?_⟩
  · refine received_accurate hDist (fun write hMem => ?_) fun hNone => ?_
    · obtain ⟨receiver', -, metaname, rsc, hGet, rfl⟩ := hListed write hMem
      exact ⟨receiver', metaname, rsc, hGet, rfl⟩
    · by_cases hOld : receiver ∈ awp.registered
      · exact hAcc receiver hOld gr
      · have hNew : receiver = resourceReceiver := by
          change receiver ∈ (awp.addReceivers ord groupReceiver resourceReceiver).1.registered at hRecv
          rw [registered_addReceivers] at hRecv
          exact (mem_cons.mp hRecv).resolve_right hOld
        intro details
        refine iff_of_false (fun hGet => Option.some_ne_none _ (hGet.symm.trans (hTracks.fresh receiver hOld gr))) ?_
        -- the item for the new receiver tells it of whatever is listed
        rintro ⟨metaname, rsc, hGet, rfl, -⟩
        refine hNone (.put (receiver, rsc.groupResource) rsc.details) ((hTold _).mpr
          ⟨.resourceReceiver resourceReceiver, mem_cons_of_mem _ mem_cons_self, _, rfl, ?_⟩) rfl
        rw [hNew]
        exact mem_flatMap.mpr ⟨(metaname, rsc), (ord.mem_visit_iff _ _ _).mpr hGet, mem_singleton_self _⟩
  · obtain ⟨receiver, hRecv, metaname, rsc, -, rfl⟩ := hListed write hMem
    exact hRecv

structure Meets (world : World) (awp : Provider) (event : RangeOrder × Provider.Event) : Prop where
  accurate : (∃ awp', awp.step event = .ok awp' ∧ Accurate awp') ↔ world.Stays event
  tracks : ∀ awp', awp.step event = .ok awp' → Tracks (world.step event) awp'

variable (hTracks : Tracks world awp)

include hTracks

variable (hAcc : Accurate awp)

include hAcc

theorem put_meets (hDist : Distinct world.store)
    (metarsc : APIResource) (hNext : Distinct (world.step (ord, .put metarsc)).store) :
    Meets world awp (ord, .put metarsc) := by
  refine ⟨?_, fun awp' hOk => ?_⟩
  · rw [step_put, ← put_accurate_iff ord hTracks hAcc hDist metarsc hNext]
    simp only [Except.ok.injEq, exists_eq_left']
  · rw [step_put] at hOk
    cases hOk
    refine ⟨congrArg (fun store => store.put metarsc.metaname metarsc) hTracks.store, hTracks.watched, hTracks.running,
      fun receiver hRecv gr => ?_⟩
    refine Eq.trans (fresh_receive (fun write hMem => ?_) ?_ gr) (hTracks.fresh receiver hRecv gr)
    · obtain ⟨receiver', hRecv', rfl⟩ := mem_map.mp hMem
      exact hRecv'
    · exact hRecv

theorem delete_meets (metaname : String) : Meets world awp (ord, .delete metaname) := by
  have hHas : awp.store.has metaname = false ↔ world.store.get metaname = none := by
    rw [GoMap.has, hTracks.store, Option.isSome_eq_false_iff, Option.isNone_iff_eq_none]
  by_cases hGone : world.watched = true ∧ awp.store.has metaname = true
  · have hPanics := step_delete_panics ord hGone.2 (hTracks.running.trans hGone.1)
    refine ⟨iff_of_false ?_ fun hStays => ?_, fun awp' hOk => ?_⟩
    · rintro ⟨awp', hOk, -⟩
      cases hPanics.symm.trans hOk
    · exact absurd (hHas.mpr (hStays hGone.1)) (by rw [hGone.2]; exact Bool.noConfusion)
    · cases hPanics.symm.trans hOk
  · have hQuiet : world.watched = true → awp.store.has metaname = false := fun hWatched =>
      Bool.eq_false_iff.mpr fun hMem => hGone ⟨hWatched, hMem⟩
    have hStep := @step_delete_ok awp ord metaname fun hMem => by
      rw [← Option.isNone_iff_eq_none, ← Option.isSome_eq_false_iff, hTracks.running]
      exact Bool.eq_false_iff.mpr fun hWatched => hGone ⟨hWatched, hMem⟩
    refine ⟨iff_of_true ⟨_, hStep, ?_⟩ fun hWatched => hHas.mp (hQuiet hWatched), fun awp' hOk => ?_⟩
    · exact delete_accurate hAcc fun hReceivers => hQuiet (hTracks.watched.mpr hReceivers)
    · cases hStep.symm.trans hOk
      exact ⟨congrArg (fun store => store.delete metaname) hTracks.store, hTracks.watched, hTracks.running,
        hTracks.fresh⟩

theorem addReceivers_meets (hDist : Distinct world.store) (groupReceiver resourceReceiver : Receiver) :
    Meets world awp (ord, .addReceivers groupReceiver resourceReceiver) := by
  obtain ⟨told, hStep, hAfter, hTold⟩ :=
    step_addReceivers ord hTracks hAcc (hTracks.store ▸ hDist) groupReceiver resourceReceiver
  have hReg := @registered_addReceivers awp ord groupReceiver resourceReceiver
  refine ⟨iff_of_true ⟨_, hStep, hAfter⟩ fun _ => trivial, fun awp' hOk => ?_⟩
  cases hStep.symm.trans hOk
  refine ⟨hTracks.store, iff_of_true rfl ?_, rfl, fun receiver hRecv gr => ?_⟩
  · exact hReg ▸ cons_ne_nil _ _
  · rw [fresh_receive hTold hRecv]
    refine hTracks.fresh receiver (fun hOld => hRecv ?_) gr
    exact hReg ▸ mem_cons_of_mem _ hOld

theorem step_meets (hDist : Distinct world.store)
    (event : RangeOrder × Provider.Event) (hNext : Distinct (world.step event).store) : Meets world awp event := by
  obtain ⟨ord, event⟩ := event
  cases event with
  | put metarsc => exact put_meets ord hTracks hAcc hDist metarsc hNext
  | delete metaname => exact delete_meets ord hTracks hAcc metaname
  | addReceivers groupReceiver resourceReceiver =>
    exact addReceivers_meets ord hTracks hAcc hDist groupReceiver resourceReceiver

end Step

variable {events : List (RangeOrder × Provider.Event)} {awp : Provider}

theorem followed_cons_iff {event : RangeOrder × Provider.Event} : Followed awp (event :: events) ↔
      Accurate awp ∧ ∃ awp', awp.step event = .ok awp' ∧ Followed awp' events := by
  constructor
  · intro hFollowed
    obtain ⟨awp', hRun, hAcc⟩ := hFollowed [] (event :: events) rfl
    cases hRun
    refine ⟨hAcc, ?_⟩
    cases hStep : awp.step event with
    | error panic =>
      obtain ⟨awp', hRun, -⟩ := hFollowed [event] events rfl
      rw [run, hStep] at hRun
      cases hRun
    | ok awp' =>
      refine ⟨awp', rfl, fun before after hEq => ?_⟩
      obtain ⟨awp'', hRun, hAfter⟩ := hFollowed (event :: before) after (congrArg (event :: ·) hEq)
      rw [run, hStep] at hRun
      exact ⟨awp'', hRun, hAfter⟩
  · rintro ⟨hAcc, awp', hStep, hFollowed⟩ before after hEq
    cases before with
    | nil => exact ⟨awp, rfl, hAcc⟩
    | cons first before =>
      obtain ⟨rfl, hRest⟩ := List.cons.inj hEq
      obtain ⟨awp'', hRun, hAfter⟩ := hFollowed before after hRest
      refine ⟨awp'', ?_, hAfter⟩
      rw [run, hStep]
      exact hRun

theorem followed_iff {world : World} (hTracks : Tracks world awp) (hAcc : Accurate awp) (hDist : Distinct world.store)
    (hNext : Run.Guarded World.step (fun world event => Distinct (world.step event).store) world events) :
    Followed awp events ↔ Run.Guarded World.step World.Stays world events := by
  induction events generalizing world awp with
  | nil =>
    refine iff_of_true (fun before after hEq => ?_) trivial
    obtain ⟨rfl, -⟩ := append_eq_nil_iff.mp hEq.symm
    exact ⟨awp, rfl, hAcc⟩
  | cons event events ih =>
    have hMeets := step_meets hTracks hAcc hDist event hNext.1
    rw [followed_cons_iff]
    constructor
    · rintro ⟨-, awp', hStep, hFollowed⟩
      obtain ⟨awp'', hRun, hAfter⟩ := hFollowed [] events rfl
      cases hRun
      exact ⟨hMeets.accurate.mp ⟨awp', hStep, hAfter⟩,
        (ih (hMeets.tracks awp' hStep) hAfter hNext.1 hNext.2).mp hFollowed⟩
    · rintro ⟨hStays, hRest⟩
      obtain ⟨awp', hStep, hAfter⟩ := hMeets.accurate.mpr hStays
      exact ⟨hAcc, awp', hStep, (ih (hMeets.tracks awp' hStep) hAfter hNext.1 hNext.2).mpr hRest⟩

theorem start_tracks : Tracks World.start start :=
  ⟨rfl, iff_of_false Bool.false_ne_true fun hNe => hNe rfl, rfl, fun _ _ _ => rfl⟩

def widgets : APIResource := ⟨"example.io:v1:widgets", "widgets", true, "example.io", "v1", ["get", "list", "watch"]⟩

/-- The receivers are registered before and after the resource is added. -/
def widgetsAdded : List (RangeOrder × Provider.Event) :=
  [(.insertion, .addReceivers 0 1), (.insertion, .put widgets), (.insertion, .addReceivers 2 3)]

theorem distinct_widgets {metaname : String} : Distinct ((∅ : GoMap String APIResource).put metaname widgets) := by
  intro metaname metaname' rsc rsc' hGet hGet' _
  rw [get_put] at hGet hGet'
  split at hGet
  · next hName =>
    split at hGet'
    · next hName' => exact hName.trans hName'.symm
    · cases hGet'
  · cases hGet

def widgetsDeleted : List (RangeOrder × Provider.Event) :=
  [(.insertion, .addReceivers 0 1), (.insertion, .put widgets), (.insertion, .delete widgets.metaname)]

end KubeStellar.ApiMap
