import KubeStellar.MailboxController.Index

/-! # The deletion of a SyncTarget

When a SyncTarget is deleted, a reference to it is queued, from which the name of its mailbox space can no longer be
derived; a notification that the final state is unknown queues nothing.
-/

namespace KubeStellar.MailboxController

open List

open Kbuser

variable {ix : Indexer}

def Event.calls (ctl : MbCtl ix) : Event → List Call
  | .process ref ord api => if ref ∈ ctl.queue then (ctl.sync ord api ref).calls else []
  | .storeSyncTarget _ | .removeSyncTarget _ _ | .storeSpace _ | .removeSpace _ _ | .relation _ => []

def Event.IsProcess (event : Event) : Prop := ∃ ref ord api, event = .process ref ord api

variable {ord : RangeOrder} {api : Api} {ref ref' : Ref} {name uid : String} {event : Event} {work : List Event}

namespace MbCtl

/-- The calls that the events of an interleaving issue. -/
def issued (ctl : MbCtl ix) : List Event → List Call
  | [] => []
  | event :: events => event.calls ctl ++ issued (ctl.step event) events

variable {ctl : MbCtl ix} {mbsName : String}

theorem mem_queue_add_iff (ctl : MbCtl ix) (ref ref' : Ref) :
    ref' ∈ (ctl.add ref).queue ↔ ref' ∈ ctl.queue ∨ ref' = ref := by
  unfold add
  split
  · rename_i hMem
    exact ⟨.inl, fun h => h.elim id fun hEq => hEq ▸ hMem⟩
  · exact mem_append.trans (or_congr_right mem_singleton)

theorem mem_queue_foldl_add_iff (ctl : MbCtl ix) (refs : List Ref) (ref' : Ref) :
    ref' ∈ (refs.foldl add ctl).queue ↔ ref' ∈ ctl.queue ∨ ref' ∈ refs := by
  induction refs generalizing ctl with
  | nil => exact (or_iff_left not_mem_nil).symm
  | cons ref refs ih => rw [foldl_cons, ih, mem_queue_add_iff, mem_cons, or_assoc]

theorem mem_queue_sync1 (hMem : ref' ∈ (ctl.sync1 ord api ref).queue) (hNe : ref' ≠ ref) :
    ref' ∈ ctl.queue ∨ ref' ∈ (ctl.sync ord api ref).added := by
  unfold sync1 at hMem
  dsimp only at hMem
  have hRest : ref' ∈ ((ctl.sync ord api ref).added.foldl add { ctl with queue := ctl.queue.erase ref }).queue := by
    split at hMem
    · exact ((mem_queue_add_iff _ _ _).mp hMem).resolve_right hNe
    · exact hMem
  exact ((mem_queue_foldl_add_iff _ _ _).mp hRest).imp_left mem_of_mem_erase

theorem mem_queue_sync1_of_ne (ord : RangeOrder) (api : Api) (hMem : ref' ∈ ctl.queue) (hNe : ref' ≠ ref) :
    ref' ∈ (ctl.sync1 ord api ref).queue := by
  have hRest : ref' ∈ ((ctl.sync ord api ref).added.foldl add { ctl with queue := ctl.queue.erase ref }).queue :=
    (mem_queue_foldl_add_iff _ _ _).mpr (.inl ((mem_erase_of_ne hNe).mpr hMem))
  unfold sync1
  dsimp only
  split
  · exact (mem_queue_add_iff _ _ _).mpr (.inl hRest)
  · exact hRest

def Deletable (ctl : MbCtl ix) (mbsName : String) : Prop :=
  (Strings.split mbsName mbsNameSep).length = 2 ∧ ∃ space, ctl.spaces.get mbsName = some space ∧ space.deleting = false

theorem syncUnwanted_added (ctl : MbCtl ix) (api : Api) (mbsName : String) :
    (ctl.syncUnwanted api mbsName).added = [] := by
  unfold syncUnwanted
  split
  · rfl
  · split
    · rfl
    · split <;> rfl

theorem syncUnwanted_calls {space : Space} (hGet : ctl.spaces.get mbsName = some space) (hLive : space.deleting = false)
    (api : Api) : (ctl.syncUnwanted api mbsName).calls = [.deleteSpace mbsName space.uid] := by
  unfold syncUnwanted
  rw [hGet]
  dsimp only
  rw [hLive, if_neg Bool.false_ne_true]
  split <;> rfl

theorem mem_syncUnwanted_calls (hMem : .deleteSpace name uid ∈ (ctl.syncUnwanted api mbsName).calls) :
    name = mbsName ∧ ∃ space, ctl.spaces.get mbsName = some space ∧ space.deleting = false := by
  cases hGet : ctl.spaces.get mbsName with
  | none =>
    rw [syncUnwanted, hGet] at hMem
    cases hMem
  | some space =>
    cases hDeleting : space.deleting with
    | true =>
      rw [syncUnwanted, hGet] at hMem
      dsimp only at hMem
      rw [if_pos hDeleting] at hMem
      cases hMem
    | false =>
      rw [syncUnwanted_calls hGet hDeleting] at hMem
      cases mem_singleton.mp hMem
      exact ⟨rfl, space, rfl, hDeleting⟩

theorem syncSpace_cases (ctl : MbCtl ix) (ord : RangeOrder) (api : Api) (mbsName : String) :
    (Strings.split mbsName mbsNameSep).length ≠ 2 ∧ ctl.syncSpace ord api mbsName = ⟨.notMailboxName, [], []⟩ ∨
      (Strings.split mbsName mbsNameSep).length = 2 ∧ (ctl.syncSpace ord api mbsName = ctl.syncUnwanted api mbsName ∨
        ctl.byIndex ord mbsName ≠ [] ∧ (ctl.syncSpace ord api mbsName = ⟨.panicked, [], []⟩ ∨
          ∃ st, ctl.syncSpace ord api mbsName = ctl.syncWanted api mbsName st)) := by
  unfold syncSpace
  split
  · rename_i hParts
    exact .inl ⟨hParts, rfl⟩
  · rename_i hParts
    refine .inr ⟨not_not.mp hParts, ?_⟩
    cases hHead : (ctl.byIndex ord mbsName).head? with
    | none => exact .inl rfl
    | some obj =>
      have hSome : ctl.byIndex ord mbsName ≠ [] := ne_nil_of_mem (mem_of_head? hHead)
      cases obj with
      | none => exact .inr ⟨hSome, .inl rfl⟩
      | some st =>
        dsimp only
        split
        · exact .inl rfl
        · exact .inr ⟨hSome, .inr ⟨st, rfl⟩⟩

theorem syncSyncTarget_calls (ctl : MbCtl ix) (stName : String) : (ctl.syncSyncTarget stName).calls = [] := by
  unfold syncSyncTarget
  split
  · rfl
  · split <;> rfl

theorem deletable_of_mem_calls (hMem : .deleteSpace name uid ∈ (ctl.sync ord api ref).calls) :
    ref = .space name ∧ ctl.Deletable name := by
  cases ref with
  | syncTarget stName =>
    rw [sync, syncSyncTarget_calls] at hMem
    cases hMem
  | space mbsName =>
    rw [sync] at hMem
    rcases ctl.syncSpace_cases ord api mbsName with ⟨-, hSync⟩ | ⟨hParts, hSync | ⟨-, hSync | ⟨st, hSync⟩⟩⟩
    · rw [hSync] at hMem
      cases hMem
    · rw [hSync] at hMem
      obtain ⟨rfl, hSpace⟩ := mem_syncUnwanted_calls hMem
      exact ⟨rfl, hParts, hSpace⟩
    · rw [hSync] at hMem
      cases hMem
    · rw [hSync] at hMem
      exact absurd hMem ((ctl.syncWanted_keeps api mbsName st).kept name uid)

theorem added_of_sync (hMem : ref' ∈ (ctl.sync ord api ref).added) :
    ∃ stName mbsName, ctl.Named stName mbsName ∧ ref' = .space mbsName := by
  cases ref with
  | syncTarget stName =>
    rw [sync, syncSyncTarget] at hMem
    cases hGet : ctl.syncTargets.get stName with
    | none =>
      rw [hGet] at hMem
      cases hMem
    | some st =>
      rw [hGet] at hMem
      dsimp only at hMem
      split at hMem
      · cases hMem
      · cases hMem
      · rename_i mbsName hName
        exact ⟨stName, mbsName, ⟨st, hGet, hName⟩, mem_singleton.mp hMem⟩
  | space mbsName =>
    rw [sync] at hMem
    rcases ctl.syncSpace_cases ord api mbsName with ⟨-, hSync⟩ | ⟨-, hSync | ⟨-, hSync | ⟨st, hSync⟩⟩⟩
    · rw [hSync] at hMem
      cases hMem
    · rw [hSync, syncUnwanted_added] at hMem
      cases hMem
    · rw [hSync] at hMem
      cases hMem
    · rw [hSync, (ctl.syncWanted_keeps api mbsName st).added] at hMem
      cases hMem

def Orphaned (ctl : MbCtl ix) (mbsName : String) : Prop :=
  ∀ name, (ix.keys ctl.index mbsName).has name = false ∧ ¬ ctl.Named name mbsName

theorem step_process (ctl : MbCtl ix) (hProcess : event.IsProcess) :
    ctl.step event = { ctl with queue := (ctl.step event).queue } := by
  obtain ⟨ref, ord, api, rfl⟩ := hProcess
  rw [step]
  split
  · exact ctl.sync1_eq ord api ref
  · rfl

variable (hOrphaned : ctl.Orphaned mbsName)

include hOrphaned

theorem Orphaned.process (hProcess : event.IsProcess) : (ctl.step event).Orphaned mbsName := by
  rw [ctl.step_process hProcess]
  exact hOrphaned

theorem Orphaned.deletes (hDeletable : ctl.Deletable mbsName) (ord : RangeOrder)
    (api : Api) : ∃ uid, .deleteSpace mbsName uid ∈ (ctl.sync ord api (.space mbsName)).calls := by
  obtain ⟨hParts, space, hGet, hLive⟩ := hDeletable
  rw [sync]
  rcases ctl.syncSpace_cases ord api mbsName with ⟨hNot, -⟩ | ⟨-, hSync | ⟨hSome, -⟩⟩
  · exact absurd hParts hNot
  · rw [hSync, syncUnwanted_calls hGet hLive]
    exact ⟨space.uid, mem_singleton.mpr rfl⟩
  · obtain ⟨obj, hMem⟩ := exists_mem_of_ne_nil _ hSome
    obtain ⟨⟨name, ⟨⟩⟩, hVisit, -⟩ := mem_map.mp hMem
    have hHas := (MapSet.has_iff_get _ _).mpr ((ord.mem_visit_iff _ _ _).mp hVisit)
    exact absurd ((hOrphaned name).1.symm.trans hHas) Bool.false_ne_true

theorem Orphaned.not_deleted (hNot : .space mbsName ∉ ctl.queue)
    (hWork : ∀ event ∈ work, event.IsProcess) (uid : String) : .deleteSpace mbsName uid ∉ ctl.issued work := by
  induction work generalizing ctl with
  | nil => exact not_mem_nil
  | cons event work ih =>
    obtain ⟨ref, ord, api, rfl⟩ := hWork event mem_cons_self
    intro hMem
    rcases mem_append.mp hMem with hMem | hMem
    · rw [Event.calls] at hMem
      split at hMem
      · rename_i hQueued
        obtain ⟨rfl, -⟩ := deletable_of_mem_calls hMem
        exact hNot hQueued
      · cases hMem
    · refine ih (hOrphaned.process ⟨ref, ord, api, rfl⟩) ?_
        (fun event hEvent => hWork event (mem_cons_of_mem _ hEvent)) hMem
      rw [step]
      split
      · rename_i hQueued
        intro hAdded
        rcases mem_queue_sync1 hAdded (fun hEq => hNot (hEq ▸ hQueued)) with hQueue | hAdded
        · exact hNot hQueue
        · obtain ⟨stName, mbsName', hNamed, hEq⟩ := added_of_sync hAdded
          cases hEq
          exact (hOrphaned stName).2 hNamed
      · exact hNot

omit hOrphaned

theorem deletable_of_issued (hWork : ∀ event ∈ work, event.IsProcess)
    (hIssued : .deleteSpace mbsName uid ∈ ctl.issued work) : ctl.Deletable mbsName := by
  induction work generalizing ctl with
  | nil => cases hIssued
  | cons event work ih =>
    have hProcess := hWork event mem_cons_self
    rcases mem_append.mp hIssued with hMem | hMem
    · obtain ⟨ref, ord, api, rfl⟩ := hProcess
      rw [Event.calls] at hMem
      split at hMem
      · exact (deletable_of_mem_calls hMem).2
      · cases hMem
    · have hLater := ih (fun event hEvent => hWork event (mem_cons_of_mem _ hEvent)) hMem
      rw [ctl.step_process hProcess] at hLater
      exact hLater

theorem Orphaned.deleted (hOrphaned : ctl.Orphaned mbsName) (hDeletable : ctl.Deletable mbsName)
    (hQueued : .space mbsName ∈ ctl.queue) (hWork : ∀ event ∈ work, event.IsProcess)
    (hDone : ∃ ord api, .process (.space mbsName) ord api ∈ work) :
    ∃ uid, .deleteSpace mbsName uid ∈ ctl.issued work := by
  induction work generalizing ctl with
  | nil =>
    obtain ⟨ord, api, hMem⟩ := hDone
    cases hMem
  | cons event work ih =>
    have hProcess := hWork event mem_cons_self
    obtain ⟨ref, ord, api, rfl⟩ := hProcess
    by_cases hRef : ref = .space mbsName
    · subst hRef
      obtain ⟨uid, hMem⟩ := hOrphaned.deletes hDeletable ord api
      exact ⟨uid, mem_append_left _ (by rw [Event.calls, if_pos hQueued]; exact hMem)⟩
    · have hDeletable' : (ctl.step (.process ref ord api)).Deletable mbsName := by
        rw [ctl.step_process ⟨ref, ord, api, rfl⟩]
        exact hDeletable
      have hQueued' : .space mbsName ∈ (ctl.step (.process ref ord api)).queue := by
        rw [step]
        split
        · exact mem_queue_sync1_of_ne ord api hQueued (Ne.symm hRef)
        · exact hQueued
      obtain ⟨ord', api', hMem⟩ := hDone
      have hLater : .process (.space mbsName) ord' api' ∈ work :=
        (mem_cons.mp hMem).resolve_left fun hEq => hRef (by cases hEq; rfl)
      obtain ⟨uid, hIssued⟩ := ih (hOrphaned.process ⟨ref, ord, api, rfl⟩) hDeletable' hQueued'
        (fun event hEvent => hWork event (mem_cons_of_mem _ hEvent)) ⟨ord', api', hLater⟩
      exact ⟨uid, mem_append_right _ hIssued⟩

variable {st : SyncTarget} (hStored : ctl.syncTargets.get name = some st)

include hStored

theorem step_removeSyncTarget (told : Told) : ctl.step (.removeSyncTarget name told) = { ctl with
        syncTargets := ctl.syncTargets.delete name
        index := ctl.updateIndices none name
        queue := (ctl.step (.removeSyncTarget name told)).queue } := by
  rw [step, hStored]
  exact enqueue_eq _ _

theorem mem_queue_removeSyncTarget_iff (told : Told) (mbsName : String) :
    .space mbsName ∈ (ctl.step (.removeSyncTarget name told)).queue ↔ .space mbsName ∈ ctl.queue := by
  rw [step, hStored]
  cases told with
  | object =>
    refine (mem_queue_add_iff _ _ _).trans (or_iff_left ?_)
    intro hEq
    cases hEq
  | finalStateUnknown => exact Iff.rfl

omit hStored

theorem Sound.orphaned (hLawful : ix.Lawful) (hSound : ctl.Sound) (hStored : ctl.syncTargets.get name = some st)
    (hName : mbsNameOfSynctarget ctl.kbSpaceRelation st = .ok mbsName) (told : Told) :
    (ctl.step (.removeSyncTarget name told)).Orphaned mbsName := by
  obtain ⟨spaceID, hEq⟩ := mbsNameOfSynctarget_ok hName
  intro name'
  constructor
  · -- only the deleted SyncTarget can be under the name, and its deletion takes it from there
    rw [Bool.eq_false_iff]
    intro hHas
    rcases (has_index_step_iff hLawful _ _ ctl _).mp hHas with ⟨st', hStore, -⟩ | ⟨hKept, hWas⟩
    · cases hStore
    · obtain rfl := hSound.index_eq hStored (hEq ▸ hWas)
      exact hKept ⟨rfl, ⟨st, hStored, hName⟩, fun _ hStore => by cases hStore⟩
  · rintro ⟨st', hGet, hName'⟩
    rw [step_removeSyncTarget hStored told] at hGet hName'
    obtain ⟨hNe, hGet⟩ := GoMap.get_of_get_delete hGet
    obtain ⟨spaceID', hEq'⟩ := mbsNameOfSynctarget_ok hName'
    exact hNe (hSound.uid_inj hGet hStored (uid_of_mbsName (hEq.symm.trans hEq')).symm)

end MbCtl

/-- After the deletion of a SyncTarget, processing the queue deletes its mailbox space exactly if the name of the space
was already waiting in the queue. -/
theorem mailbox_deleted_iff (hLawful : ix.Lawful) (spaceProvider : String) (events : List Event)
    (hUIDs : Run.Guarded MbCtl.step MbCtl.FreshUID (.new ix spaceProvider) events) (name : String) (st : SyncTarget)
    (hStored : ((MbCtl.new ix spaceProvider).run events).syncTargets.get name = some st) (mbsName : String)
    (hName : mbsNameOfSynctarget ((MbCtl.new ix spaceProvider).run events).kbSpaceRelation st = .ok mbsName)
    (space : Space) (hSpace : ((MbCtl.new ix spaceProvider).run events).spaces.get mbsName = some space) (told : Told)
    (work : List Event) (hWork : ∀ event ∈ work, event.IsProcess)
    (hDone : ∀ ref ∈ (((MbCtl.new ix spaceProvider).run events).step (.removeSyncTarget name told)).queue,
      ∃ ord api, .process ref ord api ∈ work) :
    (∃ uid, .deleteSpace mbsName uid ∈
        (((MbCtl.new ix spaceProvider).run events).step (.removeSyncTarget name told)).issued work) ↔
      .space mbsName ∈ ((MbCtl.new ix spaceProvider).run events).queue ∧
        (Strings.split mbsName mbsNameSep).length = 2 ∧ space.deleting = false := by
  have hSound := (MbCtl.sound_new spaceProvider).run hLawful hUIDs
  generalize (MbCtl.new ix spaceProvider).run events = ctl at *
  have hOrphaned := hSound.orphaned hLawful hStored hName told
  have hQueue := MbCtl.mem_queue_removeSyncTarget_iff hStored told mbsName
  have hDeletable : (ctl.step (.removeSyncTarget name told)).Deletable mbsName ↔
      (Strings.split mbsName mbsNameSep).length = 2 ∧ space.deleting = false := by
    rw [MbCtl.step_removeSyncTarget hStored told, MbCtl.Deletable]
    refine and_congr_right fun _ => ⟨?_, fun hLive => ⟨space, hSpace, hLive⟩⟩
    rintro ⟨space', hGet, hLive⟩
    rw [Option.mem_unique hSpace hGet]
    exact hLive
  constructor
  · rintro ⟨uid, hIssued⟩
    refine ⟨hQueue.mp ?_, hDeletable.mp ?_⟩
    · by_contra hNot
      exact hOrphaned.not_deleted hNot hWork uid hIssued
    · exact MbCtl.deletable_of_issued hWork hIssued
  · rintro ⟨hQueued, hReady⟩
    exact hOrphaned.deleted (hDeletable.mpr hReady) (hQueue.mpr hQueued) hWork (hDone _ (hQueue.mpr hQueued))

/-- The SyncTarget and its mailbox space are stored, and nothing is processed yet. -/
def edgeEvents : List Event := [edgeRelation, .storeSyncTarget edgeTarget, .storeSpace edgeMailbox]

def edgeWork : List Event :=
  [.process (.syncTarget "kb1-edge") .insertion succeeds, .process (.space "imw1-mb-12ab") .insertion succeeds]

theorem edgeEvents_guarded : Run.Guarded MbCtl.step MbCtl.FreshUID (.new threadSafeMap "provider") edgeEvents := by
  obtain ⟨hFirst, hSecond, -⟩ := edgeTarget_guarded edgeRelation rfl
  refine ⟨hFirst, hSecond, fun st hEq => ?_, trivial⟩
  cases hEq

theorem mailbox_deleted_iff_edge :
    ((MbCtl.new threadSafeMap "provider").run edgeEvents).queue = [.syncTarget "kb1-edge", .space "imw1-mb-12ab"] ∧
      ((∃ uid, .deleteSpace "imw1-mb-12ab" uid ∈
          (((MbCtl.new threadSafeMap "provider").run edgeEvents).step
            (.removeSyncTarget "kb1-edge" .object)).issued edgeWork) ↔
        .space "imw1-mb-12ab" ∈ ((MbCtl.new threadSafeMap "provider").run edgeEvents).queue ∧
          (Strings.split "imw1-mb-12ab" mbsNameSep).length = 2 ∧ edgeMailbox.deleting = false) := by
  refine ⟨by rfl, mailbox_deleted_iff threadSafeMap_lawful "provider" edgeEvents edgeEvents_guarded
    "kb1-edge" edgeTarget
    (by rfl) "imw1-mb-12ab" (by rfl) edgeMailbox (by rfl) .object edgeWork ?_ ?_⟩
  · intro event hMem
    rcases mem_cons.mp hMem with rfl | hMem
    · exact ⟨_, _, _, rfl⟩
    · exact ⟨_, _, _, mem_singleton.mp hMem⟩
  · intro ref hMem
    rcases mem_cons.mp hMem with rfl | hMem
    · exact ⟨_, _, mem_cons_self⟩
    · obtain rfl := mem_singleton.mp hMem
      exact ⟨_, _, mem_cons_of_mem _ mem_cons_self⟩

/-- Once the queue was empty, the deletion of the SyncTarget does not reach the mailbox space, however it is told. -/
theorem mailbox_survives :
    ((MbCtl.new threadSafeMap "provider").run (edgeEvents ++ edgeWork)).syncTargets.get "kb1-edge" =
        some edgeTarget ∧
      ((MbCtl.new threadSafeMap "provider").run (edgeEvents ++ edgeWork)).spaces.get "imw1-mb-12ab" = some edgeMailbox ∧
      (((MbCtl.new threadSafeMap "provider").run (edgeEvents ++ edgeWork)).step
        (.removeSyncTarget "kb1-edge" .object)).queue =
        [.syncTarget "kb1-edge"] ∧
      (((MbCtl.new threadSafeMap "provider").run (edgeEvents ++ edgeWork)).step
        (.removeSyncTarget "kb1-edge" .object)).issued
        [.process (.syncTarget "kb1-edge") .insertion succeeds] = [] ∧
      ((((MbCtl.new threadSafeMap "provider").run (edgeEvents ++ edgeWork)).step
        (.removeSyncTarget "kb1-edge" .object)).run
        [.process (.syncTarget "kb1-edge") .insertion succeeds]).queue = [] ∧
      (((MbCtl.new threadSafeMap "provider").run (edgeEvents ++ edgeWork)).step
        (.removeSyncTarget "kb1-edge" .finalStateUnknown)).queue = [] :=
  ⟨by rfl, by rfl, by rfl, by rfl, by rfl, by rfl⟩

end KubeStellar.MailboxController
