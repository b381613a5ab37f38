import KubeStellar.WorkloadProjector.Writes

/-! # The end of a transaction

The loop over the changed destinations goes through if no map of modes that it reads is nil. It then has enqueued the
`SyncerConfig` of every changed destination that has a record.
-/

namespace KubeStellar.WorkloadProjector

open List

def Ready {Obj : Type} (maps : ScopeMaps Obj) (destination : SinglePlacement) : Prop :=
  maps.distributionsForSync.index destination ≠ none → maps.modesForSync.index destination ≠ none

variable {destination : SinglePlacement}
  {Obj : Type} [DecidableEq Obj] (env : Env) {maps : ScopeMaps Obj} (namespaced : Bool) (wpd : PerDestination)

theorem informDestination_of_ready (hReady : Ready maps destination) :
    ∃ wpd', informDestination env maps namespaced destination wpd = .ok wpd' := by
  by_cases hObjs : maps.distributionsForSync.index destination = none
  · have hNil : firsts env.ord ((maps.distributionsForSync.index destination).getD ∅) = [] := by
      by_contra hNe
      exact (firsts_index_ne_nil_iff _ _ _).mp hNe hObjs
    exact ⟨wpd, by rw [informDestination, hNil]; rfl⟩
  · obtain ⟨modes, hModes⟩ := Option.ne_none_iff_exists'.mp (hReady hObjs)
    rw [informDestination, hModes]
    generalize firsts env.ord ((maps.distributionsForSync.index destination).getD ∅) = objs
    induction objs generalizing wpd with
    | nil => exact ⟨wpd, rfl⟩
    | cons obj rest ih =>
      rw [foldlM_cons]
      dsimp only
      cases modes.get obj.1 with
      | none => exact ih wpd
      | some pmv => exact ih _

theorem ready_of_informDestination {wpd' : PerDestination}
    (hOk : informDestination env maps namespaced destination wpd = .ok wpd') : Ready maps destination := by
  intro hObjs hModes
  rw [informDestination, hModes] at hOk
  cases hFirsts : firsts env.ord ((maps.distributionsForSync.index destination).getD ∅) with
  | nil => exact (firsts_index_ne_nil_iff env.ord _ _).mpr hObjs hFirsts
  | cons obj rest =>
    rw [hFirsts, foldlM_cons] at hOk
    cases hOk

structure Finished (progress progress' : Progress) (destinations : List SinglePlacement) : Prop where
  names : progress'.mbwsNameToSP =
    progress.mbwsNameToSP.putAll (destinations.map fun d => (SPMailboxWorkspaceName d, d))
  records : ∀ d, progress'.perDestination.has d = progress.perDestination.has d
  items : ∀ mbwsName name, .syncerConfigRef mbwsName name ∈ progress'.items ↔
    .syncerConfigRef mbwsName name ∈ progress.items ∨ ∃ d ∈ destinations,
      progress.perDestination.has d = true ∧ mbwsName = SPMailboxWorkspaceName d ∧ name = SyncerConfigName

theorem syncerConfigRef_not_mem_resyncDestination (env : Env) (destination : SinglePlacement)
    (wpd : PerDestination) (mbwsName : String) (name : ObjectName) :
    .syncerConfigRef mbwsName name ∉ resyncDestination env destination wpd := by
  simp only [resyncDestination, mem_flatMap, not_exists, not_and]
  intro tup _ hMem
  split at hMem
  · cases hMem
  · simp at hMem

variable {progress progress' : Progress} (env : Env) (tx : Transaction) (destinations : List SinglePlacement)

theorem finishDestination_of_ready
    (hReady : progress.perDestination.has destination = true → Ready tx.ns destination ∧ Ready tx.nns destination) :
    ∃ progress', finishDestination env tx progress destination = .ok progress' ∧
      Finished progress progress' [destination] := by
  unfold finishDestination
  cases hGet : progress.perDestination.get destination with
  | none =>
    refine ⟨{ progress with
      mbwsNameToSP := progress.mbwsNameToSP.put (SPMailboxWorkspaceName destination) destination },
      by simp only [hGet]; rfl, rfl, fun _ => rfl, ?_⟩
    simp [GoMap.has, hGet]
  | some wpd =>
    obtain ⟨hNs, hNns⟩ := hReady (by rw [GoMap.has, hGet]; rfl)
    obtain ⟨wpd', hInform⟩ := informDestination_of_ready env true wpd hNs
    obtain ⟨wpd'', hInform'⟩ := informDestination_of_ready env false wpd' hNns
    refine ⟨_, by simp only [hGet, hInform, hInform', bind, Except.bind]; rfl, rfl, ?_, ?_⟩
    · intro d
      by_cases hDest : d = destination
      · simp [GoMap.has, hDest, hGet]
      · simp [GoMap.has, hDest]
    · intro mbwsName name
      simp [GoMap.has, hGet, syncerConfigRef_not_mem_resyncDestination]

theorem ready_of_finishDestination (hOk : finishDestination env tx progress destination = .ok progress')
    (hHas : progress.perDestination.has destination = true) : Ready tx.ns destination ∧ Ready tx.nns destination := by
  obtain ⟨wpd, hGet⟩ := Option.isSome_iff_exists.mp hHas
  simp only [finishDestination, hGet, bind, Except.bind] at hOk
  cases hNs : informDestination env tx.ns true destination wpd with
  | error => rw [hNs] at hOk; cases hOk
  | ok wpd' =>
    rw [hNs] at hOk
    dsimp only at hOk
    cases hNns : informDestination env tx.nns false destination wpd' with
    | error => rw [hNns] at hOk; cases hOk
    | ok wpd'' => exact ⟨ready_of_informDestination env true wpd hNs, ready_of_informDestination env false wpd' hNns⟩

theorem Finished.cons {progress'' : Progress} {rest : List SinglePlacement}
    (hHead : Finished progress progress' [destination]) (hRest : Finished progress' progress'' rest) :
    Finished progress progress'' (destination :: rest) where
  names := hRest.names.trans (by rw [hHead.names]; rfl)
  records d := (hRest.records d).trans (hHead.records d)
  items mbwsName name := by
    rw [hRest.items, hHead.items, or_assoc, exists_mem_cons_iff]
    simp [hHead.records]

theorem finishDestinations_of_ready
    (hReady : ∀ d ∈ destinations, progress.perDestination.has d = true → Ready tx.ns d ∧ Ready tx.nns d) :
    ∃ progress', destinations.foldlM (finishDestination env tx) progress = .ok progress' ∧
      Finished progress progress' destinations := by
  induction destinations generalizing progress with
  | nil => exact ⟨progress, rfl, rfl, fun _ => rfl, by simp⟩
  | cons destination rest ih =>
    obtain ⟨progress', hHead, hFinished⟩ := finishDestination_of_ready env tx (hReady destination mem_cons_self)
    have hLater : ∀ d ∈ rest, progress'.perDestination.has d = true → Ready tx.ns d ∧ Ready tx.nns d :=
      fun d hMem hHas => hReady d (mem_cons_of_mem _ hMem) (hFinished.records d ▸ hHas)
    obtain ⟨progress'', hRest, hFinished'⟩ := ih hLater
    refine ⟨progress'', ?_, hFinished.cons hFinished'⟩
    rw [foldlM_cons, hHead]
    exact hRest

theorem ready_of_finishDestinations (hOk : destinations.foldlM (finishDestination env tx) progress = .ok progress') :
    ∀ d ∈ destinations, progress.perDestination.has d = true → Ready tx.ns d ∧ Ready tx.nns d := by
  induction destinations generalizing progress with
  | nil => exact fun _ hMem => absurd hMem not_mem_nil
  | cons destination rest ih =>
    rw [foldlM_cons] at hOk
    cases hHead : finishDestination env tx progress destination with
    | error => rw [hHead] at hOk; cases hOk
    | ok next =>
      rw [hHead] at hOk
      have hReady := ready_of_finishDestination env tx hHead
      obtain ⟨next', hHead', hFinished⟩ := finishDestination_of_ready env tx hReady
      obtain rfl : next = next' := Except.ok.inj (hHead.symm.trans hHead')
      intro d hMem hHas
      rcases mem_cons.mp hMem with rfl | hMem
      · exact hReady hHas
      · exact ih hOk d hMem (hFinished.records d ▸ hHas)

theorem syncerConfigRef_not_mem_finishSources (env : Env) (tx : Transaction) (mbwsName : String)
    (name : ObjectName) : .syncerConfigRef mbwsName name ∉ (finishSources env tx).2 := by
  have hSource : ∀ perSource source, .syncerConfigRef mbwsName name ∉ (finishSource env tx perSource source).2 := by
    intro perSource source
    unfold finishSource
    split <;> simp [resyncSource]
  refine List.foldlRecOn (motive := fun (acc : GoMap String PerSource × List QueueItem) =>
    QueueItem.syncerConfigRef mbwsName name ∉ acc.2) _ _ not_mem_nil ?_
  intro acc hAcc source _
  simp [hAcc, hSource]

variable {wp' : State} {items : List QueueItem} (env : Env) (wp : State) (writes : List SectionWrite)

/-- The sections after the writes of a transaction. -/
def after : Transaction := writes.foldl Transaction.apply wp.begin

def HasRecord (destination : SinglePlacement) : Prop :=
  wp.perDestination.has destination = true ∨ ∃ write ∈ writes, PutsTo destination write

def changedDestinations : List SinglePlacement :=
  (env.ord.visit (after wp writes).records.changedDestinations).map Prod.fst

def unfinished : Progress :=
  ⟨wp.mbwsNameToSP, (after wp writes).records.perDestination, (finishSources env (after wp writes)).2⟩

structure Transacted (wp' : State) (items : List QueueItem) : Prop where
  ns : wp'.ns = (after wp writes).ns
  nns : wp'.nns = (after wp writes).nns
  upsyncs : wp'.upsyncs = (after wp writes).upsyncs
  names : wp'.mbwsNameToSP =
    wp.mbwsNameToSP.putAll ((changedDestinations env wp writes).map fun d => (SPMailboxWorkspaceName d, d))
  records : ∀ d, wp'.perDestination.has d = true ↔ HasRecord wp writes d
  items : ∀ mbwsName, .syncerConfigRef mbwsName SyncerConfigName ∈ items ↔
    ∃ d, Touched wp.begin writes d ∧ HasRecord wp writes d ∧ mbwsName = SPMailboxWorkspaceName d

theorem mem_changedDestinations_iff (d : SinglePlacement) :
    d ∈ changedDestinations env wp writes ↔ Touched wp.begin writes d := by
  rw [changedDestinations, RangeOrder.mem_visit_keys_iff, after, foldl_apply_changed]
  simp [State.begin, GoMap.has]

theorem transact_eq : transact env wp writes = (do
    let progress ← (changedDestinations env wp writes).foldlM (finishDestination env (after wp writes))
      (unfinished env wp writes)
    return (⟨progress.mbwsNameToSP, (finishSources env (after wp writes)).1, progress.perDestination,
      (after wp writes).ns, (after wp writes).nns, (after wp writes).upsyncs⟩, progress.items)) := rfl

variable {wp} (hRec : Recorded wp.begin)

include hRec

theorem transact_of_ready
    (hReady : ∀ d, Touched wp.begin writes d → Ready (after wp writes).ns d ∧ Ready (after wp writes).nns d) :
    ∃ wp' items, transact env wp writes = .ok (wp', items) ∧ Transacted env wp writes wp' items := by
  have hRecords := foldl_apply_perDestination writes hRec
  obtain ⟨progress, hOk, hFinished⟩ :=
    finishDestinations_of_ready env (after wp writes) (changedDestinations env wp writes)
      (fun d hMem (_ : (unfinished env wp writes).perDestination.has d = true) =>
        hReady d ((mem_changedDestinations_iff env wp writes d).mp hMem))
  rw [transact_eq, hOk]
  refine ⟨_, _, rfl, rfl, rfl, rfl, hFinished.names, fun d => ?_, fun mbwsName => ?_⟩
  · rw [hFinished.records]
    exact hRecords d
  · rw [hFinished.items]
    constructor
    · rintro (hSource | ⟨d, hMem, hHas, hName, -⟩)
      · exact absurd hSource (syncerConfigRef_not_mem_finishSources env _ _ _)
      · exact ⟨d, (mem_changedDestinations_iff env wp writes d).mp hMem, (hRecords d).mp hHas, hName⟩
    · rintro ⟨d, hTouched, hHas, hName⟩
      exact .inr ⟨d, (mem_changedDestinations_iff env wp writes d).mpr hTouched, (hRecords d).mpr hHas, hName, rfl⟩

theorem ready_of_transact {result : State × List QueueItem} (hOk : transact env wp writes = .ok result)
    (d : SinglePlacement) (hTouched : Touched wp.begin writes d) :
    Ready (after wp writes).ns d ∧ Ready (after wp writes).nns d := by
  have hAfter : Recorded (after wp writes) := foldl_apply_recorded writes hRec
  rw [transact_eq] at hOk
  cases hLoop : (changedDestinations env wp writes).foldlM (finishDestination env (after wp writes))
      (unfinished env wp writes) with
  | error => rw [hLoop] at hOk; cases hOk
  | ok progress =>
    have hReady := ready_of_finishDestinations env _ _ hLoop d
      ((mem_changedDestinations_iff env wp writes d).mpr hTouched)
    exact ⟨fun hObjs => (hReady (hAfter.ns d hObjs)).1 hObjs, fun hObjs => (hReady (hAfter.nns d hObjs)).2 hObjs⟩

variable (hOk : transact env wp writes = .ok (wp', items))

include hOk

theorem transacted_of_transact : Transacted env wp writes wp' items := by
  obtain ⟨wp'', items', hOk', hTrans⟩ :=
    transact_of_ready env writes hRec (ready_of_transact env writes hRec hOk)
  obtain ⟨rfl, rfl⟩ := Prod.mk.inj (Except.ok.inj (hOk.symm.trans hOk'))
  exact hTrans

theorem transact_recorded : Recorded wp'.begin := by
  have hAfter : Recorded (after wp writes) := foldl_apply_recorded writes hRec
  have hRecords := foldl_apply_perDestination writes hRec
  have hTrans := transacted_of_transact env writes hRec hOk
  constructor
  · intro d hIndex
    rw [State.begin, hTrans.ns] at hIndex
    exact (hTrans.records d).mpr ((hRecords d).mp (hAfter.ns d hIndex))
  · intro d hIndex
    rw [State.begin, hTrans.nns] at hIndex
    exact (hTrans.records d).mpr ((hRecords d).mp (hAfter.nns d hIndex))

omit hOk

omit hRec in
theorem newWorkloadProjector_recorded : Recorded newWorkloadProjector.begin :=
  ⟨fun _ hIndex => absurd rfl hIndex, fun _ hIndex => absurd rfl hIndex⟩

end KubeStellar.WorkloadProjector
