import KubeStellar.Library.Run
import KubeStellar.Library.Strings

/-! # Listing and watching the API resources of a cluster

`pkg/apiwatch/resources.go`: the list-watcher behind the informer on API resources. A List and an Invalidate each take
the next version from one counter; a Watch never reports anything, it is cancelled when a List is due.
-/

namespace KubeStellar.ApiWatch

open List

open Strconv

structure ListOptions where
  resourceVersion : String
  timeoutSeconds : Option Int

inductive WatchFault where
  | resourceExpired (message : String)
  | nilDereference

/-- The state under the mutex, with the discovery data `D` in the memory cache and the contexts of the accepted
watches. -/
structure ResourcesListWatcher (D : Type) where
  clusterName : String
  cache : Option D
  resourceVersionI : Int
  needRelist : Bool
  relistAfter : Nat
  /-- The watches whose cancel function was appended, by their numbers. -/
  cancels : List Nat
  /-- For each accepted watch, whether its context is done. -/
  done : List Bool

inductive Event (D : Type) where
  | invalidate (now : Nat)
  | listVersion
  /-- The data read of a List, with what the discovery client would serve. -/
  | listData (served : D)
  | watch (opts : ListOptions)
  | relist (now : Nat)
  | stop (watch : Nat)

namespace ResourcesListWatcher

variable {D : Type}

def new (clusterName : String) : ResourcesListWatcher D := ⟨clusterName, none, 1, false, 0, [], []⟩

def relistDelay : Nat := 20

variable (rlw : ResourcesListWatcher D)

def invalidate (now : Nat) : ResourcesListWatcher D :=
  { rlw with
    resourceVersionI := rlw.resourceVersionI + 1
    relistAfter := now + relistDelay
    needRelist := true
    cache := none }

def cancelAll : ResourcesListWatcher D :=
  { rlw with done := rlw.cancels.foldl (fun done watch => done.set watch true) rlw.done }

def listVersion : ResourcesListWatcher D × String :=
  let resourceVersionI := rlw.resourceVersionI + 1
  ({ rlw with resourceVersionI }.cancelAll, formatInt resourceVersionI)

/-- The memory cache serves its content until it is invalidated and fetches on the first read afterwards. -/
def listData (served : D) : ResourcesListWatcher D × D :=
  match rlw.cache with
  | some data => (rlw, data)
  | none => ({ rlw with cache := some served }, served)

/-- The state after an accepted Watch, with the number of the watch. -/
def watch (opts : ListOptions) : Except WatchFault (ResourcesListWatcher D × Nat) :=
  let resourceVersionS := formatInt rlw.resourceVersionI
  if resourceVersionS ≠ opts.resourceVersion then
    .error (.resourceExpired ("Requested version " ++ opts.resourceVersion ++ ", have version " ++ resourceVersionS ++
      " in cluster " ++ rlw.clusterName))
  else
    match opts.timeoutSeconds with
    | none => .error .nilDereference
    | some _ =>
      .ok ({ rlw with cancels := rlw.cancels ++ [rlw.done.length], done := rlw.done ++ [false] }, rlw.done.length)

def relist (now : Nat) : ResourcesListWatcher D :=
  if rlw.needRelist then
    if now < rlw.relistAfter then rlw else { rlw.cancelAll with needRelist := false }
  else rlw

def stop (watch : Nat) : ResourcesListWatcher D :=
  { rlw with done := rlw.done.set watch true }

def step : Event D → ResourcesListWatcher D
  | .invalidate now => rlw.invalidate now
  | .listVersion => rlw.listVersion.1
  | .listData served => (rlw.listData served).1
  | .watch opts =>
    match rlw.watch opts with
    | .ok (rlw, _) => rlw
    | .error _ => rlw
  | .relist now => rlw.relist now
  | .stop watch => rlw.stop watch

/-- The state after the events of an interleaving. -/
def run (events : List (Event D)) : ResourcesListWatcher D := Run.run step rlw events

end ResourcesListWatcher

namespace Event

variable {D : Type}

def invalidates : Event D → Bool
  | .invalidate _ => true
  | _ => false

/-- It takes the next version from the counter. -/
def allocates : Event D → Bool
  | .invalidate _ | .listVersion => true
  | _ => false

theorem invalidates_of_not_allocates {event : Event D} (hNot : event.allocates = false) :
    event.invalidates = false := by
  cases event <;> first | rfl | cases hNot

end Event

namespace ResourcesListWatcher

variable {D : Type} {rlw rlw' : ResourcesListWatcher D} {number : Nat} {opts : ListOptions}

structure Registered (number : Nat) (rlw : ResourcesListWatcher D) : Prop where
  mem_cancels : number ∈ rlw.cancels
  lt_length : number < rlw.done.length

theorem watch_ok (hOk : rlw.watch opts = .ok (rlw', number)) :
    opts.resourceVersion = formatInt rlw.resourceVersionI ∧ number = rlw.done.length ∧
      rlw' = { rlw with cancels := rlw.cancels ++ [rlw.done.length], done := rlw.done ++ [false] } := by
  unfold watch at hOk
  dsimp only at hOk
  split at hOk
  · cases hOk
  · rename_i hVersion
    split at hOk
    · cases hOk
    · cases hOk
      exact ⟨(not_not.mp hVersion).symm, rfl, rfl⟩

theorem registered_of_watch (hOk : rlw.watch opts = .ok (rlw', number)) : Registered number rlw' := by
  obtain ⟨-, rfl, rfl⟩ := watch_ok hOk
  refine ⟨mem_append_right _ (mem_singleton.mpr rfl), ?_⟩
  rw [length_append]
  exact Nat.lt_succ_self _

theorem step_watch (rlw : ResourcesListWatcher D) (opts : ListOptions) :
    rlw.step (.watch opts) = rlw ∨ rlw.step (.watch opts) =
        { rlw with cancels := rlw.cancels ++ [rlw.done.length], done := rlw.done ++ [false] } := by
  cases hWatch : rlw.watch opts with
  | error fault => exact .inl (by rw [step, hWatch])
  | ok accepted =>
    obtain ⟨rlw', number⟩ := accepted
    exact .inr (by rw [step, hWatch]; exact (watch_ok hWatch).2.2)

theorem listData_fields (rlw : ResourcesListWatcher D) (served : D) :
    (rlw.listData served).1 = { rlw with cache := (rlw.listData served).1.cache } := by
  unfold listData
  split <;> rfl

theorem relist_cases (rlw : ResourcesListWatcher D) (now : Nat) :
    rlw.relist now = rlw ∨ rlw.relist now = { rlw.cancelAll with needRelist := false } := by
  unfold relist
  split
  · split
    · exact .inl rfl
    · exact .inr rfl
  · exact .inl rfl

theorem step_resourceVersionI (rlw : ResourcesListWatcher D) (event : Event D) :
    (rlw.step event).resourceVersionI = rlw.resourceVersionI + if event.allocates then 1 else 0 := by
  cases event with
  | invalidate now => rfl
  | listVersion => rfl
  | listData served =>
    rw [step, listData_fields]
    exact (Int.add_zero _).symm
  | watch opts =>
    rcases rlw.step_watch opts with hSame | hOpened
    · rw [hSame]
      exact (Int.add_zero _).symm
    · rw [hOpened]
      exact (Int.add_zero _).symm
  | relist now =>
    rcases rlw.relist_cases now with hSame | hCancelled
    · rw [step, hSame]
      exact (Int.add_zero _).symm
    · rw [step, hCancelled]
      exact (Int.add_zero _).symm
  | stop watch => exact (Int.add_zero _).symm

theorem run_resourceVersionI (rlw : ResourcesListWatcher D) (events : List (Event D)) :
    (rlw.run events).resourceVersionI = rlw.resourceVersionI + events.countP Event.allocates := by
  induction events generalizing rlw with
  | nil => exact (Int.add_zero _).symm
  | cons event events ih =>
    rw [show rlw.run (event :: events) = (rlw.step event).run events from rfl, ih, step_resourceVersionI, countP_cons]
    split <;> omega

theorem getElem?_foldl_set (done : List Bool) (watches : List Nat) (number : Nat) :
    (watches.foldl (fun done watch => done.set watch true) done)[number]? =
      if number ∈ watches ∧ number < done.length then some true else done[number]? := by
  induction watches generalizing done with
  | nil => simp
  | cons watch watches ih =>
    rw [foldl_cons, ih, length_set, List.getElem?_set]
    by_cases hEq : watch = number
    · subst hEq
      by_cases hLt : watch < done.length <;> simp [hLt]
    · simp [hEq, Ne.symm hEq]

theorem done_cancelAll (hCancel : number ∈ rlw.cancels) (hLt : number < rlw.done.length) :
    rlw.cancelAll.done[number]? = some true := by
  rw [cancelAll, getElem?_foldl_set, if_pos ⟨hCancel, hLt⟩]

theorem length_cancelAll (rlw : ResourcesListWatcher D) : rlw.cancelAll.done.length = rlw.done.length := by
  suffices h : ∀ (watches : List Nat) (done : List Bool),
      (watches.foldl (fun done watch => done.set watch true) done).length = done.length from h _ _
  intro watches
  induction watches with
  | nil => exact fun _ => rfl
  | cons watch watches ih => exact fun done => (ih _).trans length_set

theorem Registered.step (hReg : Registered number rlw) (event : Event D) : Registered number (rlw.step event) := by
  obtain ⟨hMem, hLt⟩ := hReg
  cases event with
  | invalidate now => exact ⟨hMem, hLt⟩
  | listVersion => exact ⟨hMem, (length_cancelAll _).symm ▸ hLt⟩
  | listData served =>
    rw [ResourcesListWatcher.step, listData_fields]
    exact ⟨hMem, hLt⟩
  | watch opts =>
    rcases rlw.step_watch opts with hSame | hOpened
    · rw [hSame]
      exact ⟨hMem, hLt⟩
    · rw [hOpened]
      exact ⟨mem_append_left _ hMem, by rw [length_append]; omega⟩
  | relist now =>
    rcases rlw.relist_cases now with hSame | hCancelled
    · rw [ResourcesListWatcher.step, hSame]
      exact ⟨hMem, hLt⟩
    · rw [ResourcesListWatcher.step, hCancelled]
      exact ⟨hMem, (length_cancelAll _).symm ▸ hLt⟩
  | stop watch => exact ⟨hMem, length_set.symm ▸ hLt⟩

theorem Registered.run (hReg : Registered number rlw) (events : List (Event D)) :
    Registered number (rlw.run events) := by
  induction events generalizing rlw with
  | nil => exact hReg
  | cons event events ih => exact ih (hReg.step event)

def Outdated (number : Nat) (rlw : ResourcesListWatcher D) : Prop :=
  Registered number rlw ∧ (rlw.done[number]? = some true ∨ rlw.needRelist = true)

theorem Outdated.step (hOutdated : Outdated number rlw) (event : Event D) : Outdated number (rlw.step event) := by
  obtain ⟨hReg, hState⟩ := hOutdated
  refine ⟨hReg.step event, ?_⟩
  cases event with
  | invalidate now => exact .inr rfl
  | listVersion => exact .inl (done_cancelAll hReg.mem_cancels hReg.lt_length)
  | listData served =>
    rw [ResourcesListWatcher.step, listData_fields]
    exact hState
  | watch opts =>
    rcases rlw.step_watch opts with hSame | hOpened
    · rw [hSame]
      exact hState
    · rw [hOpened]
      exact hState.imp_left fun hDone => by rw [List.getElem?_append_left hReg.lt_length, hDone]
  | relist now =>
    rcases rlw.relist_cases now with hSame | hCancelled
    · rw [ResourcesListWatcher.step, hSame]
      exact hState
    · rw [ResourcesListWatcher.step, hCancelled]
      exact .inl (done_cancelAll hReg.mem_cancels hReg.lt_length)
  | stop watch =>
    refine hState.imp_left fun hDone => ?_
    rw [ResourcesListWatcher.step, ResourcesListWatcher.stop, List.getElem?_set, hDone]
    by_cases hEq : watch = number
    · rw [if_pos hEq, if_pos (hEq ▸ hReg.lt_length)]
    · rw [if_neg hEq]

theorem Outdated.run (hOutdated : Outdated number rlw) (events : List (Event D)) :
    Outdated number (rlw.run events) := by
  induction events generalizing rlw with
  | nil => exact hOutdated
  | cons event events ih => exact ih (hOutdated.step event)

theorem Registered.outdated (hReg : Registered number rlw) {events : List (Event D)}
    (hInvalidated : ∃ event ∈ events, event.invalidates = true) : Outdated number (rlw.run events) := by
  obtain ⟨event, hMem, hInv⟩ := hInvalidated
  obtain ⟨before, after, rfl⟩ := append_of_mem hMem
  cases event with
  | invalidate now =>
    have hRun : rlw.run (before ++ .invalidate now :: after) = ((rlw.run before).invalidate now).run after :=
      foldl_append
    rw [hRun]
    have hBefore := hReg.run before
    have hOutdated : Outdated number ((rlw.run before).invalidate now) :=
      ⟨⟨hBefore.mem_cancels, hBefore.lt_length⟩, .inr rfl⟩
    exact hOutdated.run after
  | listVersion => cases hInv
  | listData served => cases hInv
  | watch opts => cases hInv
  | relist now => cases hInv
  | stop watch => cases hInv

/-- A List among the events returned the version, and the events since its allocation are `since`. -/
def ListedAs (clusterName version : String) (events since : List (Event D)) : Prop :=
  ∃ before, events = before ++ .listVersion :: since ∧ version = ((new clusterName).run before).listVersion.2

/-- A Watch at the version of a List is accepted only if nothing has been allocated since, and as long as it is not
cancelled, nothing has been invalidated since or the resources are going to be listed again. -/
theorem watch_of_list_misses_no_invalidation (clusterName : String) (events since : List (Event D)) (opts : ListOptions)
    (rlw : ResourcesListWatcher D) (number : Nat)
    (hAccepted : ((new clusterName).run events).watch opts = .ok (rlw, number))
    (hListed : ListedAs clusterName opts.resourceVersion events since) :
    (∀ event ∈ since, event.allocates = false) ∧ ∀ later, (rlw.run later).done[number]? = some false →
        (∀ event ∈ since ++ later, event.invalidates = false) ∨ (rlw.run later).needRelist = true := by
  obtain ⟨before, rfl, hVersion⟩ := hListed
  have hCurrent := (watch_ok hAccepted).1
  have hNone : ∀ event ∈ since, event.allocates = false := by
    have hRun : (new clusterName).run (before ++ .listVersion :: since) =
        (((new clusterName).run before).listVersion.1).run since := foldl_append
    rw [hVersion, hRun, run_resourceVersionI] at hCurrent
    have hCount := formatInt_inj.mp hCurrent
    have hZero : since.countP Event.allocates = 0 := by
      have hSelf : ((new clusterName).run before).listVersion.1.resourceVersionI =
          ((new clusterName : ResourcesListWatcher D).run before).resourceVersionI + 1 := rfl
      omega
    exact fun event hMem => Bool.eq_false_iff.mpr (countP_eq_zero.mp hZero event hMem)
  refine ⟨hNone, fun later hOpen => ?_⟩
  by_cases hInvalidated : ∃ event ∈ later, event.invalidates = true
  · obtain ⟨-, hDone | hRelist⟩ := (registered_of_watch hAccepted).outdated hInvalidated
    · exact absurd (hOpen.symm.trans hDone) (by simp)
    · exact .inr hRelist
  · refine .inl fun event hMem => ?_
    rcases mem_append.mp hMem with hSince | hLater
    · exact Event.invalidates_of_not_allocates (hNone event hSince)
    · exact Bool.eq_false_iff.mpr fun hTrue => hInvalidated ⟨event, hLater, hTrue⟩

theorem watch_of_list_misses_no_invalidation_second :
    ((new "c" : ResourcesListWatcher Unit).run [.listVersion, .listData ()]).watch ⟨"2", some 60⟩ =
        .ok (⟨"c", some (), 2, false, 0, [0], [false]⟩, 0) ∧
      ((∀ event ∈ [Event.listData ()], event.allocates = false) ∧
        ∀ later, ((⟨"c", some (), 2, false, 0, [0], [false]⟩ : ResourcesListWatcher Unit).run later).done[0]? =
            some false →
          (∀ event ∈ [Event.listData ()] ++ later, event.invalidates = false) ∨
            ((⟨"c", some (), 2, false, 0, [0], [false]⟩ : ResourcesListWatcher Unit).run later).needRelist = true) :=
  ⟨by rfl, watch_of_list_misses_no_invalidation "c" [.listVersion, .listData ()] [.listData ()] ⟨"2", some 60⟩ _ 0
    (by rfl) ⟨[], rfl, by rfl⟩⟩

/-- The version of the start and that of an Invalidate are accepted too, though no List returned them. -/
theorem watch_accepted_without_list :
    (((new "c" : ResourcesListWatcher Unit).run []).watch ⟨"1", some 60⟩ =
      .ok (⟨"c", none, 1, false, 0, [0], [false]⟩, 0) ∧
      ∀ since, ¬ ListedAs (D := Unit) "c" "1" [] since) ∧
    ((new "c" : ResourcesListWatcher Unit).run [.invalidate 0]).watch ⟨"2", some 60⟩ =
        .ok (⟨"c", none, 2, true, 20, [0], [false]⟩, 0) ∧
      ∀ since, ¬ ListedAs (D := Unit) "c" "2" [.invalidate 0] since := by
  refine ⟨⟨by rfl, ?_⟩, by rfl, ?_⟩
  · rintro since ⟨before, hEvents, -⟩
    cases before with
    | nil => cases hEvents
    | cons event before => cases hEvents
  · rintro since ⟨before, hEvents, -⟩
    cases before with
    | nil => cases hEvents
    | cons event before =>
      cases before with
      | nil => cases hEvents
      | cons event' before => cases hEvents

end ResourcesListWatcher

end KubeStellar.ApiWatch
