import KubeStellar.SpaceManager.Provider
import Mathlib.Logic.Function.Basic

/-! # Whether the spaces of a provider that is ready are being discovered

The record of a provider that is deleted while a managed Space is in its namespace stays, with a watcher that is
stopped, and `StartDiscovery` takes that watcher for a running one when the provider is created again.
-/

namespace KubeStellar.SpaceManager

open List Function

open Run

/-- No call fails, apart from the creation of a namespace that exists and the deletion of one that does not. -/
structure Api.Succeeds (api : Api) : Prop where
  updateDesc : ∀ desc, api.updateDesc desc = none
  getSecret : ∀ ref, ∃ configStrs, api.getSecret ref = .ok configStrs
  createNamespace : ∀ ns, errorUnless .alreadyExists (api.createNamespace ns) = none
  watch : ∀ client, api.watch client = none
  updateSpace : ∀ space, api.updateSpace space = none
  deleteSpace : ∀ ns name, api.deleteSpace ns name = none
  deleteNamespace : ∀ ns, errorUnless .notFound (api.deleteNamespace ns) = none

namespace Controller

/-- The watch was opened after the last `StopDiscovery` for the provider and was not stopped. -/
def Open (c : Controller) (name : String) (watcher : Nat) : Prop :=
  Since (· = .watch name watcher) (fun call => call = .stopDiscovery name ∨ call = .stop watcher) c.calls

def Live (c : Controller) (name : String) : Prop :=
  ∃ p watcher, c.providers.get name = some p ∧ p.providerWatcher = some watcher ∧ c.Open name watcher

end Controller

variable (events : List Event)

def LiveWhenReady : Prop :=
  ∀ before api desc after, events = before ++ .found api desc :: after → ∀ c c' : Controller,
    Controller.start.run before = .ok c → c.handleAdd api desc = (c', none) → c'.Live desc.name

def managedIn (spaces : List Space) (providerName : String) : Bool :=
  spaces.any fun space => space.ns = providerNS providerName && space.spaceType = .managed

inductive Status where
  | absent
  | live (client : SpaceProviderType)
  | stranded (client : SpaceProviderType)
deriving DecidableEq

/-- `none` for a panic. -/
def Status.next (status : Status) : Event → Option Status
  | .found api desc =>
    match status, clientFor api desc with
    | .absent, .ok client => some (.live client)
    | status, _ => some status
  | .gone _ spaces name =>
    match status with
    | .absent => some .absent
    | .live client => some (if managedIn spaces name then .stranded client else .absent)
    | .stranded client =>
      if Controller.closesAgain client then none
      else some (if managedIn spaces name then .stranded client else .absent)

def Event.provider : Event → String
  | found _ desc => desc.name
  | gone _ _ name => name

abbrev World := Option (String → Status)

namespace World

def start : World := some fun _ => .absent

def step (world : World) (event : Event) : World :=
  world.bind fun statuses =>
    ((statuses event.provider).next event).map (Function.update statuses event.provider)

def Stranded (world : World) (name : String) : Prop :=
  ∃ statuses client, world = some statuses ∧ statuses name = .stranded client

end World

/-- No provider is found again after it was deleted while a managed Space was in its namespace, unless it has in between
been deleted while none was. -/
def NoneRevived : Prop :=
  ∀ before api desc after, events = before ++ .found api desc :: after →
    ¬ (Run.run World.step World.start before).Stranded desc.name

variable {c c' : Controller} {api : Api} {desc : SpaceProviderDesc} {p : Provider} {watcher : Nat}
  {client : SpaceProviderType} {name : String}

def Call.quiet : Call → Bool
  | .watch _ _ => false
  | .stopDiscovery _ => false
  | .stop _ => false
  | _ => true

def Controller.callAll (c : Controller) (calls : List Call) : Controller := { c with calls := c.calls ++ calls }

def Controller.opened (c : Controller) (p : Provider) : Controller where
  providers := (c.providers.put p.name p).put p.name { p with providerWatcher := some c.watches }
  watches := c.watches + 1
  calls := c.calls ++ [.watch p.name c.watches]

def Controller.stopped (c : Controller) (name : String) (watcher : Nat) : Controller :=
  (c.call (.stopDiscovery name)).call (.stop watcher)

def Controller.forget (c : Controller) (name : String) : Controller := { c with providers := c.providers.delete name }

open Controller

theorem handleAdd_of_some (hApi : api.Succeeds) (hGet : c.providers.get desc.name = some p)
    (hWatcher : p.providerWatcher = some watcher) :
    ∃ calls, c.handleAdd api desc = (c.callAll calls, none) ∧ ∀ call ∈ calls, call.quiet = true := by
  by_cases hKnown : desc.phase = .ready ∧ c.providers.has desc.name = true
  · refine ⟨[], ?_, by simp⟩
    rw [handleAdd, if_pos hKnown, callAll, append_nil]
  · refine ⟨[.updateDesc { desc with phase := .initializing }, .createNamespace (providerNS desc.name),
      .updateDesc { desc with phase := .ready }], ?_, by simp [Call.quiet]⟩
    rw [handleAdd, if_neg hKnown]
    simp only [setProviderStatus, hApi.updateDesc, createProvider, call, hGet,
      hApi.createNamespace, startDiscovery, hWatcher, callAll, append_assoc, cons_append,
      nil_append]

theorem not_known (hGet : c.providers.get desc.name = none) :
    ¬ (desc.phase = .ready ∧ c.providers.has desc.name = true) := by
  rw [GoMap.has, hGet]
  exact fun hKnown => Bool.noConfusion hKnown.2

variable (hApi : api.Succeeds)

include hApi

theorem handleAdd_of_error {err : String} (hGet : c.providers.get desc.name = none)
    (hClient : clientFor api desc = .error err) :
    c.handleAdd api desc = (c.callAll [.updateDesc { desc with phase := .initializing }], some err) := by
  have hClient' : clientFor api { desc with phase := .initializing } = .error err := hClient
  rw [handleAdd, if_neg (not_known hGet)]
  simp only [setProviderStatus, hApi.updateDesc, createProvider, call, hGet, hClient',
    callAll]

theorem handleAdd_of_ok (hGet : c.providers.get desc.name = none) (hClient : clientFor api desc = .ok client) :
    ∃ p : Provider, p.name = desc.name ∧ p.providerClient = client ∧ c.handleAdd api desc =
      ((((c.callAll [.updateDesc { desc with phase := .initializing }, .createNamespace (providerNS desc.name)]).opened
        p).callAll [.updateDesc { desc with phase := .ready }]), none) := by
  have hClient' : clientFor api { desc with phase := .initializing } = .ok client := hClient
  refine ⟨⟨desc.name, client, none, providerNS desc.name,
    if desc.spacePrefixForDiscovery = "" then "*" else desc.spacePrefixForDiscovery⟩, rfl, rfl, ?_⟩
  rw [handleAdd, if_neg (not_known hGet)]
  simp only [setProviderStatus, hApi.updateDesc, createProvider, call, hGet, hClient',
    hApi.createNamespace, startDiscovery, hApi.watch, callAll, opened,
    append_assoc, cons_append, nil_append]

theorem clearSpaces_eq (name : String) (spaces : List Space) (c : Controller) :
    ∃ calls, clearSpaces api (providerNS name) c spaces = (c.callAll calls, !managedIn spaces name) ∧
      ∀ call ∈ calls, call.quiet = true := by
  induction spaces generalizing c with
  | nil => exact ⟨[], by rw [callAll, append_nil]; rfl, by simp⟩
  | cons space spaces ih =>
    rw [managedIn, any_cons, ← managedIn]
    by_cases hNs : space.ns = providerNS name
    · by_cases hType : space.spaceType = .managed
      · obtain ⟨calls, hEq, hQuiet⟩ := ih (c.call (.updateSpace { space with phase := .notReady }))
        refine ⟨.updateSpace { space with phase := .notReady } :: calls, ?_, by simpa [Call.quiet] using hQuiet⟩
        rw [clearSpaces, if_pos hNs, if_pos hType, hEq]
        simp [hNs, hType, callAll, call]
      · obtain ⟨calls, hEq, hQuiet⟩ := ih (c.call (.deleteSpace (providerNS name) space.name))
        refine ⟨.deleteSpace (providerNS name) space.name :: calls, ?_, by simpa [Call.quiet] using hQuiet⟩
        rw [clearSpaces, if_pos hNs, if_neg hType, hEq, hApi.deleteSpace]
        simp [hType, callAll, call]
    · obtain ⟨calls, hEq, hQuiet⟩ := ih c
      refine ⟨calls, ?_, hQuiet⟩
      rw [clearSpaces, if_neg hNs, hEq]
      simp [hNs]

theorem handleDelete_of_stopped (spaces : List Space) (hStopped : c.stopProvider name = .ok c') :
    ∃ calls, (∀ call ∈ calls, call.quiet = true) ∧ c.handleDelete api spaces name =
      .ok (if managedIn spaces name then c'.callAll calls else (c'.forget name).callAll calls, none) := by
  obtain ⟨calls, hEq, hQuiet⟩ := clearSpaces_eq hApi name spaces c'
  cases hManaged : managedIn spaces name with
  | true =>
    refine ⟨calls, hQuiet, ?_⟩
    rw [hManaged] at hEq
    simp [handleDelete, hStopped, hEq]
  | false =>
    refine ⟨calls ++ [.deleteNamespace (providerNS name)], ?_, ?_⟩
    · intro call hMem
      rcases mem_append.mp hMem with hOld | hLast
      · exact hQuiet call hOld
      · rw [mem_singleton.mp hLast]
        rfl
    · rw [hManaged] at hEq
      simp only [handleDelete, hStopped, hEq, Bool.not_false]
      simp [hApi.deleteNamespace, callAll, call, forget]

omit hApi

variable {statuses : String → Status} {status : Status} {calls : List Call}

structure Controller.Has (c : Controller) (name : String) (client : SpaceProviderType) (watcher : Nat)
    (p : Provider) : Prop where
  get : c.providers.get name = some p
  name : p.name = name
  client : p.providerClient = client
  watcher : p.providerWatcher = some watcher

def Status.Describes (c : Controller) (name : String) : Status → Prop
  | .absent => c.providers.get name = none
  | .live client => ∃ watcher p, c.Has name client watcher p ∧ c.Open name watcher ∧ .stop watcher ∉ c.calls
  | .stranded client => ∃ watcher p, c.Has name client watcher p ∧ ¬ c.Open name watcher ∧ .stop watcher ∈ c.calls

/-- The watch of each record is one that was opened, and no other record has it. -/
structure Tracks (statuses : String → Status) (c : Controller) : Prop where
  describes : ∀ name, (statuses name).Describes c name
  opened : ∀ name p watcher, c.providers.get name = some p → p.providerWatcher = some watcher → watcher < c.watches
  distinct : ∀ name name' p p' watcher, c.providers.get name = some p → p.providerWatcher = some watcher →
    c.providers.get name' = some p' → p'.providerWatcher = some watcher → name = name'
  stopped : ∀ watcher, .stop watcher ∈ c.calls → watcher < c.watches

theorem tracks_start : Tracks (fun _ => .absent) .start where
  describes _ := rfl
  opened _ _ _ hGet := by cases hGet
  distinct _ _ _ _ _ hGet := by cases hGet
  stopped _ hMem := by cases hMem

theorem Status.Describes.mono (hDesc : status.Describes c name)
    (hGet : c'.providers.get name = c.providers.get name) (hCalls : c'.calls = c.calls ++ calls)
    (hSpared : ∀ call ∈ calls, ∀ watcher p, c.providers.get name = some p → p.providerWatcher = some watcher →
      call ≠ .watch name watcher ∧ call ≠ .stopDiscovery name ∧ call ≠ .stop watcher) :
    status.Describes c' name := by
  have hHas : ∀ {client watcher p}, c.Has name client watcher p → c'.Has name client watcher p :=
    fun hHas => ⟨hGet.trans hHas.get, hHas.name, hHas.client, hHas.watcher⟩
  have hOpen : ∀ {client watcher p}, c.Has name client watcher p → (c'.Open name watcher ↔ c.Open name watcher) := by
    intro client watcher p hHas
    rw [Controller.Open, hCalls]
    refine since_append_of_forall_not fun call hMem => ?_
    have hNe := hSpared call hMem watcher p hHas.get hHas.watcher
    exact ⟨hNe.1, fun hStops => hStops.elim hNe.2.1 hNe.2.2⟩
  have hStop : ∀ {client watcher p}, c.Has name client watcher p →
      (Call.stop watcher ∈ c'.calls ↔ Call.stop watcher ∈ c.calls) := by
    intro client watcher p hHas
    rw [hCalls, mem_append, or_iff_left]
    exact fun hMem => (hSpared _ hMem watcher p hHas.get hHas.watcher).2.2 rfl
  cases status with
  | absent => exact hGet.trans hDesc
  | live client =>
    obtain ⟨watcher, p, hOld, hOpened, hRuns⟩ := hDesc
    exact ⟨watcher, p, hHas hOld, (hOpen hOld).mpr hOpened, fun hMem => hRuns ((hStop hOld).mp hMem)⟩
  | stranded client =>
    obtain ⟨watcher, p, hOld, hClosed, hStopped⟩ := hDesc
    exact ⟨watcher, p, hHas hOld, fun hOpened => hClosed ((hOpen hOld).mp hOpened), (hStop hOld).mpr hStopped⟩

variable (hTracks : Tracks statuses c)

include hTracks

theorem Tracks.callAll (hQuiet : ∀ call ∈ calls, call.quiet = true) : Tracks statuses (c.callAll calls) where
  describes name := by
    refine (hTracks.describes name).mono rfl rfl fun call hMem watcher p _ _ => ⟨?_, ?_, ?_⟩ <;>
    · rintro rfl
      exact Bool.noConfusion (hQuiet _ hMem)
  opened := hTracks.opened
  distinct := hTracks.distinct
  stopped watcher hMem := by
    rcases mem_append.mp hMem with hOld | hNew
    · exact hTracks.stopped watcher hOld
    · exact Bool.noConfusion (hQuiet _ hNew)

theorem Tracks.open_watch (p : Provider) :
    Tracks (Function.update statuses p.name (.live p.providerClient)) (c.opened p) := by
  have hGet : ∀ name, (c.opened p).providers.get name =
      if name = p.name then some { p with providerWatcher := some c.watches } else c.providers.get name := by
    intro name
    rw [Controller.opened, GoMap.get_put, GoMap.get_put]
    split <;> rfl
  have hWatch : ∀ name p' watcher, (c.opened p).providers.get name = some p' → p'.providerWatcher = some watcher →
      name = p.name ∧ watcher = c.watches ∨ name ≠ p.name ∧ c.providers.get name = some p' ∧ watcher < c.watches := by
    intro name p' watcher hGet' hWatcher
    rw [hGet] at hGet'
    split at hGet'
    · next hName =>
      cases hGet'
      exact .inl ⟨hName, (Option.some.inj hWatcher).symm⟩
    · next hName => exact .inr ⟨hName, hGet', hTracks.opened name p' watcher hGet' hWatcher⟩
  refine ⟨fun name => ?_, fun name p' watcher hGet' hWatcher => ?_, ?_, fun watcher hMem => ?_⟩
  · by_cases hName : name = p.name
    · subst hName
      rw [update_self]
      refine ⟨c.watches, _, ⟨(hGet _).trans (if_pos rfl), rfl, rfl, rfl⟩, ?_, fun hMem => ?_⟩
      · exact (since_append_singleton _ _).mpr (.inl rfl)
      · rcases mem_append.mp hMem with hOld | hNew
        · exact absurd (hTracks.stopped _ hOld) (Nat.lt_irrefl _)
        · exact Call.noConfusion (mem_singleton.mp hNew)
    · rw [update_of_ne hName]
      refine (hTracks.describes name).mono ((hGet name).trans (if_neg hName)) rfl fun call hMem watcher p' _ _ => ?_
      cases mem_singleton.mp hMem
      exact ⟨fun hEq => hName (Call.watch.inj hEq).1.symm, Call.noConfusion, Call.noConfusion⟩
  · rcases hWatch name p' watcher hGet' hWatcher with ⟨-, rfl⟩ | ⟨-, -, hLt⟩
    · exact Nat.lt_succ_self _
    · exact Nat.lt_succ_of_lt hLt
  · intro name name' p' p'' watcher hGet' hWatcher hGet'' hWatcher'
    rcases hWatch name p' watcher hGet' hWatcher with ⟨rfl, rfl⟩ | ⟨-, hOld, hLt⟩ <;>
    rcases hWatch name' p'' _ hGet'' hWatcher' with ⟨rfl, hEq⟩ | ⟨-, hOld', hLt'⟩
    · rfl
    · exact absurd hLt' (Nat.lt_irrefl _)
    · exact absurd hEq (Nat.ne_of_lt hLt)
    · exact hTracks.distinct name name' p' p'' watcher hOld hWatcher hOld' hWatcher'
  · rcases mem_append.mp hMem with hOld | hNew
    · exact Nat.lt_succ_of_lt (hTracks.stopped watcher hOld)
    · exact Call.noConfusion (mem_singleton.mp hNew)

theorem Tracks.stop_watch (hHas : c.Has name client watcher p) :
    Tracks (Function.update statuses name (.stranded client)) (c.stopped name watcher) := by
  have hCalls : (c.stopped name watcher).calls = c.calls ++ [.stopDiscovery name, .stop watcher] := by
    simp [Controller.stopped, call]
  refine ⟨fun name' => ?_, hTracks.opened, hTracks.distinct, fun watcher' hMem => ?_⟩
  · by_cases hName : name' = name
    · subst hName
      rw [update_self]
      refine ⟨watcher, p, ⟨hHas.get, hHas.name, hHas.client, hHas.watcher⟩, fun hOpen => ?_, by simp [hCalls]⟩
      rcases (since_append_singleton _ _).mp hOpen with hEq | hNot
      · exact Call.noConfusion hEq
      · exact hNot.1 (.inr rfl)
    · rw [update_of_ne hName]
      refine (hTracks.describes name').mono rfl hCalls fun call hMem watcher' p' hGet hWatcher => ?_
      rcases mem_cons.mp hMem with rfl | hMem
      · exact ⟨Call.noConfusion, fun hEq => hName (Call.stopDiscovery.inj hEq).symm, Call.noConfusion⟩
      · cases mem_singleton.mp hMem
        refine ⟨Call.noConfusion, Call.noConfusion, fun hEq => hName ?_⟩
        cases Call.stop.inj hEq
        exact hTracks.distinct name' name p' p watcher hGet hWatcher hHas.get hHas.watcher
  · rw [hCalls] at hMem
    rcases mem_append.mp hMem with hOld | hNew
    · exact hTracks.stopped watcher' hOld
    · have hEq : watcher' = watcher := by simpa using hNew
      exact hEq ▸ hTracks.opened name p watcher hHas.get hHas.watcher

theorem Tracks.forget (name : String) : Tracks (Function.update statuses name .absent) (c.forget name) := by
  have hGet : ∀ name', (c.forget name).providers.get name' = if name' = name then none else c.providers.get name' :=
    fun name' => GoMap.get_delete _ _ _
  have hOld : ∀ name' p, (c.forget name).providers.get name' = some p → c.providers.get name' = some p := by
    intro name' p hGet'
    rw [hGet] at hGet'
    split at hGet'
    · cases hGet'
    · exact hGet'
  refine ⟨fun name' => ?_, fun name' p watcher hGet' => hTracks.opened name' p watcher (hOld name' p hGet'),
    fun name' name'' p p' watcher hGet' hWatcher hGet'' => ?_, hTracks.stopped⟩
  · by_cases hName : name' = name
    · subst hName
      rw [update_self]
      exact (hGet name').trans (if_pos rfl)
    · rw [update_of_ne hName]
      exact (hTracks.describes name').mono ((hGet name').trans (if_neg hName)) (append_nil _).symm
        fun call hMem => by cases hMem
  · exact hTracks.distinct name' name'' p p' watcher (hOld name' p hGet') hWatcher (hOld name'' p' hGet'')

theorem Tracks.live_iff (name : String) : c.Live name ↔ ∃ client, statuses name = .live client := by
  have hDesc := hTracks.describes name
  cases hStatus : statuses name with
  | absent =>
    rw [hStatus] at hDesc
    have hNone : c.providers.get name = none := hDesc
    constructor
    · rintro ⟨p, watcher, hGet, -⟩
      rw [hNone] at hGet
      cases hGet
    · rintro ⟨client, hEq⟩
      cases hEq
  | live client =>
    rw [hStatus] at hDesc
    obtain ⟨watcher, p, hHas, hOpen, -⟩ := hDesc
    exact ⟨fun _ => ⟨client, rfl⟩, fun _ => ⟨p, watcher, hHas.get, hHas.watcher, hOpen⟩⟩
  | stranded client =>
    rw [hStatus] at hDesc
    obtain ⟨watcher, p, hHas, hClosed, -⟩ := hDesc
    constructor
    · rintro ⟨p', watcher', hGet, hWatcher, hOpen⟩
      cases hHas.get.symm.trans hGet
      cases hHas.watcher.symm.trans hWatcher
      exact absurd hOpen hClosed
    · rintro ⟨client, hEq⟩
      cases hEq

omit hTracks

theorem next_found_eq_stranded_iff :
    status.next (.found api desc) = some (.stranded client) ↔ status = .stranded client := by
  cases status <;> cases hClient : clientFor api desc <;> simp [Status.next, hClient]

theorem Tracks.handleAdd (hTracks : Tracks statuses c) (hApi : api.Succeeds) (desc : SpaceProviderDesc) :
    ∃ c' err status, c.handleAdd api desc = (c', err) ∧ (statuses desc.name).next (.found api desc) = some status ∧
      Tracks (Function.update statuses desc.name status) c' ∧ (err = none ↔ status ≠ .absent) := by
  have hDesc := hTracks.describes desc.name
  -- a record has a watcher, whether it is live or not, and nothing is done about it
  have hKept : ∀ {client watcher p}, c.Has desc.name client watcher p → statuses desc.name ≠ .absent →
      ∃ c' err status, c.handleAdd api desc = (c', err) ∧ (statuses desc.name).next (.found api desc) = some status ∧
        Tracks (Function.update statuses desc.name status) c' ∧ (err = none ↔ status ≠ .absent) := by
    intro client watcher p hHas hStatus
    obtain ⟨calls, hEq, hQuiet⟩ := handleAdd_of_some hApi hHas.get hHas.watcher
    refine ⟨_, _, statuses desc.name, hEq, ?_, ?_, iff_of_true rfl hStatus⟩
    · cases hCase : statuses desc.name with
      | absent => exact absurd hCase hStatus
      | live client => rfl
      | stranded client => rfl
    · rw [update_eq_self]
      exact hTracks.callAll hQuiet
  cases hStatus : statuses desc.name with
  | live client =>
    rw [hStatus] at hDesc
    obtain ⟨watcher, p, hHas, -⟩ := hDesc
    exact hStatus ▸ hKept hHas (hStatus ▸ Status.noConfusion)
  | stranded client =>
    rw [hStatus] at hDesc
    obtain ⟨watcher, p, hHas, -⟩ := hDesc
    exact hStatus ▸ hKept hHas (hStatus ▸ Status.noConfusion)
  | absent =>
    rw [hStatus] at hDesc
    have hGet : c.providers.get desc.name = none := hDesc
    cases hClient : clientFor api desc with
    | error err =>
      refine ⟨_, _, .absent, handleAdd_of_error hApi hGet hClient, ?_, ?_, by simp⟩
      · simp only [Status.next, hClient]
      · rw [← hStatus, update_eq_self]
        exact hTracks.callAll (by simp [Call.quiet])
    | ok client =>
      obtain ⟨p, hName, hClientEq, hEq⟩ := handleAdd_of_ok hApi hGet hClient
      refine ⟨_, _, .live client, hEq, ?_, ?_, by simp⟩
      · simp only [Status.next, hClient]
      · have hQuiet : Tracks statuses (c.callAll [.updateDesc { desc with phase := .initializing },
            .createNamespace (providerNS desc.name)]) := hTracks.callAll (by simp [Call.quiet])
        have hOpened := hQuiet.open_watch p
        rw [hName, hClientEq] at hOpened
        exact hOpened.callAll (by simp [Call.quiet])

theorem stopProvider_of_has (hHas : c.Has name client watcher p) : c.stopProvider name =
      if .stop watcher ∈ c.calls ∧ closesAgain client = true then .error .closeOfClosedChannel
      else .ok (c.stopped name watcher) := by
  rw [stopProvider, hHas.get]
  simp only [stopDiscovery, hHas.watcher, hHas.client, hHas.name]
  split <;> rfl

theorem Tracks.handleDelete_of_stopped (hApi : api.Succeeds) (spaces : List Space)
    (hStopped : c.stopProvider name = .ok c') (hTracks : Tracks (Function.update statuses name status) c') :
    ∃ c', c.handleDelete api spaces name = .ok (c', none) ∧
      Tracks (Function.update statuses name (if managedIn spaces name then status else .absent)) c' := by
  obtain ⟨calls, hQuiet, hEq⟩ := SpaceManager.handleDelete_of_stopped hApi spaces hStopped
  refine ⟨_, hEq, ?_⟩
  cases managedIn spaces name with
  | true => exact hTracks.callAll hQuiet
  | false =>
    have hForgotten := (hTracks.forget name).callAll hQuiet
    rw [update_idem] at hForgotten
    exact hForgotten

theorem Tracks.handleDelete (hTracks : Tracks statuses c) (hApi : api.Succeeds) (spaces : List Space) (name : String) :
    ((statuses name).next (.gone api spaces name) = none ∧
      c.handleDelete api spaces name = .error .closeOfClosedChannel) ∨
    ∃ c' status, (statuses name).next (.gone api spaces name) = some status ∧
      c.handleDelete api spaces name = .ok (c', none) ∧ Tracks (Function.update statuses name status) c' := by
  have hDesc := hTracks.describes name
  cases hStatus : statuses name with
  | absent =>
    rw [hStatus] at hDesc
    have hGet : c.providers.get name = none := hDesc
    have hStopped : c.stopProvider name = .ok c := by rw [stopProvider, hGet]
    have hSame : Tracks (Function.update statuses name .absent) c := by
      rw [← hStatus, update_eq_self]
      exact hTracks
    obtain ⟨c', hEq, hAfter⟩ := hSame.handleDelete_of_stopped hApi spaces hStopped
    rw [ite_self] at hAfter
    exact .inr ⟨c', _, rfl, hEq, hAfter⟩
  | live client =>
    rw [hStatus] at hDesc
    obtain ⟨watcher, p, hHas, -, hRuns⟩ := hDesc
    have hStopped := (stopProvider_of_has hHas).trans (if_neg fun hAgain => hRuns hAgain.1)
    obtain ⟨c', hEq, hAfter⟩ := (hTracks.stop_watch hHas).handleDelete_of_stopped hApi spaces hStopped
    exact .inr ⟨c', _, rfl, hEq, hAfter⟩
  | stranded client =>
    rw [hStatus] at hDesc
    obtain ⟨watcher, p, hHas, -, hStop⟩ := hDesc
    have hStopped := stopProvider_of_has hHas
    by_cases hAgain : closesAgain client = true
    · rw [if_pos ⟨hStop, hAgain⟩] at hStopped
      exact .inl ⟨if_pos hAgain, by simp only [Controller.handleDelete, hStopped]⟩
    · rw [if_neg fun hBoth => hAgain hBoth.2] at hStopped
      obtain ⟨c', hEq, hAfter⟩ := (hTracks.stop_watch hHas).handleDelete_of_stopped hApi spaces hStopped
      exact .inr ⟨c', _, if_neg hAgain, hEq, hAfter⟩

theorem Tracks.reconcile (hTracks : Tracks statuses c) {event : Event} (hApi : event.api.Succeeds) :
    (World.step (some statuses) event = none ∧ c.reconcileSpaceProviderDesc event = .error .closeOfClosedChannel) ∨
    ∃ statuses' c' err, World.step (some statuses) event = some statuses' ∧
      c.reconcileSpaceProviderDesc event = .ok (c', err) ∧ Tracks statuses' c' := by
  cases event with
  | found api desc =>
    obtain ⟨c', err, status, hEq, hNext, hAfter, -⟩ := hTracks.handleAdd hApi desc
    exact .inr ⟨_, c', err, congrArg (Option.map _) hNext, congrArg Except.ok hEq, hAfter⟩
  | gone api spaces name =>
    rcases hTracks.handleDelete hApi spaces name with ⟨hNext, hEq⟩ | ⟨c', status, hNext, hEq, hAfter⟩
    · exact .inl ⟨congrArg (Option.map _) hNext, hEq⟩
    · exact .inr ⟨_, c', none, congrArg (Option.map _) hNext, hEq, hAfter⟩

theorem run_step_none : Run.run World.step none events = none := by
  induction events with
  | nil => rfl
  | cons event events ih => exact ih

theorem Tracks.run (hTracks : Tracks statuses c) {events : List Event} (hApi : ∀ event ∈ events, event.api.Succeeds) :
    (Run.run World.step (some statuses) events = none ∧ c.run events = .error .closeOfClosedChannel) ∨
    ∃ statuses' c', Run.run World.step (some statuses) events = some statuses' ∧ c.run events = .ok c' ∧
      Tracks statuses' c' := by
  induction events generalizing statuses c with
  | nil => exact .inr ⟨statuses, c, rfl, rfl, hTracks⟩
  | cons event events ih =>
    rw [Run.run, foldl_cons, Controller.run]
    rcases hTracks.reconcile (hApi event mem_cons_self) with ⟨hWorld, hEq⟩ | ⟨statuses', c', err, hWorld, hEq, hAfter⟩
    · rw [hWorld, hEq]
      exact .inl ⟨run_step_none events, rfl⟩
    · rw [hWorld, hEq]
      exact ih hAfter fun event' hMem => hApi event' (mem_cons_of_mem _ hMem)

theorem found_live_iff {before : List Event} (hBefore : ∀ event ∈ before, event.api.Succeeds) (hApi : api.Succeeds)
    (desc : SpaceProviderDesc) :
    (∀ c c' : Controller, Controller.start.run before = .ok c → c.handleAdd api desc = (c', none) → c'.Live desc.name) ↔
      ¬ (Run.run World.step World.start before).Stranded desc.name := by
  rcases tracks_start.run hBefore with ⟨hWorld, hRun⟩ | ⟨statuses, c, hWorld, hRun, hTracks⟩
  · rw [World.start, hWorld, hRun]
    refine iff_of_true (fun c c' hEq => by cases hEq) ?_
    rintro ⟨statuses, client, hEq, -⟩
    cases hEq
  · rw [World.start, hWorld, hRun]
    obtain ⟨c', err, status, hEq, hNext, hAfter, hErr⟩ := hTracks.handleAdd hApi desc
    have hLive := hAfter.live_iff desc.name
    rw [update_self] at hLive
    constructor
    · rintro hAlways ⟨statuses', client, hSome, hStranded⟩
      cases hSome
      rw [next_found_eq_stranded_iff.mpr hStranded] at hNext
      cases hNext
      rw [hErr.mpr Status.noConfusion] at hEq
      obtain ⟨client', hEq'⟩ := hLive.mp (hAlways c c' rfl hEq)
      cases hEq'
    · intro hNot c₁ c₂ hRun₁ hEq₂
      cases hRun₁
      cases hEq.symm.trans hEq₂
      refine hLive.mpr ?_
      cases status with
      | absent => exact absurd rfl (hErr.mp rfl)
      | live client => exact ⟨client, rfl⟩
      | stranded client => exact absurd ⟨statuses, client, rfl, next_found_eq_stranded_iff.mp hNext⟩ hNot

/-- A provider for which `handleAdd` returns without error is being watched, unless its record was left behind with a
stopped watcher. -/
theorem liveWhenReady_iff (events : List Event) (hApi : ∀ event ∈ events, event.api.Succeeds) :
    LiveWhenReady events ↔ NoneRevived events := by
  refine forall₄_congr fun before api desc after => forall_congr' fun hEvents => ?_
  subst hEvents
  refine found_live_iff (fun event hMem => hApi event (mem_append_left _ hMem)) ?_ desc
  exact hApi (.found api desc) (mem_append_right _ mem_cons_self)

def calm : Api where
  updateDesc _ := none
  getSecret _ := .ok ∅
  newClient _ _ := true
  createNamespace _ := none
  watch _ := none
  updateSpace _ := none
  deleteSpace _ _ := none
  deleteNamespace _ := none

theorem calm_succeeds : calm.Succeeds :=
  ⟨fun _ => rfl, fun _ => ⟨∅, rfl⟩, fun _ => rfl, fun _ => rfl, fun _ => rfl, fun _ _ => rfl, fun _ => rfl⟩

def flexDesc : SpaceProviderDesc := ⟨"flex", .kubeflex, some ⟨"hub", "default"⟩, "", .initializing⟩

/-- A provider that is created, deleted while there is a space of its own, and created again. -/
def again (spaceType : SpaceType) : List Event :=
  [.found calm flexDesc, .gone calm [⟨"spaceprovider-flex", "s1", spaceType, .ready⟩] "flex", .found calm flexDesc]

theorem again_succeeds (spaceType : SpaceType) : ∀ event ∈ again spaceType, event.api.Succeeds := by
  simp [again, Event.api, calm_succeeds]

theorem liveWhenReady_again_unmanaged : (∀ event ∈ again .unmanaged, event.api.Succeeds) ∧
    LiveWhenReady (again .unmanaged) := by
  refine ⟨again_succeeds _, (liveWhenReady_iff _ (again_succeeds _)).mpr ?_⟩
  rintro before api desc after hEq ⟨statuses, client, hRun, hStranded⟩
  rcases before with _ | ⟨first, _ | ⟨second, _ | ⟨third, before⟩⟩⟩
  · cases hRun
    cases hStranded
  · cases hEq
  · cases hEq
    cases hRun
    cases hStranded
  · cases before <;> cases hEq

/-- With a managed Space, `handleAdd` returns without error and there is no watch. -/
theorem not_liveWhenReady_again_managed : ¬ LiveWhenReady (again .managed) := by
  intro hLive
  have hBefore : ∀ event ∈ (again .managed).take 2, event.api.Succeeds :=
    fun event hMem => again_succeeds _ event (mem_of_mem_take hMem)
  exact (found_live_iff hBefore calm_succeeds flexDesc).mp (hLive _ calm flexDesc [] rfl) ⟨_, .kubeflex, rfl, rfl⟩

end KubeStellar.SpaceManager
