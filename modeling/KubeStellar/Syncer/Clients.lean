import KubeStellar.Library.Run
import KubeStellar.Syncer.SyncConfigManager

/-! # Setting up the clients

`initializeClients` and `getClients` of `pkg/syncer/syncers/common.go`, with the conversions of resources. Clients are
kept from one call to the next; the first one that cannot be built ends the call.
-/

namespace KubeStellar.Syncer

open List

structure Naturing where
  isDenaturingEnabled : Bool
  conversions : List EdgeSynConversion

namespace Naturing

variable (naturing : Naturing)

def convert (source target : EdgeSynConversion → EdgeSyncConfigResource) (resource : EdgeSyncConfigResource) :
    EdgeSyncConfigResource :=
  if !naturing.isDenaturingEnabled then resource
  else
    match naturing.conversions.find? fun conversion => (source conversion).group = resource.group &&
        (source conversion).kind = resource.kind && (source conversion).name = resource.name with
    | some conversion =>
      { resource with
        group := (target conversion).group
        kind := (target conversion).kind
        name := (target conversion).name }
    | none => resource

variable (resource : EdgeSyncConfigResource)

def convertToUpstream : EdgeSyncConfigResource :=
  naturing.convert EdgeSynConversion.downstream EdgeSynConversion.upstream resource

def convertToDownstream : EdgeSyncConfigResource :=
  naturing.convert EdgeSynConversion.upstream EdgeSynConversion.downstream resource

def gkForUp : GroupKind := (naturing.convertToUpstream resource).groupKind

def gkForDown : GroupKind := (naturing.convertToDownstream resource).groupKind

def getClients (clients : Clients) (resource : EdgeSyncConfigResource) : Option (Client × Client) :=
  clients.pair (naturing.gkForUp resource) (naturing.gkForDown resource)

end Naturing

/-- `GetResourceClient` of a factory, none if it fails. -/
abbrev ClientFactory := GroupKind → Option Client

structure ClientFactories where
  upstream : ClientFactory
  downstream : ClientFactory

variable (factory : ClientFactory) (clients : GoMap GroupKind Client) (gk : GroupKind)

def setUp : Option (GoMap GroupKind Client) :=
  if clients.has gk then some clients else (factory gk).map fun client => clients.put gk client

def Unavailable : Prop := clients.has gk = false ∧ factory gk = none

theorem setUp_eq_none_iff : setUp factory clients gk = none ↔ Unavailable factory clients gk := by
  rw [setUp, Unavailable]
  split
  · rename_i hHas
    exact iff_of_false (Option.some_ne_none _) fun h => Bool.noConfusion (hHas.symm.trans h.1)
  · rename_i hHas
    rw [Option.map_eq_none_iff]
    exact (and_iff_right (Bool.eq_false_iff.mpr hHas)).symm

variable {factory clients gk}

theorem has_setUp {clients' : GoMap GroupKind Client} (hSetUp : setUp factory clients gk = some clients')
    (gk' : GroupKind) : clients'.has gk' = true ↔ clients.has gk' = true ∨ gk' = gk := by
  rw [setUp] at hSetUp
  split at hSetUp
  · rename_i hHas
    cases hSetUp
    refine ⟨.inl, fun h => h.elim id ?_⟩
    rintro rfl
    exact hHas
  · obtain ⟨client, -, rfl⟩ := Option.map_eq_some_iff.mp hSetUp
    rw [GoMap.has, GoMap.get_put]
    split
    · rename_i hKey
      exact iff_of_true rfl (.inr hKey)
    · rename_i hKey
      exact (or_iff_left hKey).symm

variable (naturing : Naturing) (factories : ClientFactories)

def initializeClients : Clients → List EdgeSyncConfigResource → Clients × Option (Side × GroupKind)
  | clients, [] => (clients, none)
  | clients, syncResource :: syncResources =>
    match setUp factories.upstream clients.upstream (naturing.gkForUp syncResource) with
    | none => (clients, some (.upstream, naturing.gkForUp syncResource))
    | some upstream =>
      match setUp factories.downstream clients.downstream (naturing.gkForDown syncResource) with
      | none => ({ clients with upstream }, some (.downstream, naturing.gkForDown syncResource))
      | some downstream => initializeClients ⟨upstream, downstream⟩ syncResources

variable (clients : Clients) (resource : EdgeSyncConfigResource)

def Blocked : Prop :=
  Unavailable factories.upstream clients.upstream (naturing.gkForUp resource) ∨
    Unavailable factories.downstream clients.downstream (naturing.gkForDown resource)

def Buildable : Prop :=
  factories.upstream (naturing.gkForUp resource) ≠ none ∧ factories.downstream (naturing.gkForDown resource) ≠ none

structure Extends (clients' : Clients) (resources : List EdgeSyncConfigResource) : Prop where
  upstream : ∀ gk, clients'.upstream.has gk = true ↔
    clients.upstream.has gk = true ∨ ∃ resource ∈ resources, gk = naturing.gkForUp resource
  downstream : ∀ gk, clients'.downstream.has gk = true ↔
    clients.downstream.has gk = true ∨ ∃ resource ∈ resources, gk = naturing.gkForDown resource

variable {naturing factories clients}
variable {resource : EdgeSyncConfigResource} {syncResources before after before' : List EdgeSyncConfigResource}
  {clients' : Clients}

theorem getClients_ne_none_iff : naturing.getClients clients resource ≠ none ↔
    clients.upstream.has (naturing.gkForUp resource) = true ∧
      clients.downstream.has (naturing.gkForDown resource) = true := by
  rw [Naturing.getClients, Clients.pair, GoMap.has, GoMap.has]
  cases clients.upstream.get (naturing.gkForUp resource) with
  | none => simp
  | some upstreamClient => cases clients.downstream.get (naturing.gkForDown resource) <;> simp

theorem initializeClients_cons (hReady : ¬ Blocked naturing factories clients resource) :
    ∃ clients', Extends naturing clients clients' [resource] ∧ ∀ rest,
      initializeClients naturing factories clients (resource :: rest) =
        initializeClients naturing factories clients' rest := by
  rw [Blocked, not_or, ← setUp_eq_none_iff, ← setUp_eq_none_iff] at hReady
  obtain ⟨upstream, hUp⟩ := Option.ne_none_iff_exists'.mp hReady.1
  obtain ⟨downstream, hDown⟩ := Option.ne_none_iff_exists'.mp hReady.2
  refine ⟨⟨upstream, downstream⟩, ⟨fun gk => ?_, fun gk => ?_⟩, fun rest => ?_⟩
  · rw [has_setUp hUp]
    simp
  · rw [has_setUp hDown]
    simp
  · rw [initializeClients, hUp]
    rw [hDown]

theorem Extends.blocked (hExtends : Extends naturing clients clients' before)
    (hBlocked : Blocked naturing factories clients' resource) :
    Blocked naturing factories clients resource := by
  refine hBlocked.imp (fun h => ⟨?_, h.2⟩) fun h => ⟨?_, h.2⟩
  · exact Bool.eq_false_iff.mpr fun hHas => Bool.eq_false_iff.mp h.1 ((hExtends.upstream _).mpr (.inl hHas))
  · exact Bool.eq_false_iff.mpr fun hHas => Bool.eq_false_iff.mp h.1 ((hExtends.downstream _).mpr (.inl hHas))

theorem Extends.trans {clients'' : Clients} {earlier later : List EdgeSyncConfigResource}
    (hEarlier : Extends naturing clients clients' earlier) (hLater : Extends naturing clients' clients'' later) :
    Extends naturing clients clients'' (earlier ++ later) where
  upstream gk := by
    rw [hLater.upstream, hEarlier.upstream, or_assoc]
    simp [or_and_right, exists_or]
  downstream gk := by
    rw [hLater.downstream, hEarlier.downstream, or_assoc]
    simp [or_and_right, exists_or]

theorem initializeClients_append (hReady : ∀ r ∈ before, ¬ Blocked naturing factories clients r) :
    ∃ clients', Extends naturing clients clients' before ∧ ∀ rest,
      initializeClients naturing factories clients (before ++ rest) =
        initializeClients naturing factories clients' rest := by
  induction before generalizing clients with
  | nil => exact ⟨clients, ⟨fun gk => by simp, fun gk => by simp⟩, fun rest => rfl⟩
  | cons first before ih =>
    obtain ⟨middle, hFirst, hCons⟩ := initializeClients_cons (hReady first mem_cons_self)
    obtain ⟨clients', hExtends, hAppend⟩ := ih fun r hMem hBlocked =>
      hReady r (mem_cons_of_mem _ hMem) (hFirst.blocked hBlocked)
    exact ⟨clients', hFirst.trans hExtends, fun rest => (hCons _).trans (hAppend rest)⟩

theorem has_initializeClients_blocked (hBlocked : Blocked naturing factories clients resource)
    (rest : List EdgeSyncConfigResource) :
    (∀ gk, (initializeClients naturing factories clients (resource :: rest)).1.upstream.has gk = true ↔
        clients.upstream.has gk = true ∨ gk = naturing.gkForUp resource ∧ factories.upstream gk ≠ none) ∧
      (initializeClients naturing factories clients (resource :: rest)).1.downstream = clients.downstream := by
  rw [initializeClients]
  cases hUp : setUp factories.upstream clients.upstream (naturing.gkForUp resource) with
  | none =>
    refine ⟨fun gk => (or_iff_left ?_).symm, rfl⟩
    rintro ⟨rfl, hBuilt⟩
    exact hBuilt ((setUp_eq_none_iff _ _ _).mp hUp).2
  | some upstream =>
    have hAvailable : ¬ Unavailable factories.upstream clients.upstream (naturing.gkForUp resource) := by
      rw [← setUp_eq_none_iff, hUp]
      exact Option.some_ne_none _
    rw [(setUp_eq_none_iff _ _ _).mpr (hBlocked.resolve_left hAvailable)]
    refine ⟨fun gk => ?_, rfl⟩
    rw [has_setUp hUp]
    rw [Unavailable, not_and_or, Bool.not_eq_false] at hAvailable
    constructor
    · rintro (hHas | rfl)
      · exact .inl hHas
      · exact hAvailable.imp id fun hBuilt => ⟨rfl, hBuilt⟩
    · exact fun h => h.imp id And.left

theorem Extends.blocked_of_ready (hExtends : Extends naturing clients clients' before)
    (hReady : ∀ r ∈ before, ¬ Blocked naturing factories clients r)
    (hBlocked : Blocked naturing factories clients resource) : Blocked naturing factories clients' resource := by
  refine hBlocked.imp (fun h => ⟨Bool.eq_false_iff.mpr fun hHas => ?_, h.2⟩)
    fun h => ⟨Bool.eq_false_iff.mpr fun hHas => ?_, h.2⟩
  · rcases (hExtends.upstream _).mp hHas with hOld | ⟨r, hMem, hSame⟩
    · exact Bool.eq_false_iff.mp h.1 hOld
    · exact hReady r hMem (.inl (hSame ▸ h))
  · rcases (hExtends.downstream _).mp hHas with hOld | ⟨r, hMem, hSame⟩
    · exact Bool.eq_false_iff.mp h.1 hOld
    · exact hReady r hMem (.inr (hSame ▸ h))

def SetUpBefore (naturing : Naturing) (clients : Clients) (before : List EdgeSyncConfigResource)
    (blocked resource : EdgeSyncConfigResource) : Prop :=
  (clients.upstream.has (naturing.gkForUp resource) = true ∨
      ∃ r ∈ before ++ [blocked], naturing.gkForUp resource = naturing.gkForUp r) ∧
    (clients.downstream.has (naturing.gkForDown resource) = true ∨
      ∃ r ∈ before, naturing.gkForDown resource = naturing.gkForDown r)

section First

variable {blocked : EdgeSyncConfigResource} (hReady : ∀ r ∈ before, ¬ Blocked naturing factories clients r)
  (hBlocked : Blocked naturing factories clients blocked)

include hReady hBlocked

theorem getClients_before (hMem : resource ∈ before) :
    naturing.getClients (initializeClients naturing factories clients (before ++ blocked :: after)).1 resource ≠
      none := by
  obtain ⟨clients', hExtends, hAppend⟩ := initializeClients_append hReady
  obtain ⟨hUp, hDown⟩ := has_initializeClients_blocked (hExtends.blocked_of_ready hReady hBlocked) after
  rw [getClients_ne_none_iff, hAppend, hUp, hDown, hExtends.upstream, hExtends.downstream]
  exact ⟨.inl (.inr ⟨resource, hMem, rfl⟩), .inr ⟨resource, hMem, rfl⟩⟩

theorem getClients_after_iff (hBuildable : Buildable naturing factories resource) :
    naturing.getClients (initializeClients naturing factories clients (before ++ blocked :: after)).1 resource ≠ none ↔
      SetUpBefore naturing clients before blocked resource := by
  obtain ⟨clients', hExtends, hAppend⟩ := initializeClients_append hReady
  obtain ⟨hUp, hDown⟩ := has_initializeClients_blocked (hExtends.blocked_of_ready hReady hBlocked) after
  rw [getClients_ne_none_iff, hAppend, hUp, hDown, hExtends.upstream, hExtends.downstream, SetUpBefore, or_assoc,
    and_iff_left hBuildable.1]
  simp [or_and_right, exists_or]

end First

theorem SetUpBefore.mono {blocked blocked' : EdgeSyncConfigResource}
    (hSetUp : SetUpBefore naturing clients before blocked resource) (hBefore : ∀ r ∈ before, r ∈ before')
    (hBlocked : blocked ∈ before' ++ [blocked']) : SetUpBefore naturing clients before' blocked' resource := by
  refine ⟨hSetUp.1.imp_right ?_, hSetUp.2.imp_right fun ⟨r, hMem, hSame⟩ => ⟨r, hBefore r hMem, hSame⟩⟩
  rintro ⟨r, hMem, hSame⟩
  refine ⟨r, ?_, hSame⟩
  rcases mem_append.mp hMem with hMem | hLast
  · exact mem_append_left _ (hBefore r hMem)
  · exact mem_singleton.mp hLast ▸ hBlocked

theorem first_blocked {p : EdgeSyncConfigResource → Prop} {after' : List EdgeSyncConfigResource}
    {blocked blocked' : EdgeSyncConfigResource} (hFirst : ∀ r ∈ before, ¬ p r) (hBlocked' : p blocked')
    (hSame : before ++ blocked :: after = before' ++ blocked' :: after') :
    (∀ r ∈ before, r ∈ before') ∧ blocked ∈ before' ++ [blocked'] ∧ ∀ r ∈ after', r ∈ after := by
  rcases append_eq_append_iff.mp hSame with ⟨middle, rfl, hRest⟩ | ⟨middle, rfl, hRest⟩
  · cases middle with
    | nil =>
      cases hRest
      exact ⟨fun r hMem => mem_append_left _ hMem, by simp, fun r hMem => hMem⟩
    | cons first middle =>
      cases hRest
      exact ⟨fun r hMem => mem_append_left _ hMem, by simp, fun r hMem => by simp [hMem]⟩
  · cases middle with
    | nil =>
      cases hRest
      exact ⟨fun r hMem => by simpa using hMem, by simp, fun r hMem => hMem⟩
    | cons first middle =>
      cases hRest
      exact absurd hBlocked' (hFirst blocked' (by simp))

/-- Every listed resource whose clients can be built has them after the call if and only if those that are listed after
a blocked one have theirs already. -/
theorem clients_setUp_iff (naturing : Naturing) (factories : ClientFactories) (clients : Clients)
    (syncResources : List EdgeSyncConfigResource) :
    (∀ resource ∈ syncResources, Buildable naturing factories resource →
        naturing.getClients (initializeClients naturing factories clients syncResources).1 resource ≠ none) ↔
      ∀ before blocked after, syncResources = before ++ blocked :: after → Blocked naturing factories clients blocked →
        ∀ resource ∈ after, Buildable naturing factories resource →
          SetUpBefore naturing clients before blocked resource := by
  constructor
  · rintro hAll before' blocked' after' rfl hBlocked' resource hMem hBuildable
    obtain ⟨before, blocked, after, hSplit, hBlocked, hReady⟩ := Run.exists_first
      (p := Blocked naturing factories clients) ⟨blocked', mem_append_right _ mem_cons_self, hBlocked'⟩
    obtain ⟨hBefore, hFirst, hAfter⟩ := first_blocked hReady hBlocked' hSplit.symm
    have hClients := hAll resource (mem_append_right _ (mem_cons_of_mem _ hMem)) hBuildable
    rw [hSplit] at hClients
    -- The call ended at the first blocked resource, which may come before the given one.
    exact ((getClients_after_iff hReady hBlocked hBuildable).mp hClients).mono hBefore hFirst
  · intro hCovered resource hMem hBuildable
    by_cases hSome : ∃ r ∈ syncResources, Blocked naturing factories clients r
    · obtain ⟨before, blocked, after, rfl, hBlocked, hReady⟩ := Run.exists_first hSome
      rcases mem_append.mp hMem with hBefore | hRest
      · exact getClients_before hReady hBlocked hBefore
      · rcases mem_cons.mp hRest with rfl | hAfter
        · exact (hBlocked.elim (fun h => hBuildable.1 h.2) fun h => hBuildable.2 h.2).elim
        · exact (getClients_after_iff hReady hBlocked hBuildable).mpr
            (hCovered before blocked after rfl hBlocked resource hAfter hBuildable)
    · -- nothing is in the way of the whole list
      obtain ⟨clients', hExtends, hAppend⟩ := initializeClients_append fun r hR hBlocked => hSome ⟨r, hR, hBlocked⟩
      have hEnd := hAppend []
      rw [append_nil] at hEnd
      rw [getClients_ne_none_iff, hEnd]
      exact ⟨(hExtends.upstream _).mpr (.inr ⟨resource, hMem, rfl⟩),
        (hExtends.downstream _).mpr (.inr ⟨resource, hMem, rfl⟩)⟩

def withoutGroup (group : String) : ClientFactories :=
  ⟨fun gk => if gk.group = group then none else some ⟨true⟩, fun gk => if gk.group = group then none else some ⟨true⟩⟩

/-- The order of the list decides whether the clients for the secrets are there. -/
theorem clients_missing_after_failure :
    Buildable ⟨false, []⟩ (withoutGroup "example.io") ⟨"Secret", "", "v1", "*", "default"⟩ ∧
      (Naturing.mk false []).getClients (initializeClients ⟨false, []⟩ (withoutGroup "example.io") ⟨∅, ∅⟩
        [⟨"Widget", "example.io", "v1", "*", "default"⟩, ⟨"Secret", "", "v1", "*", "default"⟩]).1
        ⟨"Secret", "", "v1", "*", "default"⟩ = none ∧
      (Naturing.mk false []).getClients (initializeClients ⟨false, []⟩ (withoutGroup "example.io") ⟨∅, ∅⟩
        [⟨"Secret", "", "v1", "*", "default"⟩, ⟨"Widget", "example.io", "v1", "*", "default"⟩]).1
        ⟨"Secret", "", "v1", "*", "default"⟩ = some (⟨true⟩, ⟨true⟩) :=
  ⟨⟨by simp [withoutGroup, Naturing.gkForUp, Naturing.convertToUpstream, Naturing.convert,
      EdgeSyncConfigResource.groupKind], by simp [withoutGroup, Naturing.gkForDown, Naturing.convertToDownstream,
      Naturing.convert, EdgeSyncConfigResource.groupKind]⟩, by rfl, by rfl⟩

end KubeStellar.Syncer
