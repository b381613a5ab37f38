import KubeStellar.MultiSpace.Client
import Mathlib.Logic.Function.Basic

/-! # Whether the maps of the multi-space client say what the Spaces are

A change of the annotations alone is not seen, a reference that a ready Space no longer has is not deleted, and a
configuration that was made from what the API server has is never deleted.
-/

namespace KubeStellar.MultiSpace

open List Option GoMap Function

open Run

variable (spaces : GoMap String Space)

def ReadyAt (key : String) : Prop :=
  ∃ space, spaces.get key = some space ∧ space.isReady = true

def RefersTo (ref key : String) : Prop :=
  ∃ space, spaces.get key = some space ∧ space.isReady = true ∧ space.ref = some ref

def RefsExact (refToSpace : GoMap String String) (spaces : GoMap String Space) : Prop :=
  ∀ ref key, refToSpace.get ref = some key ↔ RefersTo spaces ref key

def ConfigsReady (configs : GoMap String RestConfig) (spaces : GoMap String Space) : Prop :=
  ∀ entry config, configs.get entry = some config → ReadyAt spaces config.space

structure Coherent (state : State) : Prop where
  refs : RefsExact state.mcc.refToSpace state.spaces
  configs : ConfigsReady state.mcc.configs state.spaces

def Distinct : Prop :=
  ∀ ref key key', RefersTo spaces ref key → RefersTo spaces ref key' → key = key'

def Env.Reads (env : Env) : Prop := ∀ secretRef, ∃ kubeconfig, env.secrets secretRef = .ok kubeconfig

def Space.hasSecret (space : Space) (externalAccess : Bool) : Bool :=
  if externalAccess then space.status.externalSecretRef.isSome else space.status.inClusterSecretRef.isSome

structure World where
  spaces : GoMap String Space
  /-- Whether the Space with a key has had a reference to its secret since it became ready. -/
  configured : String → Bool
  /-- The Space of a name for which `ConfigForSpace` was called before it was configured. -/
  fetched : String → Option String

namespace World

def start : World := ⟨∅, fun _ => false, fun _ => none⟩

variable (externalAccess : Bool) (world : World)

def fetches (space : Space) (requests : List Request) : Bool :=
  (space.isReady && space.hasSecret externalAccess && !world.configured space.key) &&
    requests.any fun request => request.key = space.key

def step (input : Env × Event) : World :=
  match input.2 with
  | .put space requests =>
    { spaces := world.spaces.put space.key space
      configured := Function.update world.configured space.key
        (space.isReady && (space.hasSecret externalAccess || world.configured space.key))
      fetched :=
        if world.fetches externalAccess space requests then Function.update world.fetched space.name (some space.key)
        else world.fetched }
  | .delete key _ =>
    { world with spaces := world.spaces.delete key, configured := Function.update world.configured key false }
  | .configForSpace _ => world

def RefKept : Event → Prop
  | .put space _ => ∀ old, world.spaces.get space.key = some old → old.isReady = true → space.isReady = true →
      space.ref = old.ref ∨ old.status ≠ space.status ∧ old.ref = none
  | .delete _ _ => True
  | .configForSpace _ => True

def FetchedReady : Prop := ∀ name key, world.fetched name = some key → ReadyAt world.spaces key

def Keeps (input : Env × Event) : Prop := world.RefKept input.2 ∧ (world.step externalAccess input).FetchedReady

end World

open MultiSpaceClient

variable {refToSpace : GoMap String String} {spaces : GoMap String Space} {key : String} (space : Space)
  {spaces' : GoMap String Space}

theorem refersTo_put_iff (ref key : String) : RefersTo (spaces.put space.key space) ref key ↔
      if key = space.key then space.isReady = true ∧ space.ref = some ref else RefersTo spaces ref key := by
  unfold RefersTo
  rw [get_put]
  split
  · simp only [Option.some.injEq, exists_eq_left']
  · rfl

theorem refersTo_delete_iff (spaceKey ref key : String) :
    RefersTo (spaces.delete spaceKey) ref key ↔ key ≠ spaceKey ∧ RefersTo spaces ref key := by
  unfold RefersTo
  rw [get_delete]
  split
  · next hKey =>
    refine iff_of_false ?_ fun hBoth => hBoth.1 hKey
    rintro ⟨space, hGet, -⟩
    cases hGet
  · next hKey => exact ⟨fun hRefers => ⟨hKey, hRefers⟩, And.right⟩

theorem RefersTo.ref_unique {ref ref' : String} (hRefers : RefersTo spaces ref key)
    (hRefers' : RefersTo spaces ref' key) : ref = ref' := by
  obtain ⟨space, hGet, -, hRef⟩ := hRefers
  obtain ⟨space', hGet', -, hRef'⟩ := hRefers'
  cases hGet.symm.trans hGet'
  exact Option.mem_unique hRef hRef'

theorem handleDelete_refsExact {mcc : MultiSpaceClient} (env : Env) {spaceKey : String}
    (hExact : RefsExact mcc.refToSpace spaces)
    (hGone : ∀ ref key, RefersTo spaces' ref key ↔ key ≠ spaceKey ∧ RefersTo spaces ref key) :
    RefsExact (mcc.handleDelete env spaceKey).refToSpace spaces' := by
  intro ref key
  rw [hGone, ← hExact]
  unfold handleDelete
  split
  · next hNone =>
    constructor
    · intro hGet
      refine ⟨?_, hGet⟩
      rintro rfl
      have hOther := List.find?_eq_none.mp hNone (ref, key) ((env.ord.mem_visit_iff _ _ _).mpr hGet)
      simp at hOther
    · exact And.right
  · next e hFound =>
    obtain ⟨ref', spaceKey'⟩ := e
    have hValue : spaceKey' = spaceKey := by simpa using List.find?_some hFound
    subst hValue
    have hGet' := (env.ord.mem_visit_iff _ _ _).mp (mem_of_find?_eq_some hFound)
    simp only [get_delete]
    split
    · next hRef =>
      subst hRef
      rw [hGet']
      exact iff_of_false (by simp) fun hBoth => hBoth.1 (Option.some.inj hBoth.2).symm
    · next hRef =>
      refine ⟨fun hGet => ⟨?_, hGet⟩, And.right⟩
      rintro rfl
      exact hRef (((hExact _ _).mp hGet).ref_unique ((hExact _ _).mp hGet'))

theorem cacheSpaceReference_refsExact_iff {mcc : MultiSpaceClient} {space : Space} (hReady : space.isReady = true)
    (hExact : RefsExact mcc.refToSpace spaces) (hDist : Distinct (spaces.put space.key space)) :
    RefsExact (mcc.cacheSpaceReference space space.key).refToSpace (spaces.put space.key space) ↔
      ∀ ref, RefersTo spaces ref space.key → space.ref = some ref := by
  have hGet : ∀ ref, (mcc.cacheSpaceReference space space.key).refToSpace.get ref =
      if space.ref = some ref then some space.key else mcc.refToSpace.get ref := by
    intro ref
    unfold cacheSpaceReference
    cases hRef : space.ref with
    | none => rfl
    | some ref' => simp only [get_put, Option.some.injEq, eq_comm]
  have hNew : ∀ ref, RefersTo (spaces.put space.key space) ref space.key ↔ space.ref = some ref := by
    intro ref
    rw [refersTo_put_iff, if_pos rfl, and_iff_right hReady]
  constructor
  · intro hAfter ref hOld
    by_contra hRef
    have hStale := (hGet ref).trans ((if_neg hRef).trans ((hExact ref space.key).mpr hOld))
    exact hRef ((hNew ref).mp ((hAfter ref space.key).mp hStale))
  · intro hKept ref key
    rw [hGet]
    split
    · next hRef =>
      constructor
      · intro hEq
        cases hEq
        exact (hNew ref).mpr hRef
      · intro hRefers
        rw [hDist ref key space.key hRefers ((hNew ref).mpr hRef)]
    · next hRef =>
      rw [hExact, refersTo_put_iff]
      split
      · next hKey =>
        subst hKey
        exact ⟨fun hOld => absurd (hKept ref hOld) hRef, fun hBoth => absurd hBoth.2 hRef⟩
      · rfl

theorem put_refsExact_iff {old space : Space} (hOld : spaces.get space.key = some old)
    (hStatus : old.status = space.status)
    (hExact : RefsExact refToSpace spaces) :
    RefsExact refToSpace (spaces.put space.key space) ↔ (space.isReady = true → space.ref = old.ref) := by
  have hReady : old.isReady = space.isReady := by rw [Space.isReady, Space.isReady, hStatus]
  have hBefore : ∀ ref, RefersTo spaces ref space.key ↔ space.isReady = true ∧ old.ref = some ref := by
    intro ref
    simp only [RefersTo, hOld, Option.some.injEq, exists_eq_left', hReady]
  constructor
  · intro hAfter hNow
    refine Option.ext fun ref => ?_
    have hSame := (hExact ref space.key).symm.trans (hAfter ref space.key)
    rw [hBefore, refersTo_put_iff, if_pos rfl, and_iff_right hNow, and_iff_right hNow] at hSame
    exact hSame.symm
  · intro hKept ref key
    rw [hExact, refersTo_put_iff]
    split
    · next hKey =>
      subst hKey
      rw [hBefore]
      exact and_congr_right fun hNow => by rw [hKept hNow]
    · rfl

/-- The entries of the configurations: those by key are of the Spaces that are configured, those by a bare name of the
Spaces that were fetched. -/
def ConfigsTrack (configured : String → Bool) (fetched : String → Option String) (configs : GoMap String RestConfig) :
    Prop :=
  ∀ entry, (configs.get entry).map RestConfig.space =
    if '/' ∈ entry.toList then (if configured entry then some entry else none) else fetched entry

variable {configured : String → Bool} {fetched : String → Option String} {configs : GoMap String RestConfig}
  (hTrack : ConfigsTrack configured fetched configs)

include hTrack

theorem ConfigsTrack.put (config : RestConfig) (hSlash : '/' ∈ config.space.toList) :
    ConfigsTrack (Function.update configured config.space true) fetched (configs.put config.space config) := by
  intro entry
  rw [get_put, update_apply]
  split
  · next hEq =>
    subst hEq
    rw [if_pos hSlash, if_pos rfl, map_some]
  · exact hTrack entry

theorem ConfigsTrack.delete
    (hSlash : '/' ∈ key.toList) : ConfigsTrack (Function.update configured key false) fetched (configs.delete key) := by
  intro entry
  rw [get_delete, update_apply]
  split
  · next hEq =>
    subst hEq
    rw [if_pos hSlash, if_neg Bool.false_ne_true, map_none]
  · exact hTrack entry

theorem ConfigsTrack.fetch {name : String} (hBare : '/' ∉ name.toList) (config : RestConfig) :
    ConfigsTrack configured (Function.update fetched name (some config.space)) (configs.put name config) := by
  intro entry
  rw [get_put, update_apply]
  split
  · next hEq =>
    subst hEq
    rw [if_neg hBare, map_some]
  · exact hTrack entry

theorem ConfigsTrack.get_isSome (hSlash : '/' ∈ key.toList) : (configs.get key).isSome = configured key := by
  have hEntry := hTrack key
  rw [if_pos hSlash] at hEntry
  rw [← isSome_map, hEntry]
  cases configured key <;> rfl

omit hTrack

theorem slash_mem_namespaceKey (name ns : String) : '/' ∈ (namespaceKey name ns).toList := by
  simp [namespaceKey]

variable {mcc : MultiSpaceClient} {env : Env}

theorem getRestConfigFromSecret_of_hasSecret (hReads : env.Reads) {space : Space}
    (hSecret : space.hasSecret mcc.externalAccess = true) :
    ∃ config, mcc.getRestConfigFromSecret env space = .ok config ∧ config.space = space.key := by
  have hRef : ∃ secretRef, mcc.secretRef space = .ok secretRef := by
    unfold Space.hasSecret at hSecret
    unfold secretRef
    split at hSecret <;> obtain ⟨secretRef, hRef⟩ := isSome_iff_exists.mp hSecret <;>
    · exact ⟨secretRef, by simp [*]⟩
  obtain ⟨secretRef, hRef⟩ := hRef
  obtain ⟨kubeconfig, hRead⟩ := hReads secretRef
  refine ⟨⟨space.key, kubeconfig⟩, ?_, rfl⟩
  rw [getRestConfigFromSecret, hRef]
  simp only [hRead, Except.map]

theorem getRestConfigFromSecret_of_not_hasSecret (env : Env) {space : Space}
    (hSecret : space.hasSecret mcc.externalAccess = false) :
    ∃ err, mcc.getRestConfigFromSecret env space = .error err := by
  unfold Space.hasSecret at hSecret
  unfold getRestConfigFromSecret secretRef
  split at hSecret <;> rw [isSome_eq_false_iff, isNone_iff_eq_none] at hSecret <;> simp [*]

theorem configForSpace_cases (hReads : env.Reads) (hKeyed : ∀ key space, spaces.get key = some space → space.key = key)
    (hTrack : ConfigsTrack configured fetched mcc.configs) (request : Request) :
    (mcc.configForSpace env spaces request.name request.providerNS).1 = mcc ∧
      (∀ space, spaces.get request.key = some space → space.isReady = true →
        space.hasSecret mcc.externalAccess = true → configured request.key = true) ∨
    ∃ space config, spaces.get request.key = some space ∧ config.space = request.key ∧ space.isReady = true ∧
      space.hasSecret mcc.externalAccess = true ∧ configured request.key = false ∧
      (mcc.configForSpace env spaces request.name request.providerNS).1 =
        { mcc with configs := mcc.configs.put space.name config } := by
  have hKey : namespaceKey request.name (if request.providerNS = "" then defaultProviderNs else request.providerNS) =
      request.key := rfl
  have hSome : (mcc.configs.get request.key).isSome = configured request.key :=
    hTrack.get_isSome (slash_mem_namespaceKey _ _)
  simp only [configForSpace, hKey]
  cases hGet : mcc.configs.get request.key with
  | some config =>
    rw [hGet] at hSome
    exact .inl ⟨rfl, fun _ _ _ _ => hSome.symm⟩
  | none =>
    rw [hGet] at hSome
    simp only [getFromServer, hKey]
    cases hSpace : spaces.get request.key with
    | none => exact .inl ⟨rfl, fun space hEq => by cases hEq⟩
    | some space =>
      cases hReady : space.isReady with
      | false =>
        refine .inl ⟨by simp [hReady], ?_⟩
        rintro _ ⟨rfl⟩ hReady'
        exact absurd (hReady.symm.trans hReady') Bool.false_ne_true
      | true =>
        cases hSecret : space.hasSecret mcc.externalAccess with
        | false =>
          obtain ⟨err, hErr⟩ := getRestConfigFromSecret_of_not_hasSecret env hSecret
          refine .inl ⟨by simp [hReady, hErr], ?_⟩
          rintro _ ⟨rfl⟩ _ hSecret'
          exact absurd (hSecret.symm.trans hSecret') Bool.false_ne_true
        | true =>
          obtain ⟨config, hConfig, hOf⟩ := getRestConfigFromSecret_of_hasSecret hReads hSecret
          refine .inr ⟨space, config, rfl, hOf.trans (hKeyed _ _ hSpace), hReady, hSecret, hSome.symm, ?_⟩
          simp [hReady, hConfig]

variable {state : State}

def Complete (externalAccess : Bool) (configured : String → Bool) (spaces : GoMap String Space) (key : String) : Prop :=
  ∀ space, spaces.get key = some space → space.isReady = true → space.hasSecret externalAccess = true →
    configured key = true

def State.withConfigs (state : State) (configs : GoMap String RestConfig) : State :=
  { state with mcc := { state.mcc with configs } }

theorem request_of_complete (hReads : env.Reads)
    (hKeyed : ∀ key space, state.spaces.get key = some space → space.key = key)
    (hTrack : ConfigsTrack configured fetched state.mcc.configs) (request : Request)
    (hComplete : Complete state.mcc.externalAccess configured state.spaces request.key) :
    state.request env request = state := by
  rcases configForSpace_cases hReads hKeyed hTrack request with ⟨hSame, -⟩ |
    ⟨space, config, hGet, -, hReady, hSecret, hNot, -⟩
  · rw [State.request, hSame]
  · exact absurd (hNot.symm.trans (hComplete space hGet hReady hSecret)) Bool.false_ne_true

theorem foldl_request_of_complete (hReads : env.Reads)
    (hKeyed : ∀ key space, state.spaces.get key = some space → space.key = key)
    (hTrack : ConfigsTrack configured fetched state.mcc.configs)
    (hComplete : ∀ key, Complete state.mcc.externalAccess configured state.spaces key) (requests : List Request) :
    requests.foldl (State.request env) state = state := by
  induction requests with
  | nil => rfl
  | cons request requests ih =>
    rw [foldl_cons, request_of_complete hReads hKeyed hTrack request (hComplete _)]
    exact ih

theorem foldl_request (hReads : env.Reads)
    (hKeyed : ∀ key space, state.spaces.get key = some space → space.key = key) {space : Space}
    (hSpace : state.spaces.get space.key = some space) (hTrack : ConfigsTrack configured fetched state.mcc.configs)
    (hComplete : ∀ key, key ≠ space.key → Complete state.mcc.externalAccess configured state.spaces key)
    (requests : List Request) :
    ∃ configs, requests.foldl (State.request env) state = state.withConfigs configs ∧ ConfigsTrack configured
        (if (space.isReady && space.hasSecret state.mcc.externalAccess && !configured space.key) &&
            requests.any (fun request => request.key = space.key)
          then Function.update fetched space.name (some space.key) else fetched) configs := by
  induction requests generalizing state fetched with
  | nil => exact ⟨state.mcc.configs, rfl, by simpa using hTrack⟩
  | cons request requests ih =>
    rw [foldl_cons, any_cons]
    by_cases hKey : request.key = space.key
    · rcases configForSpace_cases hReads hKeyed hTrack request with ⟨hSame, hDone⟩ |
        ⟨space', config, hGet, hOf, hReady, hSecret, hNot, hEq⟩
      · -- the Space is not one that can be fetched, now or later
        obtain ⟨configs, hAfter, hTrack'⟩ := ih hKeyed hSpace hTrack hComplete
        have hCannot :
            (space.isReady && space.hasSecret state.mcc.externalAccess && !configured space.key) = false := by
          rw [hKey] at hDone
          have hDone := hDone space hSpace
          revert hDone
          cases space.isReady <;> cases space.hasSecret state.mcc.externalAccess <;> simp
        rw [State.request, hSame]
        refine ⟨configs, hAfter, ?_⟩
        rw [hCannot, Bool.false_and] at hTrack' ⊢
        exact hTrack'
      · rw [hKey] at hGet hOf hNot
        cases hSpace.symm.trans hGet
        have hFetched := hTrack.fetch space.name_valid config
        rw [hOf] at hFetched
        obtain ⟨configs, hAfter, hTrack'⟩ := @ih (Function.update fetched space.name (some space.key))
          (state.withConfigs (state.mcc.configs.put space.name config)) hKeyed hSpace hFetched hComplete
        refine ⟨configs, ?_, ?_⟩
        · rw [State.request, hEq]
          exact hAfter
        · simpa [hReady, hSecret, hNot, hKey] using hTrack'
    · rw [request_of_complete hReads hKeyed hTrack request (hComplete _ hKey), decide_eq_false hKey, Bool.false_or]
      exact ih hKeyed hSpace hTrack hComplete

variable {externalAccess : Bool} {world : World} {input : Env × Event}

section Step

/-- The state has the Spaces of the world, and the configurations of those that are configured or were fetched. -/
structure Tracks (externalAccess : Bool) (world : World) (state : State) : Prop where
  spaces : state.spaces = world.spaces
  external : state.mcc.externalAccess = externalAccess
  keyed : ∀ key space, world.spaces.get key = some space → space.key = key
  configs : ConfigsTrack world.configured world.fetched state.mcc.configs
  ready : ∀ key, world.configured key = true → ReadyAt world.spaces key
  complete : ∀ key, Complete externalAccess world.configured world.spaces key
  bare : ∀ name key, world.fetched name = some key → '/' ∉ name.toList

variable {state : State} {env : Env}

theorem tracks_start (externalAccess : Bool) : Tracks externalAccess .start (.start externalAccess) where
  spaces := rfl
  external := rfl
  keyed _ _ hGet := by cases hGet
  configs entry := by
    split <;> rfl
  ready _ hEq := by cases hEq
  complete _ _ hGet := by cases hGet
  bare _ _ hEq := by cases hEq

theorem Tracks.slash_mem (hTracks : Tracks externalAccess world state) {space : Space}
    (hGet : world.spaces.get key = some space) : '/' ∈ key.toList :=
  hTracks.keyed key space hGet ▸ slash_mem_namespaceKey _ _

theorem handleAdd_configsTrack {configured : String → Bool} {fetched : String → Option String} {mcc : MultiSpaceClient}
    (hReads : env.Reads) (hTrack : ConfigsTrack configured fetched mcc.configs) (space : Space) :
    ConfigsTrack (Function.update configured space.key
      (space.isReady && (space.hasSecret mcc.externalAccess || configured space.key))) fetched
      (mcc.handleAdd env space space.key).configs := by
  unfold handleAdd
  cases hReady : space.isReady with
  | false => exact hTrack.delete (slash_mem_namespaceKey _ _)
  | true =>
    have hCached : (mcc.cacheSpaceReference space space.key).configs = mcc.configs ∧
        (mcc.cacheSpaceReference space space.key).externalAccess = mcc.externalAccess := by
      unfold cacheSpaceReference
      split <;> exact ⟨rfl, rfl⟩
    rw [Bool.true_and, if_pos rfl, ← hCached.2]
    cases hSecret : space.hasSecret (mcc.cacheSpaceReference space space.key).externalAccess with
    | false =>
      obtain ⟨err, hErr⟩ := getRestConfigFromSecret_of_not_hasSecret env hSecret
      simp only [hErr, Bool.false_or, update_eq_self]
      exact hCached.1 ▸ hTrack
    | true =>
      obtain ⟨config, hConfig, hOf⟩ := getRestConfigFromSecret_of_hasSecret hReads hSecret
      have hPut := hTrack.put config (hOf ▸ slash_mem_namespaceKey _ _)
      rw [hOf] at hPut
      simp only [hConfig, Bool.true_or, hCached.1]
      exact hPut

variable (hTracks : Tracks externalAccess world state)

include hTracks

theorem Tracks.configsReady_iff : ConfigsReady state.mcc.configs state.spaces ↔ world.FetchedReady := by
  rw [hTracks.spaces]
  constructor
  · intro hReady name key hFetched
    have hEntry := hTracks.configs name
    rw [if_neg (hTracks.bare name key hFetched), hFetched, map_eq_some_iff] at hEntry
    obtain ⟨config, hGet, rfl⟩ := hEntry
    exact hReady name config hGet
  · intro hReady entry config hGet
    have hEntry := hTracks.configs entry
    rw [hGet, map_some] at hEntry
    split at hEntry
    · split at hEntry
      · next hConf =>
        rw [Option.some.inj hEntry]
        exact hTracks.ready entry hConf
      · cases hEntry
    · exact hReady entry config.space hEntry.symm

theorem Tracks.step_put (hReads : env.Reads) (space : Space) (requests : List Request) :
    ∃ configs, ConfigsTrack world.configured (world.step externalAccess (env, .put space requests)).fetched configs ∧
      state.step (env, .put space requests) = ⟨if enqueues (state.spaces.get space.key) space then
            ({ state.mcc with configs } : MultiSpaceClient).handleAdd env space space.key
          else { state.mcc with configs }, world.spaces.put space.key space⟩ := by
  have hGet : (state.spaces.put space.key space).get space.key = some space := by rw [get_put, if_pos rfl]
  have hOthers : ∀ key, key ≠ space.key → (state.spaces.put space.key space).get key = world.spaces.get key := by
    intro key hNe
    rw [get_put, if_neg hNe, hTracks.spaces]
  obtain ⟨configs, hAfter, hTrack⟩ := @foldl_request _ _ env { state with spaces := state.spaces.put space.key space }
    hReads (forall_get_put (hTracks.spaces ▸ hTracks.keyed) rfl) space hGet hTracks.configs
    (fun key hNe space' hGet' => hTracks.external ▸ hTracks.complete key space'
      ((hOthers key hNe).symm.trans hGet')) requests
  refine ⟨configs, ?_, ?_⟩
  · simp only [hTracks.external] at hTrack
    exact hTrack
  · simp only [State.step, hAfter]
    split
    · simp only [State.process, State.withConfigs, MultiSpaceClient.process, hGet]
      rw [hTracks.spaces]
    · rw [State.withConfigs, hTracks.spaces]

theorem Tracks.configured_eq {space : Space} (hQuiet : enqueues (state.spaces.get space.key) space = false) :
    (space.isReady && (space.hasSecret externalAccess || world.configured space.key)) = world.configured space.key := by
  rw [hTracks.spaces] at hQuiet
  cases hOld : world.spaces.get space.key with
  | none =>
    rw [hOld] at hQuiet
    cases hQuiet
  | some old =>
    rw [hOld] at hQuiet
    have hStatus : old.status = space.status := by simpa [enqueues] using hQuiet
    have hReady : old.isReady = space.isReady := by rw [Space.isReady, Space.isReady, hStatus]
    have hSecret : old.hasSecret externalAccess = space.hasSecret externalAccess := by
      rw [Space.hasSecret, Space.hasSecret, hStatus]
    have hComplete := hTracks.complete space.key old hOld
    have hOnly : world.configured space.key = true → space.isReady = true := by
      intro hConf
      obtain ⟨old', hOld', hReady'⟩ := hTracks.ready _ hConf
      cases hOld.symm.trans hOld'
      exact hReady ▸ hReady'
    rw [hReady, hSecret] at hComplete
    revert hComplete hOnly
    cases space.isReady <;> cases space.hasSecret externalAccess <;> cases world.configured space.key <;> simp

variable (hReads : env.Reads)

include hReads

theorem Tracks.put (space : Space) (requests : List Request) :
    Tracks externalAccess (world.step externalAccess (env, .put space requests))
      (state.step (env, .put space requests)) := by
  obtain ⟨configs, hTrack, hStep⟩ := hTracks.step_put hReads space requests
  rw [hStep]
  refine ⟨rfl, ?_, forall_get_put hTracks.keyed rfl, ?_, fun key hConf => ?_, fun key space' hGet hReady hSecret => ?_,
    fun name key hFetched => ?_⟩
  · rw [← hTracks.external]
    unfold handleAdd cacheSpaceReference handleDelete
    dsimp only
    split
    · split
      · split <;> split <;> rfl
      · rfl
    · rfl
  · split
    · obtain rfl := hTracks.external
      exact @handleAdd_configsTrack env _ _ { state.mcc with configs } hReads hTrack space
    · next hQuiet =>
      have hSame := hTracks.configured_eq (Bool.eq_false_iff.mpr hQuiet)
      simp only [World.step, hSame, update_eq_self]
      exact hTrack
  · simp only [World.step, update_apply] at hConf
    simp only [World.step, ReadyAt, get_put]
    split at hConf
    · next hKey =>
      rw [if_pos hKey]
      exact ⟨space, rfl, (Bool.and_eq_true_iff.mp hConf).1⟩
    · next hKey =>
      rw [if_neg hKey]
      exact hTracks.ready key hConf
  · simp only [World.step, update_apply, get_put] at hGet ⊢
    split at hGet
    · next hKey =>
      cases hGet
      rw [if_pos hKey, hReady, hSecret]
      rfl
    · next hKey =>
      rw [if_neg hKey]
      exact hTracks.complete key space' hGet hReady hSecret
  · simp only [World.step] at hFetched
    split at hFetched
    · rw [update_apply] at hFetched
      split at hFetched
      · next hName => exact hName ▸ space.name_valid
      · exact hTracks.bare name key hFetched
    · exact hTracks.bare name key hFetched

theorem Tracks.step_delete (key : String) (requests : List Request) : state.step (env, .delete key requests) =
      ⟨if state.spaces.has key then state.mcc.handleDelete env key else state.mcc, world.spaces.delete key⟩ := by
  have hGet : ∀ key' space, (state.spaces.delete key).get key' = some space → world.spaces.get key' = some space :=
    fun key' space hGet => hTracks.spaces ▸ (get_of_get_delete hGet).2
  have hSame := @foldl_request_of_complete _ _ env { state with spaces := state.spaces.delete key } hReads
    (fun key' space hGet' => hTracks.keyed key' space (hGet key' space hGet')) hTracks.configs
    (fun key' space hGet' => hTracks.external ▸ hTracks.complete key' space (hGet key' space hGet')) requests
  have hGone : (world.spaces.delete key).get key = none := by rw [get_delete, if_pos rfl]
  simp only [State.step, hSame]
  split
  · simp only [State.process, MultiSpaceClient.process, hTracks.spaces, hGone]
  · simp only [hTracks.spaces]

theorem Tracks.delete (key : String) (requests : List Request) :
    Tracks externalAccess (world.step externalAccess (env, .delete key requests))
      (state.step (env, .delete key requests)) := by
  rw [hTracks.step_delete hReads key requests]
  refine ⟨rfl, ?_, fun key' space hGet => hTracks.keyed key' space (get_of_get_delete hGet).2, ?_,
    fun key' hConf => ?_, fun key' space hGet hReady hSecret => ?_, hTracks.bare⟩
  · rw [← hTracks.external]
    split <;> rfl
  · split
    · next hHas =>
      obtain ⟨old, hOld⟩ := isSome_iff_exists.mp hHas
      exact hTracks.configs.delete (hTracks.slash_mem (hTracks.spaces ▸ hOld))
    · next hHas =>
      have hNot : world.configured key = false := by
        rw [Bool.eq_false_iff]
        intro hConf
        obtain ⟨old, hOld, -⟩ := hTracks.ready key hConf
        exact hHas (by rw [GoMap.has, hTracks.spaces, hOld]; rfl)
      simp only [World.step]
      rw [← hNot, update_eq_self]
      exact hTracks.configs
  · simp only [World.step, update_apply] at hConf
    split at hConf
    · cases hConf
    · next hNe =>
      obtain ⟨space, hSpace, hReady⟩ := hTracks.ready key' hConf
      exact ⟨space, by simp only [World.step, get_delete, if_neg hNe, hSpace], hReady⟩
  · obtain ⟨hNe, hOld⟩ := get_of_get_delete hGet
    simp only [World.step, update_apply, if_neg hNe]
    exact hTracks.complete key' space hOld hReady hSecret

theorem Tracks.step_configForSpace (request : Request) : state.step (env, .configForSpace request) = state := by
  refine request_of_complete hReads (fun key space hGet => ?_) hTracks.configs request ?_
  · exact hTracks.keyed key space (hTracks.spaces ▸ hGet)
  · rw [hTracks.spaces, hTracks.external]
    exact hTracks.complete _

omit hReads

theorem Tracks.step (hReads : input.1.Reads) :
    Tracks externalAccess (world.step externalAccess input) (state.step input) := by
  obtain ⟨env, event⟩ := input
  cases event with
  | put space requests => exact hTracks.put hReads space requests
  | delete key requests => exact hTracks.delete hReads key requests
  | configForSpace request =>
    rw [hTracks.step_configForSpace hReads request]
    exact hTracks

end Step

variable {state : State} {env : Env} {requests : List Request}

theorem handleAdd_refToSpace {mcc : MultiSpaceClient} {space : Space} (hReady : space.isReady = true) (key : String) :
    (mcc.handleAdd env space key).refToSpace = (mcc.cacheSpaceReference space key).refToSpace := by
  rw [handleAdd, if_pos hReady]
  dsimp only
  split <;> rfl

theorem handleAdd_refsExact_iff {mcc : MultiSpaceClient} {space : Space}
    (hExact : RefsExact mcc.refToSpace world.spaces) (hDist : Distinct (world.spaces.put space.key space))
    (hSeen : enqueues (world.spaces.get space.key) space = true) :
    RefsExact (mcc.handleAdd env space space.key).refToSpace (world.spaces.put space.key space) ↔
      world.RefKept (.put space requests) := by
  cases hReady : space.isReady with
  | false =>
    have hHandled : mcc.handleAdd env space space.key = mcc.handleDelete env space.key := by
      rw [handleAdd, if_neg (Bool.eq_false_iff.mp hReady)]
    rw [hHandled]
    refine iff_of_true (handleDelete_refsExact env hExact fun ref key => ?_) fun old _ _ hReady' => ?_
    · rw [refersTo_put_iff, hReady]
      split
      · next hKey => exact iff_of_false (fun hBoth => Bool.false_ne_true hBoth.1) fun hBoth => hBoth.1 hKey
      · next hKey => rw [and_iff_right hKey]
    · exact absurd (hReady.symm.trans hReady') Bool.false_ne_true
  | true =>
    rw [handleAdd_refToSpace hReady, cacheSpaceReference_refsExact_iff hReady hExact hDist]
    constructor
    · intro hKept old hOld hOldReady _
      cases hRef : old.ref with
      | none =>
        rw [hOld] at hSeen
        exact .inr ⟨by simpa [enqueues] using hSeen, rfl⟩
      | some ref => exact .inl (hKept ref ⟨old, hOld, hOldReady, hRef⟩)
    · rintro hKept ref ⟨old, hOld, hOldReady, hRef⟩
      rcases hKept old hOld hOldReady hReady with hSame | ⟨-, hNone⟩
      · exact hSame.trans hRef
      · cases hRef.symm.trans hNone

theorem refsExact_put_iff {space : Space} (hExact : RefsExact refToSpace world.spaces)
    (hQuiet : enqueues (world.spaces.get space.key) space = false) :
    RefsExact refToSpace (world.spaces.put space.key space) ↔ world.RefKept (.put space requests) := by
  cases hOld : world.spaces.get space.key with
  | none =>
    rw [hOld] at hQuiet
    cases hQuiet
  | some old =>
    rw [hOld] at hQuiet
    have hStatus : old.status = space.status := by simpa [enqueues] using hQuiet
    rw [put_refsExact_iff hOld hStatus hExact]
    constructor
    · intro hKept old' hOld' _ hReady
      cases hOld.symm.trans hOld'
      exact .inl (hKept hReady)
    · intro hKept hReady
      have hOldReady : old.isReady = true := by rwa [Space.isReady, hStatus]
      rcases hKept old hOld hOldReady hReady with hSame | ⟨hChanged, -⟩
      · exact hSame
      · exact absurd hStatus hChanged

theorem Tracks.refsExact_step_iff (hTracks : Tracks externalAccess world state) (hReads : input.1.Reads)
    (hExact : RefsExact state.mcc.refToSpace state.spaces)
    (hDist : Distinct (world.step externalAccess input).spaces) :
    RefsExact (state.step input).mcc.refToSpace (state.step input).spaces ↔ world.RefKept input.2 := by
  obtain ⟨env, event⟩ := input
  have hBefore := hTracks.spaces ▸ hExact
  cases event with
  | put space requests =>
    obtain ⟨configs, -, hStep⟩ := hTracks.step_put hReads space requests
    rw [hStep, hTracks.spaces]
    cases hSeen : enqueues (world.spaces.get space.key) space with
    | true => exact handleAdd_refsExact_iff hBefore hDist hSeen
    | false => exact refsExact_put_iff hBefore hSeen
  | delete key requests =>
    rw [hTracks.step_delete hReads key requests]
    refine iff_of_true ?_ trivial
    split
    · exact handleDelete_refsExact env hBefore fun ref key' => refersTo_delete_iff key ref key'
    · next hHas =>
      rw [hTracks.spaces, Bool.not_eq_true] at hHas
      rw [delete_of_not_has hHas]
      exact hBefore
  | configForSpace request =>
    rw [hTracks.step_configForSpace hReads request]
    exact iff_of_true hExact trivial

theorem Tracks.coherent_step_iff (hTracks : Tracks externalAccess world state)
    (hReads : input.1.Reads) (hCoherent : Coherent state)
    (hDist : Distinct (world.step externalAccess input).spaces) :
    Coherent (state.step input) ↔ world.Keeps externalAccess input := by
  have hRefs := hTracks.refsExact_step_iff hReads hCoherent.refs hDist
  have hConfigs := (hTracks.step hReads).configsReady_iff
  exact ⟨fun hAfter => ⟨hRefs.mp hAfter.refs, hConfigs.mp hAfter.configs⟩,
    fun hKeeps => ⟨hRefs.mpr hKeeps.1, hConfigs.mpr hKeeps.2⟩⟩

theorem Tracks.coherent_run_iff (hTracks : Tracks externalAccess world state)
    (hCoherent : Coherent state) {inputs : List (Env × Event)} (hReads : ∀ input ∈ inputs, input.1.Reads)
    (hDist : ∀ before after, inputs = before ++ after →
      Distinct (Run.run (World.step externalAccess) world before).spaces) :
    (∀ before after, inputs = before ++ after → Coherent (Run.run State.step state before)) ↔
      Guarded (World.step externalAccess) (World.Keeps externalAccess) world inputs := by
  induction inputs generalizing world state with
  | nil =>
    refine iff_of_true (fun before after hEq => ?_) trivial
    obtain ⟨rfl, -⟩ := append_eq_nil_iff.mp hEq.symm
    exact hCoherent
  | cons input inputs ih =>
    have hRead := hReads input mem_cons_self
    have hStep := hTracks.coherent_step_iff hRead hCoherent (hDist [input] inputs rfl)
    have hRest := fun hAfter : Coherent (state.step input) => ih (hTracks.step hRead) hAfter
      (fun input' hMem => hReads input' (mem_cons_of_mem _ hMem))
      (fun before after hEq => hDist (input :: before) after (congrArg (List.cons input) hEq))
    constructor
    · intro hAll
      have hAfter : Coherent (state.step input) := hAll [input] inputs rfl
      refine ⟨hStep.mp hAfter, (hRest hAfter).mp fun before after hEq => ?_⟩
      exact hAll (input :: before) after (congrArg (List.cons input) hEq)
    · rintro ⟨hKeeps, hGuarded⟩ before after hEq
      have hAfter := hStep.mpr hKeeps
      cases before with
      | nil => exact hCoherent
      | cons first before =>
        obtain ⟨rfl, hTail⟩ := List.cons.inj hEq
        exact (hRest hAfter).mpr hGuarded before after hTail

theorem coherent_start (externalAccess : Bool) : Coherent (.start externalAccess) := by
  refine ⟨fun ref key => iff_of_false (by simp [State.start]) ?_, fun entry config hGet => by cases hGet⟩
  rintro ⟨space, hGet, -⟩
  cases hGet

/-- The maps of the client are right after every event if and only if references are kept and a Space of which the
configuration was fetched stays ready. -/
theorem coherent_iff (externalAccess : Bool) (inputs : List (Env × Event)) (hReads : ∀ input ∈ inputs, input.1.Reads)
    (hDistinct : ∀ before after, inputs = before ++ after →
      Distinct (Run.run (World.step externalAccess) World.start before).spaces) :
    (∀ before after, inputs = before ++ after → Coherent (Run.run State.step (.start externalAccess) before)) ↔
      Guarded (World.step externalAccess) (World.Keeps externalAccess) World.start inputs :=
  (tracks_start externalAccess).coherent_run_iff (coherent_start externalAccess) hReads hDistinct

def calm : Env := ⟨.insertion, fun secretRef => .ok secretRef.name⟩

/-- A Space of the default provider with the given reference and phase. -/
def spaceWith (ref : String) (phase : SpaceManager.SpacePhase) : Space where
  ns := defaultProviderNs
  name := "s1"
  annotations := GoMap.put ∅ refAnnotationKey ref
  status := ⟨phase, some ⟨"s1-incluster", defaultProviderNs⟩, none⟩
  ns_valid := by decide
  name_valid := by decide

/-- A Space that is added when it is ready, and then updated. `ConfigForSpace` is called before the first processing. -/
def changes (space space' : Space) (requests : List Request) : List (Env × Event) :=
  [(calm, .put space requests), (calm, .put space' [])]

theorem distinct_of_single (key : String) (hSingle : ∀ key' space, spaces.get key' = some space → key' = key) :
    Distinct spaces := by
  rintro ref key' key'' ⟨space', hGet', -⟩ ⟨space'', hGet'', -⟩
  exact (hSingle key' space' hGet').trans (hSingle key'' space'' hGet'').symm

theorem calm_reads : calm.Reads := fun _ => ⟨_, rfl⟩

theorem coherent_changes_kept :
    (∀ input ∈ changes (spaceWith "r1" .ready) (spaceWith "r1" .ready) [⟨"s1", ""⟩], input.1.Reads) ∧
    ∀ before after, changes (spaceWith "r1" .ready) (spaceWith "r1" .ready) [⟨"s1", ""⟩] = before ++ after →
      Coherent (Run.run State.step (.start false) before) := by
  have hReads : ∀ input ∈ changes (spaceWith "r1" .ready) (spaceWith "r1" .ready) [⟨"s1", ""⟩], input.1.Reads := by
    simp [changes, calm_reads]
  have hFetched : ∀ world : World,
      world.fetched = Function.update (fun _ => none) "s1" (some "spaceprovider-default/s1") →
      ReadyAt world.spaces "spaceprovider-default/s1" → world.FetchedReady := by
    intro world hEq hReady name key hName
    rw [hEq, update_apply] at hName
    split at hName
    · cases hName
      exact hReady
    · cases hName
  refine ⟨hReads, (coherent_iff false _ hReads fun before after hEq => ?_).mpr ⟨⟨?_, ?_⟩, ⟨?_, ?_⟩, trivial⟩⟩
  · refine distinct_of_single "spaceprovider-default/s1" fun key space hGet => ?_
    have hMem := (get_eq_some_iff _ _ _).mp hGet
    rcases before with _ | ⟨first, _ | ⟨second, _ | ⟨third, before⟩⟩⟩
    · cases hMem
    · cases hEq
      exact (Prod.mk.inj (mem_singleton.mp hMem)).1
    · cases hEq
      exact (Prod.mk.inj (mem_singleton.mp hMem)).1
    · cases before <;> cases hEq
  · intro old hOld
    cases hOld
  · exact hFetched _ rfl ⟨spaceWith "r1" .ready, rfl, rfl⟩
  · intro old hOld _ _
    cases hOld
    exact .inl rfl
  · exact hFetched _ rfl ⟨spaceWith "r1" .ready, rfl, rfl⟩

/-- A reference that was changed stays in its map, and the configuration that was made for the call stays in the
other. -/
theorem not_coherent_changes : ¬ RefsExact (Run.run State.step (.start false)
        (changes (spaceWith "r1" .ready) (spaceWith "r2" .ready) [])).mcc.refToSpace
      (Run.run State.step (.start false) (changes (spaceWith "r1" .ready) (spaceWith "r2" .ready) [])).spaces ∧
    ¬ ConfigsReady (Run.run State.step (.start false)
        (changes (spaceWith "r1" .ready) (spaceWith "r1" .notReady) [⟨"s1", ""⟩])).mcc.configs
      (Run.run State.step (.start false)
        (changes (spaceWith "r1" .ready) (spaceWith "r1" .notReady) [⟨"s1", ""⟩])).spaces := by
  constructor
  · intro hExact
    obtain ⟨space, hGet, -, hRef⟩ := (hExact "r1" "spaceprovider-default/s1").mp (by decide)
    cases hGet
    revert hRef
    decide
  · intro hReady
    obtain ⟨space, hGet, hSpace⟩ := hReady "s1" ⟨"spaceprovider-default/s1", "s1-incluster"⟩ (by decide)
    cases hGet
    revert hSpace
    decide

end KubeStellar.MultiSpace
