import KubeStellar.Library.Run
import KubeStellar.WhereResolver.Reconcile

/-! # The where resolver of the placement translator

`pkg/placement/where-resolver.go`: it relays each `SinglePlacementSlice` of the provider space under the name that its
`EdgePlacement` has in the space of the consumer. A slice that is gone is a nil pointer.
-/

namespace KubeStellar.Translator

open List GoMap

open WhereResolver (SinglePlacementSlice)

open Kbuser (SpaceRelation)

abbrev ResolvedWhere := List SinglePlacementSlice

/-- `relayMap` without a transform: the cached map and the maps that its receivers accumulate. -/
structure RelayMap (K V : Type) where
  theMap : GoMap K V
  receivers : List (GoMap K V)

namespace RelayMap

variable {K V : Type} [DecidableEq K]

def put (rm : RelayMap K V) (key : K) (val : V) : RelayMap K V :=
  ⟨rm.theMap.put key val, rm.receivers.map fun receiver => receiver.put key val⟩

def delete (rm : RelayMap K V) (key : K) : RelayMap K V :=
  ⟨rm.theMap.delete key, rm.receivers.map fun receiver => receiver.delete key⟩

def All (P : GoMap K V → Prop) (rm : RelayMap K V) : Prop := ∀ m ∈ rm.theMap :: rm.receivers, P m

theorem all_put {P Q : GoMap K V → Prop} {rm : RelayMap K V} {key : K} {val : V}
    (hPut : ∀ m, P m → Q (m.put key val)) (hAll : rm.All P) : (rm.put key val).All Q := by
  intro m hMem
  rcases mem_cons.mp hMem with rfl | hRelayed
  · exact hPut _ (hAll _ mem_cons_self)
  · obtain ⟨receiver, hRecv, rfl⟩ := mem_map.mp hRelayed
    exact hPut _ (hAll _ (mem_cons_of_mem _ hRecv))

end RelayMap

variable (kb : SpaceRelation)

/-- The resolutions afterwards, and whether the item is done. -/
def process (lister : String → Lookup SinglePlacementSlice) (resolutions : RelayMap ExternalName ResolvedWhere)
    (epName : String) : Except Kbuser.Panic (RelayMap ExternalName ResolvedWhere × Bool) :=
  let relay (sps : Option SinglePlacementSlice) := do
    match ← Kbuser.analyzeClusterScopedObject (sps.map fun sps => sps.objectMeta) with
    | .error _ => return (resolutions, true)
    | .ok (spsOriginalName, kbSpaceID) =>
      let spaceID := kb.spaceIDFromKubeBind kbSpaceID
      if spaceID = "" then return (resolutions, false)
      else
        let objName : ExternalName := ⟨spaceID, spsOriginalName⟩
        -- by now the error is that of the analysis
        let err : Option Kbuser.AnalysisError := none
        if err.isNone then return (resolutions.put objName sps.toList, true)
        else return (resolutions.delete objName, true)
  match lister epName with
  | .failed => .ok (resolutions, true)
  | .found sps => relay (some sps)
  | .notFound => relay none

/-- The slices in the cache of the informer, and the resolutions. -/
structure State where
  slices : GoMap String SinglePlacementSlice
  resolutions : RelayMap ExternalName ResolvedWhere

def newWhereResolver (receivers : Nat) : State := ⟨∅, ⟨∅, List.replicate receivers ∅⟩⟩

/-- A creation or update of a slice, or the deletion of the slice of a name. -/
inductive Event where
  | upsert (sps : SinglePlacementSlice)
  | delete (name : String)

def Event.name : Event → String
  | upsert sps => sps.objectMeta.name
  | delete name => name

variable (slices : GoMap String SinglePlacementSlice)

def cacheAfter : Event → GoMap String SinglePlacementSlice
  | .upsert sps => slices.put sps.objectMeta.name sps
  | .delete name => slices.delete name

def listerOf (name : String) : Lookup SinglePlacementSlice :=
  match slices.get name with
  | none => .notFound
  | some sps => .found sps

def State.handle (wr : State) (event : Event) : Except Kbuser.Panic (State × Bool) :=
  let slices := cacheAfter wr.slices event
  match process kb (listerOf slices) wr.resolutions event.name with
  | .error panic => .error panic
  | .ok (resolutions, done) => .ok (⟨slices, resolutions⟩, done)

section Names

/-- The slice is that of the `EdgePlacement` of that name in its space. -/
def Names (sps : SinglePlacementSlice) (ref : ExternalName) : Prop :=
  ∃ kbSpaceID, Kbuser.analyzeClusterScopedObject (some sps.objectMeta) = .ok (.ok (ref.name, kbSpaceID)) ∧
    kb.spaceIDFromKubeBind kbSpaceID = ref.cluster ∧ ref.cluster ≠ ""

/-- The map is that of the `EdgePlacement`s to their current slices. -/
def Current (m : GoMap ExternalName ResolvedWhere) : Prop :=
  ∀ ref resolvedWhere, m.get ref = some resolvedWhere ↔
    ∃ sps, slices.get sps.objectMeta.name = some sps ∧ Names kb sps ref ∧ resolvedWhere = [sps]

variable {kb}

theorem Names.unique {sps : SinglePlacementSlice} {ref ref' : ExternalName} (hRef : Names kb sps ref)
    (hRef' : Names kb sps ref') : ref = ref' := by
  obtain ⟨id, hIds, hSpace, _⟩ := hRef
  obtain ⟨id', hIds', hSpace', _⟩ := hRef'
  rw [hIds] at hIds'
  simp only [Except.ok.injEq, Prod.mk.injEq] at hIds'
  obtain ⟨cluster, name⟩ := ref
  obtain ⟨cluster', name'⟩ := ref'
  simp only at hIds' hSpace hSpace'
  rw [hIds'.1, ← hSpace, ← hSpace', hIds'.2]

theorem Names.sliceName_eq {sps sps' : SinglePlacementSlice} {ref : ExternalName} (hRef : Names kb sps ref)
    (hRef' : Names kb sps' ref) : sps.objectMeta.name = sps'.objectMeta.name := by
  obtain ⟨id, hIds, hSpace, hKnown⟩ := hRef
  obtain ⟨id', hIds', hSpace', _⟩ := hRef'
  have hID : id = id' := kb.oneToOne (hSpace.trans hSpace'.symm) (hSpace ▸ hKnown)
  rw [Kbuser.name_of_analyzeClusterScopedObject hIds, Kbuser.name_of_analyzeClusterScopedObject hIds', hID]

end Names

variable {slices : GoMap String SinglePlacementSlice} {m : GoMap ExternalName ResolvedWhere}

section Handle

variable {kb} {wr : State} {sps : SinglePlacementSlice} {ref : ExternalName}

theorem handle_upsert (hRef : Names kb sps ref) :
    wr.handle kb (.upsert sps) =
      .ok (⟨wr.slices.put sps.objectMeta.name sps, wr.resolutions.put ref [sps]⟩, true) := by
  obtain ⟨id, hIds, hSpace, hKnown⟩ := hRef
  have hCached : listerOf (cacheAfter wr.slices (.upsert sps)) sps.objectMeta.name = .found sps := by
    simp [listerOf, cacheAfter]
  simp only [State.handle, Event.name, process, hCached, Option.map_some, hIds]
  simp [bind, Except.bind, pure, Except.pure, hSpace, hKnown, cacheAfter]

theorem handle_delete (name : String) : wr.handle kb (.delete name) = .error .nilDereference := by
  have hGone : listerOf (cacheAfter wr.slices (.delete name)) name = .notFound := by
    simp [listerOf, cacheAfter]
  simp only [State.handle, Event.name, process, hGone]
  rfl

/-- No slice is deleted, and no slice is given to another `EdgePlacement`. -/
def Keeps (kb : SpaceRelation) (slices : GoMap String SinglePlacementSlice) : Event → Prop
  | .upsert sps => ∀ old ref, slices.get sps.objectMeta.name = some old → Names kb old ref → Names kb sps ref
  | .delete _ => False

/-- The slice of an event is that of some `EdgePlacement`. -/
def Resolvable (kb : SpaceRelation) : Event → Prop
  | .upsert sps => ∃ ref, Names kb sps ref
  | .delete _ => True

def Keyed (slices : GoMap String SinglePlacementSlice) : Prop :=
  ∀ name sps, slices.get name = some sps → sps.objectMeta.name = name

theorem Keyed.put (hKeyed : Keyed slices) (sps : SinglePlacementSlice) :
    Keyed (slices.put sps.objectMeta.name sps) :=
  forall_get_put hKeyed rfl

theorem Current.put (hCurrent : Current kb slices m)
    (hRef : Names kb sps ref) (hKeeps : Keeps kb slices (.upsert sps)) :
    Current kb (slices.put sps.objectMeta.name sps) (m.put ref [sps]) := by
  intro ref' resolvedWhere
  rw [get_put]
  by_cases hEq : ref' = ref
  · subst hEq
    rw [if_pos rfl]
    constructor
    · intro h
      cases h
      exact ⟨sps, by simp, hRef, rfl⟩
    · rintro ⟨found, hGet, hNames, rfl⟩
      rw [hNames.sliceName_eq hRef, get_put, if_pos rfl] at hGet
      cases hGet
      rfl
  · rw [if_neg hEq, hCurrent]
    refine exists_congr fun found => ?_
    by_cases hName : found.objectMeta.name = sps.objectMeta.name
    · -- the slice that is replaced named the same `EdgePlacement`, which is another one
      rw [get_put, if_pos hName, hName]
      constructor
      · rintro ⟨hGet, hNames, _⟩
        exact absurd ((hKeeps found ref' hGet hNames).unique hRef) hEq
      · rintro ⟨hGet, hNames, _⟩
        cases hGet
        exact absurd (hNames.unique hRef) hEq
    · rw [get_put, if_neg hName]

theorem keeps_of_current_put (hKeyed : Keyed slices)
    (hCurrent : Current kb slices m) (hRef : Names kb sps ref)
    (hAfter : Current kb (slices.put sps.objectMeta.name sps) (m.put ref [sps])) : Keeps kb slices (.upsert sps) := by
  intro old ref' hOld hNames
  by_contra hMoved
  have hName := hKeyed _ _ hOld
  have hNe : ref' ≠ ref := fun h => hMoved (h ▸ hRef)
  have hStale : m.get ref' = some [old] := (hCurrent ref' [old]).mpr ⟨old, hName ▸ hOld, hNames, rfl⟩
  obtain ⟨found, hGet, hFound, hEq⟩ := (hAfter ref' [old]).mp (by rw [get_put, if_neg hNe, hStale])
  rw [hFound.sliceName_eq hNames, hName, get_put, if_pos rfl] at hGet
  cases hGet
  exact hMoved hFound

end Handle

/-- The processing never panics, and in every state reached the maps are those of the current slices. -/
def Tracks : State → List Event → Prop
  | wr, [] => wr.resolutions.All (Current kb wr.slices)
  | wr, event :: events => wr.resolutions.All (Current kb wr.slices) ∧
    ∃ wr', wr.handle kb event = .ok (wr', true) ∧ Tracks wr' events

theorem tracks_iff_of_current (events : List Event) (hRes : ∀ event ∈ events, Resolvable kb event) (wr : State)
    (hKeyed : Keyed wr.slices) (hCurrent : wr.resolutions.All (Current kb wr.slices)) :
    Tracks kb wr events ↔ Run.Guarded cacheAfter (Keeps kb) wr.slices events := by
  induction events generalizing wr with
  | nil => exact iff_of_true hCurrent trivial
  | cons event events ih =>
    have hRest := fun wr' hKeyed' hCurrent' => ih (fun e hMem => hRes e (mem_cons_of_mem _ hMem)) wr' hKeyed' hCurrent'
    cases event with
    | delete name =>
      refine iff_of_false ?_ fun hGuarded => hGuarded.1
      rintro ⟨_, wr', hHandle, _⟩
      rw [handle_delete] at hHandle
      cases hHandle
    | upsert sps =>
      obtain ⟨ref, hRef⟩ := hRes (.upsert sps) mem_cons_self
      have hHandle := @handle_upsert kb wr sps ref hRef
      constructor
      · rintro ⟨_, wr', hStep, hTracks⟩
        rw [hHandle] at hStep
        cases hStep
        have hAfter : RelayMap.All (Current kb (wr.slices.put sps.objectMeta.name sps))
            (wr.resolutions.put ref [sps]) := by
          cases events with
          | nil => exact hTracks
          | cons _ _ => exact hTracks.1
        have hKeeps : Keeps kb wr.slices (.upsert sps) := keeps_of_current_put hKeyed
          (hCurrent _ mem_cons_self) hRef (hAfter _ mem_cons_self)
        exact ⟨hKeeps, (hRest _ (hKeyed.put sps) hAfter).mp hTracks⟩
      · rintro ⟨hKeeps, hGuarded⟩
        have hAfter := RelayMap.all_put (fun _ hMap => Current.put hMap hRef hKeeps) hCurrent
        exact ⟨hCurrent, _, hHandle, (hRest _ (hKeyed.put sps) hAfter).mpr hGuarded⟩

/-- The resolver tracks the slices exactly when none of them is deleted or given to another `EdgePlacement`. -/
theorem slices_tracked_iff (receivers : Nat) (events : List Event)
    (hResolvable : ∀ event ∈ events, Resolvable kb event) :
    Tracks kb (newWhereResolver receivers) events ↔ Run.Guarded cacheAfter (Keeps kb) ∅ events := by
  refine tracks_iff_of_current kb events hResolvable _ (fun _ _ hGet => by cases hGet) ?_
  intro m hMem
  have hEmpty : m = ∅ := by
    rcases mem_cons.mp hMem with rfl | hReceiver
    · rfl
    · exact eq_of_mem_replicate hReceiver
  rw [hEmpty]
  intro ref resolvedWhere
  refine iff_of_false (by simp) ?_
  rintro ⟨sps, hGet, _⟩
  cases hGet

/-- A space that is known by its kube-bind id. -/
def sameIDs : SpaceRelation := .ofEvents [.add (Kbuser.mappingOf "kb1" "kb1")]

variable (destinations : List SinglePlacement)

/-- The slice of `EdgePlacement` `ep1` of space `kb1`. -/
def ep1Slice : SinglePlacementSlice :=
  ⟨⟨"kb1-ep1", "", GoMap.ofList [(Kbuser.clusterNamespaceAnnotation, "kb1")], ∅⟩, destinations⟩

theorem ep1Slice_names : Names sameIDs (ep1Slice destinations) ⟨"kb1", "ep1"⟩ :=
  ⟨"kb1", Kbuser.analyzeClusterScopedObject_compose _ "kb1" "ep1" (by decide) rfl rfl rfl, rfl, by decide⟩

def ep1Updates : List Event :=
  [.upsert (ep1Slice []), .upsert (ep1Slice [⟨"inventory1", "location1", "target1", "uid1"⟩])]

theorem slices_tracked_ep1Updates :
    (∀ event ∈ ep1Updates, Resolvable sameIDs event) ∧ Tracks sameIDs (newWhereResolver 1) ep1Updates := by
  have hResolvable : ∀ event ∈ ep1Updates, Resolvable sameIDs event := by
    simp only [ep1Updates, forall_mem_cons]
    exact ⟨⟨_, ep1Slice_names _⟩, ⟨_, ep1Slice_names _⟩, fun _ hMem => absurd hMem not_mem_nil⟩
  refine ⟨hResolvable, (slices_tracked_iff sameIDs 1 ep1Updates hResolvable).mpr ⟨?_, ?_, trivial⟩⟩
  · intro old ref hOld
    cases hOld
  · intro old ref hOld hNames
    have hFirst : old = ep1Slice [] := by
      simpa [cacheAfter, ep1Slice] using hOld.symm
    rw [hFirst] at hNames
    rw [hNames.unique (ep1Slice_names [])]
    exact ep1Slice_names _

/-- The processing of the deletion of a slice panics. -/
theorem slices_not_tracked_deletion :
    (∀ event ∈ [Event.upsert (ep1Slice []), .delete "kb1-ep1"], Resolvable sameIDs event) ∧
      ¬ Tracks sameIDs (newWhereResolver 1) [.upsert (ep1Slice []), .delete "kb1-ep1"] := by
  constructor
  · simp only [forall_mem_cons]
    exact ⟨⟨_, ep1Slice_names _⟩, trivial, fun _ hMem => absurd hMem not_mem_nil⟩
  · rintro ⟨_, wr, _, _, wr', hPanic, _⟩
    rw [handle_delete] at hPanic
    cases hPanic

end KubeStellar.Translator
