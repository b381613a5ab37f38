import KubeStellar.Api

/-! # The workload projector

The indices of `pkg/placement/workload-projector.go`, the writes of a transaction to them and the end of the
transaction, which enqueues what has to be looked at again. The distributions in the record of a destination are those
of the index for syncing at it, and likewise for a source, so the records hold only the rest. An object is listed in the
relations of a SyncerConfig if it is distributed to the destination and its resource goes to the edge, in whatever order
the indices are visited.
-/

namespace KubeStellar.WorkloadProjector

section

structure DynamicDuo where
  apiVersion : String
  namespaced : Bool

structure PerSource where
  preInformers : GoMap GroupResource DynamicDuo

structure PerDestination where
  dynamicClient : Bool
  preInformers : GoMap GroupResource DynamicDuo

/-- `ConfigForSpace` is assumed to succeed for the space of a source: otherwise `NewForConfig` gets a nil configuration
and panics. -/
def newPerSourceLocked : PerSource := ⟨∅⟩

def newPerDestinationLocked : PerDestination := ⟨false, ∅⟩

structure ScopeMaps (Obj : Type) where
  distributionsForProj : FactoredMap String (GroupResource × Obj × SinglePlacement) DistributionBits
  modesForProj : FactoredMap GroupResource SinglePlacement ProjectionModeVal
  distributionsForSync : FactoredMap SinglePlacement ((GroupResource × Obj) × String) DistributionBits
  modesForSync : FactoredMap SinglePlacement GroupResource ProjectionModeVal

structure State where
  mbwsNameToSP : GoMap String SinglePlacement
  perSource : GoMap String PerSource
  perDestination : GoMap SinglePlacement PerDestination
  ns : ScopeMaps NamespacedName
  nns : ScopeMaps ObjectName
  upsyncs : FactoredMap SinglePlacement UpsyncSet Unit

structure Records where
  perSource : GoMap String PerSource
  perDestination : GoMap SinglePlacement PerDestination
  changedDestinations : MapSet SinglePlacement
  changedSources : MapSet String

/-- `setMutex.Remove`, which calls `Add` on the inner set. -/
def setMutexRemove {Elt : Type} [DecidableEq Elt] (set : MapSet Elt) (elt : Elt) : MapSet Elt := set.add elt

def Records.noteModeWrite (records : Records) (add : Bool) (destination : SinglePlacement) : Records :=
  if add then { records with changedDestinations := records.changedDestinations.add destination }
  else { records with changedDestinations := setMutexRemove records.changedDestinations destination }

/-- The two `recordPart` of a distribution, which do the same for `Add` and `Remove`. -/
def Records.recordParts (records : Records) (destination : SinglePlacement) (source : String) : Records :=
  { records with
    changedDestinations := records.changedDestinations.add destination
    changedSources := records.changedSources.add source }

/-- `MapGetAdd` on the records of destinations. -/
def Records.addDestination (records : Records) (destination : SinglePlacement) : Records :=
  if records.perDestination.has destination then records
  else { records with
    perDestination := records.perDestination.put destination newPerDestinationLocked }

def Records.addSource (records : Records) (source : String) : Records :=
  if records.perSource.has source then records
  else { records with perSource := records.perSource.put source newPerSourceLocked }

structure Distribution (Obj : Type) where
  destination : SinglePlacement
  groupResource : GroupResource
  obj : Obj
  source : String

def factorNamespacedDistributionTuple (whole : NamespacedDistributionTuple) : Distribution NamespacedName :=
  ⟨whole.1.destination, whole.1.groupResource, (whole.2.2.1, whole.2.2.2), whole.2.1⟩

def factorNonNamespacedDistributionTuple (whole : NonNamespacedDistributionTuple) : Distribution ObjectName :=
  ⟨whole.1.destination, whole.1.groupResource, whole.2.name, whole.2.cluster⟩

section Scope

variable {Obj : Type} [DecidableEq Obj] (maps : ScopeMaps Obj)

def putDistribution (records : Records) (dist : Distribution Obj)
    (bits : DistributionBits) : ScopeMaps Obj × Records :=
  let records := records.recordParts dist.destination dist.source
  -- the inner map of a new outer key lives in a record
  let records := if (maps.distributionsForSync.index dist.destination).isSome then records
    else records.addDestination dist.destination
  let records := if (maps.distributionsForProj.index dist.source).isSome then records
    else records.addSource dist.source
  ({ maps with
    distributionsForSync := maps.distributionsForSync.put dist.destination
      ((dist.groupResource, dist.obj), dist.source) bits
    distributionsForProj := maps.distributionsForProj.put dist.source
      (dist.groupResource, dist.obj, dist.destination) bits }, records)

def deleteDistribution (records : Records) (dist : Distribution Obj) : ScopeMaps Obj × Records :=
  ({ maps with
    distributionsForSync := maps.distributionsForSync.delete dist.destination
      ((dist.groupResource, dist.obj), dist.source)
    distributionsForProj := maps.distributionsForProj.delete dist.source
      (dist.groupResource, dist.obj, dist.destination) },
    records.recordParts dist.destination dist.source)

def writeDistribution {Tuple : Type} (factor : Tuple → Distribution Obj) (maps : ScopeMaps Obj)
    (records : Records) : MapWrite Tuple DistributionBits → ScopeMaps Obj × Records
  | .put tuple bits => putDistribution maps records (factor tuple) bits
  | .delete tuple => deleteDistribution maps records (factor tuple)

def writeMode (records : Records) :
    MapWrite ProjectionModeKey ProjectionModeVal → ScopeMaps Obj × Records
  | .put key val =>
    let created := (maps.modesForSync.index key.destination).isNone
    ({ maps with
      modesForSync := maps.modesForSync.put key.destination key.groupResource val
      modesForProj := maps.modesForProj.put key.groupResource key.destination val },
      if created then records.noteModeWrite true key.destination else records)
  | .delete key =>
    let modesForSync := maps.modesForSync.delete key.destination key.groupResource
    let deleted := (maps.modesForSync.index key.destination).isSome && (modesForSync.index key.destination).isNone
    ({ maps with
      modesForSync := modesForSync
      modesForProj := maps.modesForProj.delete key.groupResource key.destination },
      if deleted then records.noteModeWrite false key.destination else records)

end Scope

structure Transaction where
  ns : ScopeMaps NamespacedName
  nns : ScopeMaps ObjectName
  upsyncs : FactoredMap SinglePlacement UpsyncSet Unit
  records : Records

def Transaction.apply (tx : Transaction) : SectionWrite → Transaction
  | .namespacedObjectDistributions write =>
    let (ns, records) := writeDistribution factorNamespacedDistributionTuple tx.ns tx.records write
    { tx with ns := ns, records := records }
  | .namespacedModes write =>
    let (ns, records) := writeMode tx.ns tx.records write
    { tx with ns := ns, records := records }
  | .nonNamespacedObjectDistributions write =>
    let (nns, records) := writeDistribution factorNonNamespacedDistributionTuple tx.nns tx.records write
    { tx with nns := nns, records := records }
  | .nonNamespacedModes write =>
    let (nns, records) := writeMode tx.nns tx.records write
    { tx with nns := nns, records := records }
  | .upsyncs (.add pair) => { tx with upsyncs := tx.upsyncs.put pair.1 pair.2 () }
  | .upsyncs (.remove pair) => { tx with upsyncs := tx.upsyncs.delete pair.1 pair.2 }

/-- The state that `NewWorkloadProjector` makes. -/
def newWorkloadProjector : State where
  mbwsNameToSP := ∅
  perSource := ∅
  perDestination := ∅
  ns := ⟨∅, ∅, ∅, ∅⟩
  nns := ⟨∅, ∅, ∅, ∅⟩
  upsyncs := ∅

def State.begin (wp : State) : Transaction :=
  ⟨wp.ns, wp.nns, wp.upsyncs, ⟨wp.perSource, wp.perDestination, ∅, ∅⟩⟩

def SyncerConfigName : ObjectName := "the-one"

def noNamespace : String := "no NS"

def nsGR : GroupResource := ⟨"", "namespaces"⟩

inductive QueueItem where
  | syncerConfigRef (mbwsName : String) (name : ObjectName)
  | sourceObjectRef (source : String) (groupResource : GroupResource) (ns name : String)
  | destinationObjectRef (destination : SinglePlacement) (groupResource : GroupResource) (ns name : String)
deriving DecidableEq

/-- What a transaction reads from informers and client libraries. -/
structure Env where
  ord : RangeOrder
  resourceModes : ResourceModes
  sourceStore : String → GroupResource → List NamespacedName
  destinationStore : SinglePlacement → GroupResource → List NamespacedName
  destinationClient : SinglePlacement → Bool

inductive Panic where
  | nilDereference

def firsts {K L V : Type} [DecidableEq K] (ord : RangeOrder) (inner : GoMap (K × L) V) : List K :=
  (ord.visit (MapSet.addAll ∅ ((ord.visit inner).map fun e => e.1.1))).map Prod.fst

variable (env : Env)

def resyncSource (source : String) (wps : PerSource) : List QueueItem :=
  (env.ord.visit wps.preInformers).flatMap fun tup =>
    (env.sourceStore source tup.1).map fun nn =>
      .sourceObjectRef source tup.1 (if tup.2.namespaced then nn.1 else noNamespace) nn.2

def PerSource.getDynamicDuoLocked (wps : PerSource) (gr : GroupResource) (apiVersion : String)
    (namespaced : Bool) : PerSource :=
  if wps.preInformers.has gr then wps
  else { wps with preInformers := wps.preInformers.put gr ⟨apiVersion, namespaced⟩ }

def informSource {Obj : Type} (maps : ScopeMaps Obj) (namespaced : Bool) (source : String)
    (wps : PerSource) : PerSource :=
  (firsts env.ord ((maps.distributionsForProj.index source).getD ∅)).foldl (fun wps gr =>
    match maps.modesForProj.index gr with
    | none => wps
    | some problem => wps.getDynamicDuoLocked gr (pickThe1 env.ord problem).apiVersion namespaced) wps

def finishSource (tx : Transaction) (perSource : GoMap String PerSource) (source : String) :
    GoMap String PerSource × List QueueItem :=
  match perSource.get source with
  | none => (perSource, [])
  | some wps =>
    (perSource.put source (informSource env tx.nns false source (informSource env tx.ns true source wps)),
      resyncSource env source wps)

def finishSources (tx : Transaction) : GoMap String PerSource × List QueueItem :=
  ((env.ord.visit tx.records.changedSources).map Prod.fst).foldl (fun acc source =>
    let (perSource, items) := finishSource env tx acc.1 source
    (perSource, acc.2 ++ items)) (tx.records.perSource, [])

variable (destination : SinglePlacement)

def resyncDestination (wpd : PerDestination) : List QueueItem :=
  (env.ord.visit wpd.preInformers).flatMap fun tup =>
    if tup.1 = nsGR then []
    else (env.destinationStore destination tup.1).map fun nn =>
      .destinationObjectRef destination tup.1 (if tup.2.namespaced then nn.1 else noNamespace) nn.2

def PerDestination.getDynamicDuoLocked (wpd : PerDestination)
    (gr : GroupResource) (apiVersion : String) (namespaced : Bool) : PerDestination :=
  if !wpd.dynamicClient && !env.destinationClient destination then wpd
  else
    let wpd := { wpd with dynamicClient := true }
    if wpd.preInformers.has gr then wpd
    else { wpd with preInformers := wpd.preInformers.put gr ⟨apiVersion, namespaced⟩ }

/-- The informers for the resources of one scope that go to a destination. Without any mode of the scope
the map of modes is nil. -/
def informDestination {Obj : Type} [DecidableEq Obj] (maps : ScopeMaps Obj) (namespaced : Bool)
    (destination : SinglePlacement) (wpd : PerDestination) : Except Panic PerDestination :=
  (firsts env.ord ((maps.distributionsForSync.index destination).getD ∅)).foldlM (fun wpd obj =>
    match maps.modesForSync.index destination with
    | none => .error .nilDereference
    | some modes =>
      match modes.get obj.1 with
      | none => .ok wpd
      | some pmv => .ok (wpd.getDynamicDuoLocked env destination obj.1 pmv.apiVersion namespaced)) wpd

structure Progress where
  mbwsNameToSP : GoMap String SinglePlacement
  perDestination : GoMap SinglePlacement PerDestination
  items : List QueueItem

def finishDestination (tx : Transaction) (progress : Progress) (destination : SinglePlacement) :
    Except Panic Progress := do
  let mbwsName := SPMailboxWorkspaceName destination
  let progress := { progress with mbwsNameToSP := progress.mbwsNameToSP.put mbwsName destination }
  match progress.perDestination.get destination with
  | none => return progress
  | some wpd =>
    let items := resyncDestination env destination wpd ++ [.syncerConfigRef mbwsName SyncerConfigName]
    let wpd ← informDestination env tx.ns true destination wpd
    let wpd ← informDestination env tx.nns false destination wpd
    return { progress with
      perDestination := progress.perDestination.put destination wpd
      items := progress.items ++ items }

/-- The state afterwards and what has been enqueued. -/
def transact (env : Env) (wp : State) (writes : List SectionWrite) : Except Panic (State × List QueueItem) := do
  let tx := writes.foldl Transaction.apply wp.begin
  let (perSource, items) := finishSources env tx
  let progress ← ((env.ord.visit tx.records.changedDestinations).map Prod.fst).foldlM
    (finishDestination env tx) ⟨wp.mbwsNameToSP, tx.records.perDestination, items⟩
  return (⟨progress.mbwsNameToSP, perSource, progress.perDestination, tx.ns, tx.nns, tx.upsyncs⟩,
    progress.items)

/-- A relational representation of `SyncerConfigSpec`. -/
structure SyncerConfigSpecRelations where
  namespacedObjects : GoMap GroupResource (ProjectionModeVal × MapSet NamespacedName)
  clusterScopedObjects : GoMap GroupResource (ProjectionModeVal × MapSet ObjectName)
  upsyncs : MapSet UpsyncSet

def scopeObjects {Obj : Type} [DecidableEq Obj] (env : Env) (maps : ScopeMaps Obj)
    (destination : SinglePlacement) : GoMap GroupResource (ProjectionModeVal × MapSet Obj) :=
  match maps.distributionsForSync.index destination with
  | none => ∅
  | some dists =>
    let modes := (maps.modesForSync.index destination).getD ∅
    (firsts env.ord dists).foldl (fun ans gri =>
      if !(env.resourceModes gri.1).toEdge then ans
      else
        let nso := (ans.get gri.1).getD (modes.getD gri.1 ⟨""⟩, ∅)
        ans.put gri.1 (nso.1, nso.2.add gri.2)) ∅

def syncerConfigRelations (env : Env) (wp : State) (destination : SinglePlacement) : SyncerConfigSpecRelations where
  namespacedObjects := scopeObjects env wp.ns destination
  clusterScopedObjects := scopeObjects env wp.nns destination
  upsyncs := (wp.upsyncs.index destination).getD ∅

end

open List

theorem mem_firsts_iff {K L V : Type} [DecidableEq K] [DecidableEq L] (ord : RangeOrder)
    (inner : GoMap (K × L) V) (k : K) : k ∈ firsts ord inner ↔ ∃ l, inner.get (k, l) ≠ none := by
  rw [firsts, RangeOrder.mem_visit_keys_iff, MapSet.has_addAll_empty_iff, mem_map]
  constructor
  · rintro ⟨⟨⟨k', l⟩, v⟩, hMem, rfl⟩
    rw [RangeOrder.mem_visit_iff] at hMem
    exact ⟨l, by simp [hMem]⟩
  · rintro ⟨l, hGet⟩
    obtain ⟨v, hv⟩ := Option.ne_none_iff_exists'.mp hGet
    exact ⟨((k, l), v), (RangeOrder.mem_visit_iff _ _ _ _).mpr hv, rfl⟩

theorem firsts_index_ne_nil_iff {A K L V : Type} [DecidableEq A] [DecidableEq K] [DecidableEq L]
    (ord : RangeOrder) (m : FactoredMap A (K × L) V) (a : A) :
    firsts ord ((m.index a).getD ∅) ≠ [] ↔ m.index a ≠ none := by
  cases hIndex : m.index a with
  | none =>
    have hNone : ∀ k, k ∉ firsts ord (∅ : GoMap (K × L) V) := by
      intro k hMem
      obtain ⟨l, hGet⟩ := (mem_firsts_iff _ _ _).mp hMem
      exact hGet rfl
    simpa using eq_nil_iff_forall_not_mem.mpr hNone
  | some inner =>
    refine iff_of_true ?_ (Option.some_ne_none _)
    have hFull : ¬ ∀ e, inner.get e = none := by
      rw [← GoMap.isEmpty_iff, FactoredMap.inner_isEmpty hIndex]
      exact Bool.false_ne_true
    push Not at hFull
    obtain ⟨⟨k, l⟩, hGet⟩ := hFull
    exact ne_nil_of_mem ((mem_firsts_iff _ _ k).mpr ⟨l, hGet⟩)

variable {Obj : Type} [DecidableEq Obj] {env : Env} {mode : GroupResource → ProjectionModeVal}

/-- The version with which an object is listed. -/
def entry (objects : GoMap GroupResource (ProjectionModeVal × MapSet Obj)) (gr : GroupResource) (obj : Obj) :
    Option ProjectionModeVal :=
  (objects.get gr).bind fun nso => if nso.2.has obj then some nso.1 else none

def modeOf (maps : ScopeMaps Obj) (destination : SinglePlacement) (gr : GroupResource) : ProjectionModeVal :=
  (maps.modesForSync.get destination gr).getD ⟨""⟩

def Distributed (maps : ScopeMaps Obj) (destination : SinglePlacement) (gr : GroupResource) (obj : Obj) : Prop :=
  ∃ source, maps.distributionsForSync.get destination ((gr, obj), source) ≠ none

/-- One round of the loop of `syncerConfigRelations`. -/
def listObject (env : Env) (mode : GroupResource → ProjectionModeVal)
    (ans : GoMap GroupResource (ProjectionModeVal × MapSet Obj)) (gri : GroupResource × Obj) :
    GoMap GroupResource (ProjectionModeVal × MapSet Obj) :=
  if !(env.resourceModes gri.1).toEdge then ans
  else
    let nso := (ans.get gri.1).getD (mode gri.1, ∅)
    ans.put gri.1 (nso.1, nso.2.add gri.2)

variable {ans : GoMap GroupResource (ProjectionModeVal × MapSet Obj)}

theorem entry_listObject
    (hAns : ∀ gr nso, ans.get gr = some nso → nso.1 = mode gr) (gri : GroupResource × Obj) (gr : GroupResource)
    (obj : Obj) (pmv : ProjectionModeVal) :
    entry (listObject env mode ans gri) gr obj = some pmv ↔ entry ans gr obj = some pmv ∨
      (gr, obj) = gri ∧ (env.resourceModes gr).toEdge = true ∧ pmv = mode gr := by
  obtain ⟨gr', obj'⟩ := gri
  rw [listObject, Prod.mk.injEq]
  split
  · rename_i hEdge
    constructor
    · exact .inl
    · rintro (h | ⟨⟨rfl, -⟩, hToEdge, -⟩)
      · exact h
      · simp [hToEdge] at hEdge
  · rename_i hEdge
    simp only [entry, GoMap.get_put]
    by_cases hGR : gr = gr'
    · subst hGR
      have hToEdge : (env.resourceModes gr).toEdge = true := by simpa using hEdge
      cases hGet : ans.get gr with
      | none => by_cases hObj : obj = obj' <;> simp [MapSet.add, GoMap.has, hObj, hToEdge, @eq_comm _ pmv]
      | some nso =>
        have hMode := hAns gr nso hGet
        by_cases hObj : obj = obj'
        · by_cases hHas : nso.2.has obj' <;> simp [MapSet.add, GoMap.has, hObj, hToEdge, hMode, @eq_comm _ pmv]
        · cases hHas : GoMap.get nso.2 obj <;> simp [MapSet.add, GoMap.has, hObj, hHas]
    · simp [hGR]

theorem listObject_mode
    (hAns : ∀ gr nso, ans.get gr = some nso → nso.1 = mode gr) (gri : GroupResource × Obj) (gr : GroupResource)
    (nso : ProjectionModeVal × MapSet Obj) (hGet : (listObject env mode ans gri).get gr = some nso) :
    nso.1 = mode gr := by
  rw [listObject] at hGet
  split at hGet
  · exact hAns gr nso hGet
  · refine GoMap.forall_get_put (P := fun gr nso => nso.1 = mode gr) hAns ?_ gr nso hGet
    cases hOld : ans.get gri.1 with
    | none => rfl
    | some nso => exact hAns gri.1 nso hOld

theorem entry_foldl_listObject
    (objs : List (GroupResource × Obj)) {ans : GoMap GroupResource (ProjectionModeVal × MapSet Obj)}
    (hAns : ∀ gr nso, ans.get gr = some nso → nso.1 = mode gr) (gr : GroupResource) (obj : Obj)
    (pmv : ProjectionModeVal) :
    entry (objs.foldl (listObject env mode) ans) gr obj = some pmv ↔ entry ans gr obj = some pmv ∨
      (gr, obj) ∈ objs ∧ (env.resourceModes gr).toEdge = true ∧ pmv = mode gr := by
  induction objs generalizing ans with
  | nil => simp
  | cons gri rest ih =>
    rw [foldl_cons, ih (listObject_mode hAns gri), entry_listObject hAns, mem_cons, or_assoc, or_and_right]

theorem entry_scopeObjects_iff (env : Env) (maps : ScopeMaps Obj) (destination : SinglePlacement)
    (gr : GroupResource) (obj : Obj) (pmv : ProjectionModeVal) :
    entry (scopeObjects env maps destination) gr obj = some pmv ↔ Distributed maps destination gr obj ∧
      (env.resourceModes gr).toEdge = true ∧ pmv = modeOf maps destination gr := by
  unfold scopeObjects Distributed
  cases hIndex : maps.distributionsForSync.index destination with
  | none => simp [entry, FactoredMap.get, hIndex]
  | some dists =>
    have hMode : ∀ gr, ((maps.modesForSync.index destination).getD ∅).getD gr ⟨""⟩ = modeOf maps destination gr := by
      intro gr
      rw [modeOf, FactoredMap.get, GoMap.getD]
      cases maps.modesForSync.index destination <;> rfl
    have hFold := @entry_foldl_listObject Obj _ env (modeOf maps destination) (firsts env.ord dists) ∅
      (by intro gr nso hGet; cases hGet) gr obj pmv
    have hNone : entry (∅ : GoMap GroupResource (ProjectionModeVal × MapSet Obj)) gr obj ≠ some pmv := by
      simp [entry]
    simp only [FactoredMap.get, hIndex, Option.bind_some, hMode]
    rw [← mem_firsts_iff env.ord dists (gr, obj)]
    exact hFold.trans ⟨fun h => h.resolve_left hNone, .inr⟩

structure SyncerConfigSpecRelations.Same (r r' : SyncerConfigSpecRelations) : Prop where
  namespacedObjects : ∀ gr obj, entry r'.namespacedObjects gr obj = entry r.namespacedObjects gr obj
  clusterScopedObjects : ∀ gr obj, entry r'.clusterScopedObjects gr obj = entry r.clusterScopedObjects gr obj
  upsyncs : ∀ upsync, r'.upsyncs.has upsync = r.upsyncs.has upsync

end KubeStellar.WorkloadProjector
