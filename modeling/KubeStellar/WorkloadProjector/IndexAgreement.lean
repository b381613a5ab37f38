import KubeStellar.Library.NestedMap
import KubeStellar.WorkloadProjector.Mailboxes

/-! # The nested indices of distributions

`NewWorkloadProjector` keeps the distributions of each scope in a map for syncing and one for projection, whose inner
maps are indices in records that the two scopes share and never give up. All of them say what the writes of the scope
make, and the state of the projector stands for them.
-/

namespace KubeStellar.WorkloadProjector

abbrev SingleIndexedMapMap2 (First Second Val : Type) [DecidableEq First] [DecidableEq Second] :=
  NestedMap First (GoMap Second Val)

abbrev SingleIndexedMapMap3 (First Second Third Val : Type) [DecidableEq First] [DecidableEq Second]
    [DecidableEq Third] :=
  NestedMap First (NestedMap Second (GoMap Third Val))

def factorNamespacedDistributionTupleForSync1 :
    NamespacedDistributionTuple ≃ SinglePlacement × ((GroupResource × NamespacedName) × String) where
  toFun whole := (whole.1.destination, ((whole.1.groupResource, (whole.2.2.1, whole.2.2.2)), whole.2.1))
  invFun parts := (⟨parts.2.1.1, parts.1⟩, (parts.2.2, parts.2.1.2.1, parts.2.1.2.2))
  left_inv _ := rfl
  right_inv _ := rfl

def factorNamespacedDistributionTupleForProj1and234 :
    NamespacedDistributionTuple ≃ String × (GroupResource × NamespacedName × SinglePlacement) where
  toFun whole := (whole.2.1, (whole.1.groupResource, (whole.2.2.1, whole.2.2.2), whole.1.destination))
  invFun parts := (⟨parts.2.1, parts.2.2.2⟩, (parts.1, parts.2.2.1.1, parts.2.2.1.2))
  left_inv _ := rfl
  right_inv _ := rfl

def factorNonNamespacedDistributionTupleForSync1 :
    NonNamespacedDistributionTuple ≃ SinglePlacement × ((GroupResource × ObjectName) × String) where
  toFun whole := (whole.1.destination, ((whole.1.groupResource, whole.2.name), whole.2.cluster))
  invFun parts := (⟨parts.2.1.1, parts.1⟩, ⟨parts.2.2, parts.2.1.2⟩)
  left_inv _ := rfl
  right_inv _ := rfl

def factorNonNamespacedDistributionTupleForProj1and234 :
    NonNamespacedDistributionTuple ≃ String × (GroupResource × ObjectName × SinglePlacement) where
  toFun whole := (whole.2.cluster, (whole.1.groupResource, whole.2.name, whole.1.destination))
  invFun parts := (⟨parts.2.1, parts.2.2.2⟩, ⟨parts.1, parts.2.2.1⟩)
  left_inv _ := rfl
  right_inv _ := rfl

structure WpPerDestination where
  nsdDistributions : SingleIndexedMapMap2 (GroupResource × NamespacedName) String DistributionBits
  nnsDistributions : SingleIndexedMapMap2 (GroupResource × ObjectName) String DistributionBits

structure WpPerSource where
  nsdDistributions : SingleIndexedMapMap3 GroupResource NamespacedName SinglePlacement DistributionBits
  nnsDistributions : SingleIndexedMapMap3 GroupResource ObjectName SinglePlacement DistributionBits

def WpPerDestination.new : WpPerDestination := ⟨MutableMap.empty, MutableMap.empty⟩

def WpPerSource.new : WpPerSource := ⟨MutableMap.empty, MutableMap.empty⟩

structure Indices where
  perSource : GoMap String WpPerSource
  perDestination : GoMap SinglePlacement WpPerDestination
  nsdDistributionsForProj : MapSet String
  nnsDistributionsForProj : MapSet String
  nsdDistributionsForSync : MapSet SinglePlacement
  nnsDistributionsForSync : MapSet SinglePlacement

/-- Where the maps of one scope are, and how their keys are factored. -/
structure Layout (Tuple Obj : Type) [DecidableEq Obj] where
  inDestination : RecordField WpPerDestination (SingleIndexedMapMap2 (GroupResource × Obj) String DistributionBits)
  inSource : RecordField WpPerSource (SingleIndexedMapMap3 GroupResource Obj SinglePlacement DistributionBits)
  forSync : Tuple ≃ SinglePlacement × ((GroupResource × Obj) × String)
  forProj : Tuple ≃ String × (GroupResource × Obj × SinglePlacement)
  destination_new : ∀ key, MutableMap.get (inDestination.read .new) key = none
  source_new : ∀ key, MutableMap.get (inSource.read .new) key = none

def namespacedLayout : Layout NamespacedDistributionTuple NamespacedName where
  inDestination := ⟨WpPerDestination.nsdDistributions, fun wpd m => { wpd with nsdDistributions := m }, fun _ _ => rfl⟩
  inSource := ⟨WpPerSource.nsdDistributions, fun wps m => { wps with nsdDistributions := m }, fun _ _ => rfl⟩
  forSync := factorNamespacedDistributionTupleForSync1
  forProj := factorNamespacedDistributionTupleForProj1and234
  destination_new _ := rfl
  source_new _ := rfl

def nonNamespacedLayout : Layout NonNamespacedDistributionTuple ObjectName where
  inDestination := ⟨WpPerDestination.nnsDistributions, fun wpd m => { wpd with nnsDistributions := m }, fun _ _ => rfl⟩
  inSource := ⟨WpPerSource.nnsDistributions, fun wps m => { wps with nnsDistributions := m }, fun _ _ => rfl⟩
  forSync := factorNonNamespacedDistributionTupleForSync1
  forProj := factorNonNamespacedDistributionTupleForProj1and234
  destination_new _ := rfl
  source_new _ := rfl

structure ScopeIndices where
  sync : RecordMap SinglePlacement WpPerDestination
  proj : RecordMap String WpPerSource

namespace Layout

variable {Tuple Obj : Type} [DecidableEq Obj] (layout : Layout Tuple Obj)

def write (maps : ScopeIndices) (w : MapWrite Tuple DistributionBits) : ScopeIndices where
  sync := maps.sync.write layout.inDestination .new (w.mapKey layout.forSync)
  proj := maps.proj.write layout.inSource .new (w.mapKey layout.forProj)

end Layout

namespace Indices

def empty : Indices := ⟨∅, ∅, ∅, ∅, ∅, ∅⟩

variable (indices : Indices)

def namespaced : ScopeIndices :=
  ⟨⟨indices.perDestination, indices.nsdDistributionsForSync⟩, ⟨indices.perSource, indices.nsdDistributionsForProj⟩⟩

def nonNamespaced : ScopeIndices :=
  ⟨⟨indices.perDestination, indices.nnsDistributionsForSync⟩, ⟨indices.perSource, indices.nnsDistributionsForProj⟩⟩

def apply : SectionWrite → Indices
  | .namespacedObjectDistributions w =>
    let maps := namespacedLayout.write indices.namespaced w
    { indices with
      perDestination := maps.sync.records
      nsdDistributionsForSync := maps.sync.present
      perSource := maps.proj.records
      nsdDistributionsForProj := maps.proj.present }
  | .nonNamespacedObjectDistributions w =>
    let maps := nonNamespacedLayout.write indices.nonNamespaced w
    { indices with
      perDestination := maps.sync.records
      nnsDistributionsForSync := maps.sync.present
      perSource := maps.proj.records
      nnsDistributionsForProj := maps.proj.present }
  | .namespacedModes _ => indices
  | .nonNamespacedModes _ => indices
  | .upsyncs _ => indices

def transact (writes : List SectionWrite) : Indices := writes.foldl apply indices

end Indices

open MapWrite

def namespacedWrite : SectionWrite → Option (MapWrite NamespacedDistributionTuple DistributionBits)
  | .namespacedObjectDistributions w => some w
  | _ => none

def nonNamespacedWrite : SectionWrite → Option (MapWrite NonNamespacedDistributionTuple DistributionBits)
  | .nonNamespacedObjectDistributions w => some w
  | _ => none

namespace Layout

variable {Tuple Obj : Type} [DecidableEq Obj] (layout : Layout Tuple Obj)

structure Holds (maps : ScopeIndices) (f : Tuple → Option DistributionBits) : Prop where
  syncContent : ∀ tuple, RecordMap.content layout.inDestination maps.sync.records (layout.forSync tuple) = f tuple
  projContent : ∀ tuple, RecordMap.content layout.inSource maps.proj.records (layout.forProj tuple) = f tuple
  syncTidy : maps.sync.Tidy layout.inDestination
  projTidy : maps.proj.Tidy layout.inSource

theorem on_mapKey {K L V : Type} [DecidableEq K] [DecidableEq L] (e : K ≃ L) {f : K → Option V} {g : L → Option V}
    (hSame : ∀ k, g (e k) = f k) (w : MapWrite K V) (k : K) :
    on g (w.mapKey e) (e k) = on f w k := by
  simp only [on, key_mapKey, after_mapKey, EmbeddingLike.apply_eq_iff_eq, hSame]

open RecordMap

theorem Holds.write [DecidableEq Tuple] {maps : ScopeIndices} {f : Tuple → Option DistributionBits}
    (hHolds : layout.Holds maps f)
    (w : MapWrite Tuple DistributionBits) : layout.Holds (layout.write maps w) (on f w) := by
  obtain ⟨hSync, hSyncTidy⟩ := write_spec layout.destination_new hHolds.syncTidy (w.mapKey layout.forSync)
  obtain ⟨hProj, hProjTidy⟩ := write_spec layout.source_new hHolds.projTidy (w.mapKey layout.forProj)
  refine ⟨fun tuple => ?_, fun tuple => ?_, hSyncTidy, hProjTidy⟩
  · rw [Layout.write, hSync]
    exact on_mapKey layout.forSync hHolds.syncContent w tuple
  · rw [Layout.write, hProj]
    exact on_mapKey layout.forProj hHolds.projContent w tuple

structure Apart {Tuple' Obj' : Type} [DecidableEq Obj'] (other : Layout Tuple' Obj') : Prop where
  inDestination : ∀ wpd m, layout.inDestination.read (other.inDestination.write wpd m) = layout.inDestination.read wpd
  inSource : ∀ wps m, layout.inSource.read (other.inSource.write wps m) = layout.inSource.read wps

theorem Holds.write_other {Tuple' Obj' : Type} [DecidableEq Tuple'] [DecidableEq Obj'] {other : Layout Tuple' Obj'}
    (hApart : layout.Apart other) {maps : ScopeIndices} (maps' : ScopeIndices) {f : Tuple → Option DistributionBits}
    (hHolds : layout.Holds maps f) (hDests : maps'.sync.records = maps.sync.records)
    (hSources : maps'.proj.records = maps.proj.records) (w : MapWrite Tuple' DistributionBits) :
    layout.Holds ⟨⟨(other.write maps' w).sync.records, maps.sync.present⟩,
      ⟨(other.write maps' w).proj.records, maps.proj.present⟩⟩ f := by
  have hSync := content_other_write hApart.inDestination layout.destination_new maps'.sync
    (w.mapKey other.forSync)
  have hProj := content_other_write hApart.inSource layout.source_new maps'.proj (w.mapKey other.forProj)
  rw [hDests] at hSync
  rw [hSources] at hProj
  refine ⟨fun tuple => ?_, fun tuple => ?_, fun d => ?_, fun source => ?_⟩
  · exact (congrFun hSync _).trans (hHolds.syncContent tuple)
  · exact (congrFun hProj _).trans (hHolds.projContent tuple)
  · exact (hHolds.syncTidy d).trans (exists_congr fun key => by rw [← hSync]; rfl)
  · exact (hHolds.projTidy source).trans (exists_congr fun key => by rw [← hProj]; rfl)

variable (maps : ScopeIndices)

def sources (destination : SinglePlacement) (obj : GroupResource × Obj) : Option (GoMap String DistributionBits) :=
  (maps.sync.records.get destination).bind fun wpd => (layout.inDestination.read wpd).index obj

def objects (source : String) (gr : GroupResource) :
    Option (SingleIndexedMapMap2 Obj SinglePlacement DistributionBits) :=
  (maps.proj.records.get source).bind fun wps => (layout.inSource.read wps).index gr

def destinations (source : String) (gr : GroupResource) (obj : Obj) :
    Option (GoMap SinglePlacement DistributionBits) :=
  (layout.objects maps source gr).bind fun objs => objs.index obj

/-- The four indices of a scope hold these distributions, and at every level a key is there iff its inner map holds
something. -/
structure Agrees (f : Tuple → Option DistributionBits) : Prop where
  forSync : ∀ tuple, maps.sync.get layout.inDestination (layout.forSync tuple) = f tuple
  forProj : ∀ tuple, maps.proj.get layout.inSource (layout.forProj tuple) = f tuple
  perDestination : ∀ destination obj source,
    (layout.sources maps destination obj).bind (fun inner => inner.get source) =
    f (layout.forSync.symm (destination, (obj, source)))
  perSource : ∀ source gr obj destination,
    (layout.destinations maps source gr obj).bind (fun inner => inner.get destination) =
      f (layout.forProj.symm (source, (gr, obj, destination)))
  destinationKey : ∀ destination, maps.sync.present.has destination = true ↔ ∃ wpd,
    maps.sync.records.get destination = some wpd ∧ MutableMap.isEmpty (layout.inDestination.read wpd) = false
  sourceKey : ∀ source, maps.proj.present.has source = true ↔ ∃ wps,
    maps.proj.records.get source = some wps ∧ MutableMap.isEmpty (layout.inSource.read wps) = false
  sourcesKey : ∀ destination obj, layout.sources maps destination obj ≠ none ↔
    ∃ source, f (layout.forSync.symm (destination, (obj, source))) ≠ none
  objectsKey : ∀ source gr, layout.objects maps source gr ≠ none ↔
    ∃ obj destination, f (layout.forProj.symm (source, (gr, obj, destination))) ≠ none
  destinationsKey : ∀ source gr obj, layout.destinations maps source gr obj ≠ none ↔
    ∃ destination, f (layout.forProj.symm (source, (gr, obj, destination))) ≠ none
  numDestinations : ∀ source gr obj, ((layout.destinations maps source gr obj).getD ∅).len =
    {destination | f (layout.forProj.symm (source, (gr, obj, destination))) ≠ none}.ncard

variable {layout maps} {f : Tuple → Option DistributionBits} (hHolds : layout.Holds maps f)

include hHolds

theorem Holds.sources_get (destination : SinglePlacement) (obj : GroupResource × Obj)
    (source : String) : (layout.sources maps destination obj).bind (fun inner => inner.get source) =
      f (layout.forSync.symm (destination, (obj, source))) := by
  rw [← hHolds.syncContent, Equiv.apply_symm_apply, content, sources]
  cases maps.sync.records.get destination <;> rfl

theorem Holds.destinations_get (source : String) (gr : GroupResource) (obj : Obj)
    (destination : SinglePlacement) :
    (layout.destinations maps source gr obj).bind (fun inner => inner.get destination) =
      f (layout.forProj.symm (source, (gr, obj, destination))) := by
  rw [← hHolds.projContent, Equiv.apply_symm_apply, content, destinations, objects]
  cases maps.proj.records.get source with
  | none => rfl
  | some wps => exact Option.bind_assoc _ _ _

theorem Holds.sources_ne_none_iff (destination : SinglePlacement)
    (obj : GroupResource × Obj) : layout.sources maps destination obj ≠ none ↔
      ∃ source, f (layout.forSync.symm (destination, (obj, source))) ≠ none := by
  simp only [← hHolds.sources_get, sources]
  cases maps.sync.records.get destination with
  | none => simp
  | some wpd => exact NestedMap.index_ne_none_iff (layout.inDestination.read wpd) obj

theorem Holds.objects_ne_none_iff (source : String) (gr : GroupResource) : layout.objects maps source gr ≠ none ↔
      ∃ obj destination, f (layout.forProj.symm (source, (gr, obj, destination))) ≠ none := by
  simp only [← hHolds.destinations_get, destinations, objects]
  cases maps.proj.records.get source with
  | none => simp
  | some wps =>
    refine (NestedMap.index_ne_none_iff (layout.inSource.read wps) gr).trans (Prod.exists.trans ?_)
    refine exists_congr fun obj => exists_congr fun destination => not_congr (Eq.congr ?_ rfl)
    exact (Option.bind_assoc _ _ _).symm

theorem Holds.destinations_ne_none_iff (source : String) (gr : GroupResource)
    (obj : Obj) : layout.destinations maps source gr obj ≠ none ↔
      ∃ destination, f (layout.forProj.symm (source, (gr, obj, destination))) ≠ none := by
  simp only [← hHolds.destinations_get, destinations]
  cases layout.objects maps source gr with
  | none => simp
  | some objs => exact NestedMap.index_ne_none_iff objs obj

theorem Holds.numDestinations (source : String) (gr : GroupResource) (obj : Obj) :
    ((layout.destinations maps source gr obj).getD ∅).len =
      {destination | f (layout.forProj.symm (source, (gr, obj, destination))) ≠ none}.ncard := by
  rw [GoMap.len_eq_ncard]
  congr 1
  ext destination
  simp only [← hHolds.destinations_get, Set.mem_ofPred_eq]
  cases layout.destinations maps source gr obj <;> rfl

theorem Holds.agrees : layout.Agrees maps f where
  forSync tuple := (get_of_tidy hHolds.syncTidy _).trans (hHolds.syncContent tuple)
  forProj tuple := (get_of_tidy hHolds.projTidy _).trans (hHolds.projContent tuple)
  perDestination := hHolds.sources_get
  perSource := hHolds.destinations_get
  destinationKey := hHolds.syncTidy.present_iff
  sourceKey := hHolds.projTidy.present_iff
  sourcesKey := hHolds.sources_ne_none_iff
  objectsKey := hHolds.objects_ne_none_iff
  destinationsKey := hHolds.destinations_ne_none_iff
  numDestinations := hHolds.numDestinations

end Layout

theorem namespaced_apart : namespacedLayout.Apart nonNamespacedLayout := ⟨fun _ _ => rfl, fun _ _ => rfl⟩

theorem nonNamespaced_apart : nonNamespacedLayout.Apart namespacedLayout := ⟨fun _ _ => rfl, fun _ _ => rfl⟩

structure Indices.Hold (indices : Indices) (f : NamespacedDistributionTuple → Option DistributionBits)
    (g : NonNamespacedDistributionTuple → Option DistributionBits) : Prop where
  namespaced : namespacedLayout.Holds indices.namespaced f
  nonNamespaced : nonNamespacedLayout.Holds indices.nonNamespaced g

variable {indices : Indices} {g : NonNamespacedDistributionTuple → Option DistributionBits}
  {f : NamespacedDistributionTuple → Option DistributionBits} {tx : Transaction}

theorem Indices.Hold.apply (hHold : indices.Hold f g) (w : SectionWrite) :
    (indices.apply w).Hold (replay f (namespacedWrite w).toList)
      (replay g (nonNamespacedWrite w).toList) := by
  cases w with
  | namespacedObjectDistributions w =>
    exact ⟨hHold.namespaced.write _ w, hHold.nonNamespaced.write_other _ nonNamespaced_apart
      indices.namespaced rfl rfl w⟩
  | nonNamespacedObjectDistributions w =>
    exact ⟨hHold.namespaced.write_other _ namespaced_apart indices.nonNamespaced rfl rfl w,
      hHold.nonNamespaced.write _ w⟩
  | namespacedModes _ => exact hHold
  | nonNamespacedModes _ => exact hHold
  | upsyncs _ => exact hHold

theorem filterMap_cons_toList {α β : Type} (p : α → Option β) (x : α) (xs : List α) :
    (x :: xs).filterMap p = (p x).toList ++ xs.filterMap p := by
  cases hSome : p x with
  | none => rw [List.filterMap_cons_none hSome]; rfl
  | some y => rw [List.filterMap_cons_some hSome]; rfl

theorem Indices.Hold.transact (hHold : indices.Hold f g) (writes : List SectionWrite) :
    (indices.transact writes).Hold (replay f (writes.filterMap namespacedWrite))
      (replay g (writes.filterMap nonNamespacedWrite)) := by
  induction writes generalizing indices f g with
  | nil => exact hHold
  | cons w writes ih =>
    have hNext := ih (hHold.apply w)
    rw [← replay_append, ← replay_append] at hNext
    rw [filterMap_cons_toList, filterMap_cons_toList]
    exact hNext

theorem empty_tidy {A B V M R : Type} [DecidableEq A] [DecidableEq B] [MutableMap M B V] (field : RecordField R M) :
    (⟨∅, ∅⟩ : RecordMap A R).Tidy field := by
  intro a
  refine iff_of_false (by simp [GoMap.has]) ?_
  rintro ⟨b, hContent⟩
  exact hContent rfl

theorem Indices.empty_hold : Indices.empty.Hold (fun _ => none) (fun _ => none) :=
  ⟨⟨fun _ => rfl, fun _ => rfl, empty_tidy _, empty_tidy _⟩, ⟨fun _ => rfl, fun _ => rfl, empty_tidy _, empty_tidy _⟩⟩

/-- After any transactions the indices of both scopes agree with the distributions that were written. -/
theorem indices_agree (transactions : List (List SectionWrite)) :
    namespacedLayout.Agrees (transactions.foldl Indices.transact .empty).namespaced
        (MapWrite.replay (fun _ => none) (transactions.flatten.filterMap namespacedWrite)) ∧
      nonNamespacedLayout.Agrees (transactions.foldl Indices.transact .empty).nonNamespaced
        (MapWrite.replay (fun _ => none) (transactions.flatten.filterMap nonNamespacedWrite)) := by
  have hFlatten : transactions.foldl Indices.transact .empty = Indices.empty.transact transactions.flatten :=
    List.foldl_flatten.symm
  have hHold := Indices.empty_hold.transact transactions.flatten
  rw [hFlatten]
  exact ⟨hHold.namespaced.agrees, hHold.nonNamespaced.agrees⟩

open GoMap

namespace Layout

variable {Tuple Obj : Type} [DecidableEq Obj] (layout : Layout Tuple Obj)

structure Flat (flat : ScopeMaps Obj) (f : Tuple → Option DistributionBits) : Prop where
  sync : ∀ tuple, flat.distributionsForSync.get (layout.forSync tuple).1 (layout.forSync tuple).2 = f tuple
  proj : ∀ tuple, flat.distributionsForProj.get (layout.forProj tuple).1 (layout.forProj tuple).2 = f tuple

structure Factors (factor : Tuple → Distribution Obj) : Prop where
  sync : ∀ tuple, layout.forSync tuple =
    ((factor tuple).destination, (((factor tuple).groupResource, (factor tuple).obj), (factor tuple).source))
  proj : ∀ tuple, layout.forProj tuple =
    ((factor tuple).source, ((factor tuple).groupResource, (factor tuple).obj, (factor tuple).destination))

variable {layout} {flat : ScopeMaps Obj}

section Factored

variable {A B V : Type} (e : Tuple ≃ A × B)

omit [DecidableEq Obj] in
theorem factored_key_iff (tuple key : Tuple) : ((e tuple).1 = (e key).1 ∧ (e tuple).2 = (e key).2) ↔ tuple = key := by
  rw [← Prod.ext_iff, EmbeddingLike.apply_eq_iff_eq]

variable [DecidableEq Tuple] [DecidableEq A] [DecidableEq B] {m : FactoredMap A B V} {f : Tuple → Option V}

omit [DecidableEq Obj] in
theorem factored_put (hContent : ∀ tuple, m.get (e tuple).1 (e tuple).2 = f tuple) (key : Tuple) (v : V)
    (tuple : Tuple) :
    (m.put (e key).1 (e key).2 v).get (e tuple).1 (e tuple).2 = on f (.put key v) tuple := by
  rw [FactoredMap.get_put, hContent]
  simp only [factored_key_iff]
  rfl

omit [DecidableEq Obj] in
theorem factored_delete (hContent : ∀ tuple, m.get (e tuple).1 (e tuple).2 = f tuple) (key tuple : Tuple) :
    (m.delete (e key).1 (e key).2).get (e tuple).1 (e tuple).2 = on f (.delete key) tuple := by
  rw [FactoredMap.get_delete, hContent]
  simp only [factored_key_iff]
  rfl

end Factored

theorem Flat.write [DecidableEq Tuple] {factor : Tuple → Distribution Obj} (hFactors : layout.Factors factor)
    {f : Tuple → Option DistributionBits} (hFlat : layout.Flat flat f) (records : Records)
    (w : MapWrite Tuple DistributionBits) :
    layout.Flat (writeDistribution factor flat records w).1 (on f w) := by
  cases w with
  | put key bits =>
    have hSync := factored_put layout.forSync hFlat.sync key bits
    have hProj := factored_put layout.forProj hFlat.proj key bits
    rw [hFactors.sync key] at hSync
    rw [hFactors.proj key] at hProj
    exact ⟨hSync, hProj⟩
  | delete key =>
    have hSync := factored_delete layout.forSync hFlat.sync key
    have hProj := factored_delete layout.forProj hFlat.proj key
    rw [hFactors.sync key] at hSync
    rw [hFactors.proj key] at hProj
    exact ⟨hSync, hProj⟩

variable {f : Tuple → Option DistributionBits}

theorem Flat.objectDestinations_get
    (hFlat : layout.Flat flat f) (source : String) (gr : GroupResource) (obj : Obj) (destination : SinglePlacement) :
    (objectDestinations flat source gr obj).get destination =
      f (layout.forProj.symm (source, (gr, obj, destination))) := by
  rw [← hFlat.proj, Equiv.apply_symm_apply, objectDestinations, get_under, get_under, FactoredMap.get]
  cases flat.distributionsForProj.index source <;> rfl

theorem Flat.sourcesWants_get
    (hFlat : layout.Flat flat f) (destination : SinglePlacement) (gr : GroupResource) (obj : Obj) (source : String) :
    (sourcesWants flat destination gr obj).get source =
      f (layout.forSync.symm (destination, ((gr, obj), source))) := by
  rw [← hFlat.sync, Equiv.apply_symm_apply, sourcesWants, get_under, FactoredMap.get]
  cases flat.distributionsForSync.index destination <;> rfl

variable (layout) in
structure Refines (maps : ScopeIndices) (flat : ScopeMaps Obj) : Prop where
  destinations : ∀ source gr obj destination, (objectDestinations flat source gr obj).get destination =
    (layout.destinations maps source gr obj).bind fun inner => inner.get destination
  numDestinations : ∀ source gr obj, (objectDestinations flat source gr obj).len =
    ((layout.destinations maps source gr obj).getD ∅).len
  sources : ∀ destination gr obj source, (sourcesWants flat destination gr obj).get source =
    (layout.sources maps destination (gr, obj)).bind fun inner => inner.get source

theorem Flat.refines {maps : ScopeIndices} {f : Tuple → Option DistributionBits}
    (hFlat : layout.Flat flat f) (hHolds : layout.Holds maps f) : Refines layout maps flat where
  destinations source gr obj destination :=
    (hFlat.objectDestinations_get source gr obj destination).trans
      (hHolds.destinations_get source gr obj destination).symm
  numDestinations source gr obj := by
    rw [hHolds.numDestinations, len_eq_ncard]
    simp only [hFlat.objectDestinations_get]
  sources destination gr obj source :=
    (hFlat.sourcesWants_get destination gr obj source).trans (hHolds.sources_get destination (gr, obj) source).symm

end Layout

def SameDistributions (indices : Indices) (ns : ScopeMaps NamespacedName) (nns : ScopeMaps ObjectName) : Prop :=
  ∃ f g, indices.Hold f g ∧ namespacedLayout.Flat ns f ∧ nonNamespacedLayout.Flat nns g

theorem namespaced_factors : namespacedLayout.Factors factorNamespacedDistributionTuple := ⟨fun _ => rfl, fun _ => rfl⟩

theorem nonNamespaced_factors : nonNamespacedLayout.Factors factorNonNamespacedDistributionTuple :=
  ⟨fun _ => rfl, fun _ => rfl⟩

theorem SameDistributions.apply (hSame : SameDistributions indices tx.ns tx.nns)
    (w : SectionWrite) : SameDistributions (indices.apply w) (tx.apply w).ns (tx.apply w).nns := by
  obtain ⟨f, g, hHold, hNs, hNns⟩ := hSame
  refine ⟨_, _, hHold.apply w, ?_⟩
  cases w with
  | namespacedObjectDistributions w => exact ⟨hNs.write namespaced_factors tx.records w, hNns⟩
  | nonNamespacedObjectDistributions w => exact ⟨hNs, hNns.write nonNamespaced_factors tx.records w⟩
  | namespacedModes w => cases w <;> exact ⟨⟨hNs.sync, hNs.proj⟩, hNns⟩
  | nonNamespacedModes w => cases w <;> exact ⟨hNs, ⟨hNns.sync, hNns.proj⟩⟩
  | upsyncs w => cases w <;> exact ⟨hNs, hNns⟩

theorem SameDistributions.foldl (hSame : SameDistributions indices tx.ns tx.nns)
    (writes : List SectionWrite) : SameDistributions (indices.transact writes) (writes.foldl Transaction.apply tx).ns
      (writes.foldl Transaction.apply tx).nns := by
  induction writes generalizing indices tx with
  | nil => exact hSame
  | cons w writes ih => exact ih (hSame.apply w)

/-- A run of the projector, with the nested indices along it. -/
inductive RunsWith : Indices → State → Prop where
  | new : RunsWith .empty newWorkloadProjector
  | transact {env : Env} {indices : Indices} {wp wp' : State} {writes : List SectionWrite} {items : List QueueItem} :
      RunsWith indices wp → transact env wp writes = .ok (wp', items) → RunsWith (indices.transact writes) wp'
  | sourceObject {J C L : Type} [DecidableEq J] {indices : Indices} {wp : State} (env : Env) (caches : Caches J)
      (cz : Customization J C L) (answers : SinglePlacement → DestinationAnswers J C L) (soRef : SourceObjectRef) :
      RunsWith indices wp → RunsWith indices (syncSourceObject env wp caches cz answers soRef).1

theorem RunsWith.same {wp : State} (hRuns : RunsWith indices wp) :
    Reachable wp ∧ SameDistributions indices wp.ns wp.nns := by
  induction hRuns with
  | new => exact ⟨.new, _, _, Indices.empty_hold, ⟨fun _ => rfl, fun _ => rfl⟩, ⟨fun _ => rfl, fun _ => rfl⟩⟩
  | @transact env indices wp wp' writes items _ hOk ih =>
    obtain ⟨hReach, hSame⟩ := ih
    have hTrans := transacted_of_transact env writes hReach.wellNamed.recorded hOk
    refine ⟨hReach.transact hOk, ?_⟩
    rw [hTrans.ns, hTrans.nns]
    exact @SameDistributions.foldl _ wp.begin hSame writes
  | @sourceObject J C L _ indices wp env caches cz answers soRef _ ih =>
    obtain ⟨hReach, hSame⟩ := ih
    refine ⟨hReach.sourceObject env caches cz answers soRef, ?_⟩
    obtain ⟨perDestination, hState, -⟩ := syncSourceObject_state env wp soRef caches cz answers
    rw [hState]
    exact hSame

/-- Along every run, what is asked of the projector's state has the answer that the nested indices give. -/
theorem runsWith_refines {wp : State} (hRuns : RunsWith indices wp) :
    namespacedLayout.Refines indices.namespaced wp.ns ∧ nonNamespacedLayout.Refines indices.nonNamespaced wp.nns := by
  obtain ⟨-, f, g, hHold, hNs, hNns⟩ := hRuns.same
  exact ⟨hNs.refines hHold.namespaced, hNns.refines hHold.nonNamespaced⟩

theorem runsWith_refines_settings : ∃ wp, RunsWith (Indices.empty.transact settingsWrites) wp ∧
    namespacedLayout.Refines (Indices.empty.transact settingsWrites).namespaced wp.ns ∧
      (objectDestinations wp.ns "wds1" settingsModeKey.groupResource ("apps", "settings")).len = 1 := by
  obtain ⟨⟨wp, items⟩, hOk⟩ : ∃ result, transact edgeEnv newWorkloadProjector settingsWrites = .ok result := ⟨_, rfl⟩
  have hRuns := RunsWith.new.transact hOk
  have hRefines := (runsWith_refines hRuns).1
  exact ⟨wp, hRuns, hRefines, (hRefines.numDestinations _ _ _).trans (by decide)⟩

end KubeStellar.WorkloadProjector
