import KubeStellar.Syncer.SyncerConfig

/-! # What is left of a SyncerConfig after a round trip

A list that is tagged `omitempty` is left out when it is empty, and is nil when the object is read back. For one of the
lists of a spec that makes a difference: the objects of an entry of the cluster scope.
-/

namespace KubeStellar.Syncer

open List

/-- A slice that is omitted when it is empty, written and read back. -/
def Slice.roundTrip {α : Type} (elt : α → α) (slice : Slice α) : Slice α :=
  match slice with
  | none => none
  | some [] => none
  | some (a :: l) => some ((a :: l).map elt)

def NamespaceAndNames.roundTrip (obj : NamespaceAndNames) : NamespaceAndNames :=
  { obj with names := obj.names.roundTrip id }

def NamespaceScopeDownsyncObjects.roundTrip (nsObject : NamespaceScopeDownsyncObjects) :
    NamespaceScopeDownsyncObjects :=
  { nsObject with objectsByNamespace := nsObject.objectsByNamespace.roundTrip NamespaceAndNames.roundTrip }

def ClusterScopeDownsyncResource.roundTrip (entry : ClusterScopeDownsyncResource) : ClusterScopeDownsyncResource :=
  { entry with objects := entry.objects.roundTrip id }

def SyncerConfigSpec.roundTrip (spec : SyncerConfigSpec) : SyncerConfigSpec where
  namespaceScope := ⟨spec.namespaceScope.namespaces.roundTrip id, spec.namespaceScope.resources.roundTrip id⟩
  namespacedObjects := spec.namespacedObjects.roundTrip NamespaceScopeDownsyncObjects.roundTrip
  clusterScope := spec.clusterScope.roundTrip ClusterScopeDownsyncResource.roundTrip
  upsync := spec.upsync.roundTrip id

@[simp] theorem items_roundTrip {α : Type} (elt : α → α) (slice : Slice α) :
    (slice.roundTrip elt).items = slice.items.map elt := by
  cases slice with
  | none => rfl
  | some l => cases l <;> rfl

variable {discovery : Discovery} {spec : SyncerConfigSpec} {resource : EdgeSyncConfigResource}
  {entry : ClusterScopeDownsyncResource}

theorem namespaceScopedResources_roundTrip :
    namespaceScopedResources discovery spec.roundTrip = namespaceScopedResources discovery spec := by
  simp [namespaceScopedResources, SyncerConfigSpec.roundTrip]

theorem mem_namespacedObjectsResources_roundTrip_iff : resource ∈ namespacedObjectsResources discovery spec.roundTrip ↔
      resource ∈ namespacedObjectsResources discovery spec := by
  simp [mem_namespacedObjectsResources_iff, SyncerConfigSpec.roundTrip, NamespaceScopeDownsyncObjects.roundTrip,
    NamespaceAndNames.roundTrip]

theorem ClusterScopeDownsyncResource.names_roundTrip
    (hObjects : entry.objects.items ≠ []) : entry.roundTrip.names = entry.names := by
  have hRead : entry.roundTrip.objects.items = entry.objects.items := by
    rw [roundTrip, items_roundTrip, map_id]
  rw [names_of_objects hObjects, names_of_objects (hRead ▸ hObjects), hRead]

theorem ClusterScopeDownsyncResource.names_roundTrip_of_empty
    (hEmpty : entry.objects.items = []) : entry.roundTrip.names = ["*"] := by
  obtain ⟨groupResource, apiVersion, objects⟩ := entry
  cases objects with
  | none => rfl
  | some l =>
    cases l with
    | nil => rfl
    | cons a l => cases hEmpty

def Undiscovered (discovery : Discovery) (entry : ClusterScopeDownsyncResource) : Prop :=
  findVersionedResourcesByGVR discovery entry.groupResource.group entry.apiVersion entry.groupResource.resource = []

theorem clusterScopeEntryResources_of_undiscovered
    (hNone : Undiscovered discovery entry) : clusterScopeEntryResources discovery entry = [] := by
  refine eq_nil_iff_forall_not_mem.mpr fun resource hMem => ?_
  obtain ⟨v, hFound, -⟩ := mem_clusterScopeEntryResources_iff.mp hMem
  rw [hNone] at hFound
  cases hFound

/-- What is downsynced is the same after a round trip, and an entry of the cluster scope without objects contributes
nothing, if and only if the resources of such entries are not discovered. -/
theorem roundTrip_keeps_downsynced_iff (discovery : Discovery) (spec : SyncerConfigSpec) :
    ((∀ resource, resource ∈ downsyncedResources discovery spec ↔
        resource ∈ downsyncedResources discovery spec.roundTrip) ∧
      ∀ entry, entry ∈ spec.clusterScope.items ∨ entry ∈ spec.roundTrip.clusterScope.items → entry.objects.items = [] →
        clusterScopeEntryResources discovery entry = []) ↔
    ∀ entry ∈ spec.clusterScope.items, entry.objects.items = [] → Undiscovered discovery entry := by
  have hItems : spec.roundTrip.clusterScope.items =
      spec.clusterScope.items.map ClusterScopeDownsyncResource.roundTrip :=
    items_roundTrip _ _
  have hRead : ∀ entry : ClusterScopeDownsyncResource, entry.roundTrip.objects.items = entry.objects.items := by
    intro entry
    rw [ClusterScopeDownsyncResource.roundTrip, items_roundTrip, map_id]
  constructor
  · rintro ⟨-, hNone⟩ entry hEntry hEmpty
    have hContributes := hNone entry.roundTrip (.inr (hItems ▸ mem_map_of_mem hEntry)) ((hRead entry).trans hEmpty)
    refine eq_nil_iff_forall_not_mem.mpr fun v hFound => ?_
    have hAll : ⟨v.kind, entry.groupResource.group, entry.apiVersion, "*", ""⟩ ∈
        clusterScopeEntryResources discovery entry.roundTrip := by
      refine mem_clusterScopeEntryResources_iff.mpr ⟨v, hFound, "*", ?_, rfl⟩
      rw [ClusterScopeDownsyncResource.names_roundTrip_of_empty hEmpty]
      exact mem_singleton.mpr rfl
    rw [hContributes] at hAll
    cases hAll
  · intro hUndiscovered
    refine ⟨fun resource => ?_, ?_⟩
    · rw [mem_downsyncedResources_iff, mem_downsyncedResources_iff, namespaceScopedResources_roundTrip,
        mem_namespacedObjectsResources_roundTrip_iff, mem_clusterScopedResources_iff, mem_clusterScopedResources_iff,
        hItems]
      simp only [mem_map, exists_exists_and_eq_and]
      refine or_congr_right (exists_congr fun entry => and_congr_right fun hEntry => ?_)
      by_cases hEmpty : entry.objects.items = []
      · have hNone := hUndiscovered entry hEntry hEmpty
        have hNone' : Undiscovered discovery entry.roundTrip := hNone
        rw [clusterScopeEntryResources_of_undiscovered hNone, clusterScopeEntryResources_of_undiscovered hNone']
      · rw [mem_clusterScopeEntryResources_iff, mem_clusterScopeEntryResources_iff,
          ClusterScopeDownsyncResource.names_roundTrip hEmpty]
        rfl
    · rintro entry (hEntry | hEntry) hEmpty
      · exact clusterScopeEntryResources_of_undiscovered (hUndiscovered entry hEntry hEmpty)
      · rw [hItems] at hEntry
        obtain ⟨original, hOriginal, rfl⟩ := mem_map.mp hEntry
        have hNone := hUndiscovered original hOriginal ((hRead original).symm.trans hEmpty)
        exact clusterScopeEntryResources_of_undiscovered hNone

def noNodes : SyncerConfigSpec where
  namespaceScope := ⟨none, none⟩
  namespacedObjects := none
  clusterScope := some [⟨⟨"", "nodes"⟩, "v1", some []⟩]
  upsync := none

/-- An empty list of names is omitted, and a list that is missing stands for all names. -/
theorem all_nodes_after_roundTrip : downsyncedResources coreDiscovery noNodes = [] ∧
      downsyncedResources coreDiscovery noNodes.roundTrip = [⟨"Node", "", "v1", "*", ""⟩] := by
  decide

end KubeStellar.Syncer
