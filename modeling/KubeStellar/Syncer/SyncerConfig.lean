import KubeStellar.Syncer.SyncConfigManager

/-! # What a SyncerConfig says to sync

`pkg/syncer/controller/syncerconfigmanager.go`: how a SyncerConfig and what is discovered about the APIs of the two
sides are translated into EdgeSyncConfigs. Slices can be nil, which one part of the translation tells apart from being
empty.
-/

namespace KubeStellar.Syncer

open List

abbrev Slice (α : Type) := Option (List α)

def Slice.items {α : Type} (slice : Slice α) : List α := slice.getD []

structure NamespaceScopeDownsyncResource where
  groupResource : GroupResource
  apiVersion : String

structure NamespaceScopeDownsyncs where
  namespaces : Slice String
  resources : Slice NamespaceScopeDownsyncResource

structure NamespaceAndNames where
  ns : String
  names : Slice String

structure NamespaceScopeDownsyncObjects where
  groupResource : GroupResource
  apiVersion : String
  objectsByNamespace : Slice NamespaceAndNames

structure ClusterScopeDownsyncResource where
  groupResource : GroupResource
  apiVersion : String
  objects : Slice String

structure SyncerConfigSpec where
  namespaceScope : NamespaceScopeDownsyncs
  namespacedObjects : Slice NamespaceScopeDownsyncObjects
  clusterScope : Slice ClusterScopeDownsyncResource
  upsync : Slice UpsyncSet

structure SyncerConfig where
  name : String
  spec : SyncerConfigSpec

structure APIResource where
  name : String
  namespaced : Bool
  version : String
  kind : String

structure APIGroupResources where
  groupName : String
  versionedResources : GoMap String (List APIResource)

/-- What `restmapper.GetAPIGroupResources` returns: an entry for each API group. -/
structure Discovery where
  groups : List APIGroupResources
  nodup : (groups.map APIGroupResources.groupName).Nodup

variable (discovery : Discovery) (group version resource : String)

def Discovery.find : Option APIGroupResources :=
  discovery.groups.find? fun groupResources => groupResources.groupName = group

variable (versionedResource : APIResource)

def selects : Bool := resource = versionedResource.name || resource = "*"

def findVersionedResourcesByGVR : List APIResource :=
  match discovery.find group with
  | some apiGroupResources =>
    ((apiGroupResources.versionedResources.get version).getD []).filter (selects resource)
  | none => []

def withVersion : APIResource :=
  if versionedResource.version = "" then { versionedResource with version } else versionedResource

def findVersionedResourcesByGV (ord : RangeOrder) : List APIResource :=
  match discovery.find group with
  | none => []
  | some apiGroupResources =>
    (ord.visit apiGroupResources.versionedResources).flatMap fun e =>
      (e.2.map (withVersion e.1)).filter (selects resource)

def Listed (r : APIResource) : Prop :=
  ∃ groupResources ∈ discovery.groups, groupResources.groupName = group ∧ ∃ resources,
    groupResources.versionedResources.get version = some resources ∧ r ∈ resources

def Discovers (kind : String) : Prop :=
  ∃ groupResources ∈ discovery.groups, groupResources.groupName = group ∧ ∃ resources,
    groupResources.versionedResources.get version = some resources ∧ ∃ r ∈ resources, r.name = resource ∧ r.kind = kind

variable {discovery group version resource} {v : APIResource}

theorem find_eq_some_iff {groupResources : APIGroupResources} : discovery.find group = some groupResources ↔
    groupResources ∈ discovery.groups ∧ groupResources.groupName = group := by
  constructor
  · intro hFind
    exact ⟨mem_of_find?_eq_some hFind, by simpa using List.find?_some hFind⟩
  · rintro ⟨hMem, rfl⟩
    cases hFind : discovery.find groupResources.groupName with
    | none =>
      have hNot := List.find?_eq_none.mp hFind groupResources hMem
      simp at hNot
    | some found =>
      have hName : found.groupName = groupResources.groupName := by simpa using List.find?_some hFind
      rw [inj_on_of_nodup_map discovery.nodup (mem_of_find?_eq_some hFind) hMem hName]

theorem mem_elim_find_iff {A : Type} {contents : APIGroupResources → List A} {a : A} :
    a ∈ (discovery.find group).elim [] contents ↔
      ∃ groupResources ∈ discovery.groups, groupResources.groupName = group ∧ a ∈ contents groupResources := by
  cases hFind : discovery.find group with
  | none =>
    refine iff_of_false not_mem_nil ?_
    rintro ⟨groupResources, hMem, hName, -⟩
    cases hFind.symm.trans (find_eq_some_iff.mpr ⟨hMem, hName⟩)
  | some found =>
    obtain ⟨hFound, hName⟩ := find_eq_some_iff.mp hFind
    refine ⟨fun hIn => ⟨found, hFound, hName, hIn⟩, ?_⟩
    rintro ⟨groupResources, hMem, hName', hIn⟩
    cases hFind.symm.trans (find_eq_some_iff.mpr ⟨hMem, hName'⟩)
    exact hIn

theorem mem_findVersionedResourcesByGVR_iff : v ∈ findVersionedResourcesByGVR discovery group version resource ↔
      Listed discovery group version v ∧ selects resource v = true := by
  have hElim : findVersionedResourcesByGVR discovery group version resource = (discovery.find group).elim []
      fun found => ((found.versionedResources.get version).getD []).filter (selects resource) := by
    rw [findVersionedResourcesByGVR]
    cases discovery.find group <;> rfl
  have hGetD : ∀ found : APIGroupResources, v ∈ (found.versionedResources.get version).getD [] ↔
      ∃ resources, found.versionedResources.get version = some resources ∧ v ∈ resources := by
    intro found
    cases found.versionedResources.get version <;> simp
  simp only [hElim, mem_elim_find_iff, mem_filter, hGetD, Listed]
  constructor
  · rintro ⟨found, hFound, hName, hIn, hSelects⟩
    exact ⟨⟨found, hFound, hName, hIn⟩, hSelects⟩
  · rintro ⟨⟨found, hFound, hName, hIn⟩, hSelects⟩
    exact ⟨found, hFound, hName, hIn, hSelects⟩

theorem exists_findVersionedResourcesByGVR_iff (hResource : resource ≠ "*") {kind : String} :
    (∃ r ∈ findVersionedResourcesByGVR discovery group version resource, r.kind = kind) ↔
      Discovers discovery group version resource kind := by
  have hSelects : ∀ r : APIResource, selects resource r = true ↔ r.name = resource := by
    intro r
    simp [selects, hResource, eq_comm]
  simp only [mem_findVersionedResourcesByGVR_iff, hSelects, Discovers]
  constructor
  · rintro ⟨r, ⟨⟨groupResources, hMem, hName, resources, hGet, hIn⟩, hSame⟩, hKind⟩
    exact ⟨groupResources, hMem, hName, resources, hGet, r, hIn, hSame, hKind⟩
  · rintro ⟨groupResources, hMem, hName, resources, hGet, r, hIn, hSame, hKind⟩
    exact ⟨r, ⟨⟨groupResources, hMem, hName, resources, hGet, hIn⟩, hSame⟩, hKind⟩

theorem withVersion_fields (version : String) (v : APIResource) :
    (withVersion version v).name = v.name ∧ (withVersion version v).namespaced = v.namespaced ∧
      (withVersion version v).kind = v.kind := by
  rw [withVersion]
  split <;> exact ⟨rfl, rfl, rfl⟩

theorem selects_withVersion (version : String) (v : APIResource) :
    selects resource (withVersion version v) = selects resource v := by
  rw [selects, selects, (withVersion_fields version v).1]

theorem mem_findVersionedResourcesByGV_iff {ord : RangeOrder} :
    v ∈ findVersionedResourcesByGV discovery group resource ord ↔
      ∃ version r, Listed discovery group version r ∧ selects resource r = true ∧ withVersion version r = v := by
  have hElim : findVersionedResourcesByGV discovery group resource ord = (discovery.find group).elim []
      fun found => (ord.visit found.versionedResources).flatMap fun e =>
        (e.2.map (withVersion e.1)).filter (selects resource) := by
    rw [findVersionedResourcesByGV]
    cases discovery.find group <;> rfl
  simp only [hElim, mem_elim_find_iff, mem_flatMap, mem_filter, mem_map]
  constructor
  · rintro ⟨found, hFound, hName, e, hVisit, ⟨r, hIn, rfl⟩, hSelects⟩
    rw [selects_withVersion] at hSelects
    exact ⟨e.1, r, ⟨found, hFound, hName, e.2, (ord.mem_visit_iff _ _ _).mp hVisit, hIn⟩, hSelects, rfl⟩
  · rintro ⟨version, r, ⟨found, hFound, hName, resources, hGet, hIn⟩, hSelects, rfl⟩
    exact ⟨found, hFound, hName, (version, resources), (ord.mem_visit_iff _ _ _).mpr hGet, ⟨r, hIn, rfl⟩,
      (selects_withVersion version r).trans hSelects⟩

def namespaceResource (ns : String) : EdgeSyncConfigResource :=
  { group := "", version := "v1", kind := "Namespace", name := ns, ns := "" }

def downsyncNamespacedSuffix : String := "_downsync_namespaced"

def downsyncNamespacedObjectsSuffix : String := "_downsync_namespaced_objects"

def downsyncClusterscopedSuffix : String := "_downsync_clusterscoped"

def upsyncSuffix : String := "_upsync"

variable (discovery : Discovery) (spec : SyncerConfigSpec)

/-- The resources that `upsertNamespaceScoped` collects. -/
def namespaceScopedResources : List EdgeSyncConfigResource :=
  spec.namespaceScope.namespaces.items.flatMap fun ns =>
    namespaceResource ns :: spec.namespaceScope.resources.items.flatMap fun r =>
      (findVersionedResourcesByGVR discovery r.groupResource.group r.apiVersion r.groupResource.resource).map
        fun versionedResource =>
          { group := r.groupResource.group, version := r.apiVersion, kind := versionedResource.kind, ns, name := "*" }

structure FlatNamespacedObject where
  apiVersion : String
  groupResource : GroupResource
  ns : String
  names : Slice String

def flatNamespacedObjects : List FlatNamespacedObject :=
  spec.namespacedObjects.items.flatMap fun nsObject => nsObject.objectsByNamespace.items.map fun obj =>
    ⟨nsObject.apiVersion, nsObject.groupResource, obj.ns, obj.names⟩

def getAllNamespaces (table : List FlatNamespacedObject) : List String :=
  (MapSet.addAll ∅ (table.map FlatNamespacedObject.ns)).keys

/-- The resources that `upsertNamespacedObjects` collects. -/
def namespacedObjectsResources : List EdgeSyncConfigResource :=
  let requiredNamespaces := getAllNamespaces ((flatNamespacedObjects spec).filter fun row => row.names.items.length > 0)
  requiredNamespaces.map namespaceResource ++ (flatNamespacedObjects spec).flatMap fun object =>
    (findVersionedResourcesByGVR discovery object.groupResource.group object.apiVersion
        object.groupResource.resource).flatMap fun versionedResource =>
      object.names.items.map fun name =>
        { group := object.groupResource.group, version := object.apiVersion, kind := versionedResource.kind,
          ns := object.ns, name }

def clusterScopeEntryResources (clusterScope : ClusterScopeDownsyncResource) : List EdgeSyncConfigResource :=
  let group := clusterScope.groupResource.group
  let version := clusterScope.apiVersion
  if clusterScope.objects = some [] then []
  else
    (findVersionedResourcesByGVR discovery group version clusterScope.groupResource.resource).flatMap
      fun versionedResource =>
        match clusterScope.objects with
        | none => [{ group, version, kind := versionedResource.kind, name := "*", ns := "" }]
        | some objects =>
          objects.map fun object => { group, version, kind := versionedResource.kind, name := object, ns := "" }

/-- The resources that `upsertClusterScoped` collects. -/
def clusterScopedResources : List EdgeSyncConfigResource :=
  spec.clusterScope.items.flatMap (clusterScopeEntryResources discovery)

def downsyncedResources : List EdgeSyncConfigResource :=
  namespacedObjectsResources discovery spec ++ namespaceScopedResources discovery spec ++
    clusterScopedResources discovery spec

def upsyncSetResources (ord : RangeOrder) (upsync : UpsyncSet) : List EdgeSyncConfigResource :=
  upsync.resources.flatMap fun resource =>
    (findVersionedResourcesByGV discovery upsync.apiGroup resource ord).flatMap fun versionedResource =>
      if versionedResource.namespaced then
        upsync.namespaces.flatMap fun ns => upsync.names.map fun name =>
          { group := upsync.apiGroup, version := versionedResource.version, kind := versionedResource.kind, ns, name }
      else
        upsync.names.map fun name =>
          { group := upsync.apiGroup, version := versionedResource.version, kind := versionedResource.kind, name
            ns := "" }

/-- The resources that `upsertUpsync` collects. -/
def upsyncResources (ord : RangeOrder) : List EdgeSyncConfigResource :=
  (MapSet.addAll ∅ (spec.upsync.items.flatMap UpsyncSet.namespaces)).keys.map namespaceResource ++
    spec.upsync.items.flatMap (upsyncSetResources discovery ord)

inductive Downsyncs (discovery : Discovery) (spec : SyncerConfigSpec) : EdgeSyncConfigResource → Prop
  | namespaceScopeNamespace {ns : String} (hNs : ns ∈ spec.namespaceScope.namespaces.items) :
    Downsyncs discovery spec (namespaceResource ns)
  | objectsNamespace {nsObject : NamespaceScopeDownsyncObjects} (hObject : nsObject ∈ spec.namespacedObjects.items)
    {obj : NamespaceAndNames} (hObj : obj ∈ nsObject.objectsByNamespace.items) (hNames : obj.names.items ≠ []) :
    Downsyncs discovery spec (namespaceResource obj.ns)
  | namespaceScope {ns : String} (hNs : ns ∈ spec.namespaceScope.namespaces.items) {r : NamespaceScopeDownsyncResource}
    (hResource : r ∈ spec.namespaceScope.resources.items) {kind : String}
    (hKind : Discovers discovery r.groupResource.group r.apiVersion r.groupResource.resource kind) :
    Downsyncs discovery spec ⟨kind, r.groupResource.group, r.apiVersion, "*", ns⟩
  | namespacedObject {nsObject : NamespaceScopeDownsyncObjects} (hObject : nsObject ∈ spec.namespacedObjects.items)
    {obj : NamespaceAndNames} (hObj : obj ∈ nsObject.objectsByNamespace.items) {name : String}
    (hName : name ∈ obj.names.items) {kind : String}
    (hKind : Discovers discovery nsObject.groupResource.group nsObject.apiVersion
      nsObject.groupResource.resource kind) :
    Downsyncs discovery spec ⟨kind, nsObject.groupResource.group, nsObject.apiVersion, name, obj.ns⟩
  | clusterScope {entry : ClusterScopeDownsyncResource} (hEntry : entry ∈ spec.clusterScope.items) {name : String}
    (hName : name ∈ entry.objects.items) {kind : String}
    (hKind : Discovers discovery entry.groupResource.group entry.apiVersion entry.groupResource.resource kind) :
    Downsyncs discovery spec ⟨kind, entry.groupResource.group, entry.apiVersion, name, ""⟩

/-- The resources that the spec names are no wildcards, and it names the objects of the cluster scope. -/
structure Explicit (spec : SyncerConfigSpec) : Prop where
  namespaceScope : ∀ r ∈ spec.namespaceScope.resources.items, r.groupResource.resource ≠ "*"
  namespacedObjects : ∀ nsObject ∈ spec.namespacedObjects.items, nsObject.groupResource.resource ≠ "*"
  clusterScope : ∀ entry ∈ spec.clusterScope.items, entry.groupResource.resource ≠ "*"
  objects : ∀ entry ∈ spec.clusterScope.items, entry.objects.items ≠ []

variable {discovery : Discovery} {spec : SyncerConfigSpec} {resource : EdgeSyncConfigResource}
  {entry : ClusterScopeDownsyncResource}

theorem mem_keys_addAll {l : List String} {a : String} : a ∈ (MapSet.addAll ∅ l).keys ↔ a ∈ l := by
  rw [GoMap.mem_keys_iff, ← Option.isSome_iff_exists]
  exact MapSet.has_addAll_empty_iff l a

theorem mem_namespaceScopedResources_iff : resource ∈ namespaceScopedResources discovery spec ↔
    ∃ ns ∈ spec.namespaceScope.namespaces.items, resource = namespaceResource ns ∨
      ∃ r ∈ spec.namespaceScope.resources.items,
        ∃ v ∈ findVersionedResourcesByGVR discovery r.groupResource.group r.apiVersion r.groupResource.resource,
          resource = ⟨v.kind, r.groupResource.group, r.apiVersion, "*", ns⟩ := by
  simp only [namespaceScopedResources, mem_flatMap, mem_cons, mem_map, eq_comm]

theorem mem_flatNamespacedObjects_iff {row : FlatNamespacedObject} : row ∈ flatNamespacedObjects spec ↔
    ∃ nsObject ∈ spec.namespacedObjects.items, ∃ obj ∈ nsObject.objectsByNamespace.items,
      ⟨nsObject.apiVersion, nsObject.groupResource, obj.ns, obj.names⟩ = row := by
  simp only [flatNamespacedObjects, mem_flatMap, mem_map]

theorem mem_namespacedObjectsResources_iff : resource ∈ namespacedObjectsResources discovery spec ↔
    ∃ nsObject ∈ spec.namespacedObjects.items, ∃ obj ∈ nsObject.objectsByNamespace.items,
      (obj.names.items ≠ [] ∧ resource = namespaceResource obj.ns) ∨
        ∃ v ∈ findVersionedResourcesByGVR discovery nsObject.groupResource.group nsObject.apiVersion
            nsObject.groupResource.resource,
          ∃ name ∈ obj.names.items,
            resource = ⟨v.kind, nsObject.groupResource.group, nsObject.apiVersion, name, obj.ns⟩ := by
  have hRequired : ∀ ns, ns ∈ getAllNamespaces ((flatNamespacedObjects spec).filter fun row =>
      row.names.items.length > 0) ↔ ∃ row ∈ flatNamespacedObjects spec, row.names.items ≠ [] ∧ row.ns = ns := by
    intro ns
    rw [getAllNamespaces, mem_keys_addAll, mem_map]
    simp only [mem_filter, gt_iff_lt, length_pos_iff, decide_eq_true_eq, and_assoc]
  simp only [namespacedObjectsResources, mem_append, mem_map, hRequired, mem_flatMap, mem_flatNamespacedObjects_iff]
  constructor
  · rintro (⟨ns, ⟨-, ⟨nsObject, hObject, obj, hObj, rfl⟩, hNames, rfl⟩, rfl⟩ |
      ⟨-, ⟨nsObject, hObject, obj, hObj, rfl⟩, v, hFound, name, hName, rfl⟩)
    · exact ⟨nsObject, hObject, obj, hObj, .inl ⟨hNames, rfl⟩⟩
    · exact ⟨nsObject, hObject, obj, hObj, .inr ⟨v, hFound, name, hName, rfl⟩⟩
  · rintro ⟨nsObject, hObject, obj, hObj, ⟨hNames, rfl⟩ | ⟨v, hFound, name, hName, rfl⟩⟩
    · exact .inl ⟨obj.ns, ⟨_, ⟨nsObject, hObject, obj, hObj, rfl⟩, hNames, rfl⟩, rfl⟩
    · exact .inr ⟨_, ⟨nsObject, hObject, obj, hObj, rfl⟩, v, hFound, name, hName, rfl⟩

def ClusterScopeDownsyncResource.names (entry : ClusterScopeDownsyncResource) : List String := entry.objects.getD ["*"]

theorem ClusterScopeDownsyncResource.names_of_objects
    (hObjects : entry.objects.items ≠ []) : entry.names = entry.objects.items := by
  rw [names]
  cases hSlice : entry.objects with
  | none =>
    rw [hSlice] at hObjects
    exact absurd rfl hObjects
  | some objects => rfl

open ClusterScopeDownsyncResource

theorem mem_clusterScopeEntryResources_iff : resource ∈ clusterScopeEntryResources discovery entry ↔
      ∃ v ∈ findVersionedResourcesByGVR discovery entry.groupResource.group entry.apiVersion
          entry.groupResource.resource,
        ∃ name ∈ entry.names, resource = ⟨v.kind, entry.groupResource.group, entry.apiVersion, name, ""⟩ := by
  rw [clusterScopeEntryResources, names]
  split
  · rename_i hEmpty
    rw [hEmpty]
    simp
  · rw [mem_flatMap]
    cases entry.objects with
    | none => simp
    | some objects => simp only [mem_map, Option.getD_some, eq_comm]

theorem mem_clusterScopedResources_iff : resource ∈ clusterScopedResources discovery spec ↔
    ∃ entry ∈ spec.clusterScope.items, resource ∈ clusterScopeEntryResources discovery entry := by
  rw [clusterScopedResources, mem_flatMap]

theorem mem_downsyncedResources_iff : resource ∈ downsyncedResources discovery spec ↔
    (resource ∈ namespacedObjectsResources discovery spec ∨ resource ∈ namespaceScopedResources discovery spec) ∨
      resource ∈ clusterScopedResources discovery spec := by
  rw [downsyncedResources, mem_append, mem_append]

theorem mem_downsyncedResources_iff_downsyncs (hExplicit : Explicit spec) :
    resource ∈ downsyncedResources discovery spec ↔ Downsyncs discovery spec resource := by
  rw [mem_downsyncedResources_iff, mem_namespacedObjectsResources_iff, mem_namespaceScopedResources_iff,
    mem_clusterScopedResources_iff]
  simp only [mem_clusterScopeEntryResources_iff]
  constructor
  · rintro ((⟨nsObject, hObject, obj, hObj, ⟨hNames, rfl⟩ | ⟨v, hFound, name, hName, rfl⟩⟩ |
      ⟨ns, hNs, rfl | ⟨r, hR, v, hFound, rfl⟩⟩) | ⟨entry, hEntry, v, hFound, name, hName, rfl⟩)
    · exact .objectsNamespace hObject hObj hNames
    · exact .namespacedObject hObject hObj hName
        ((exists_findVersionedResourcesByGVR_iff (hExplicit.namespacedObjects nsObject hObject)).mp ⟨v, hFound, rfl⟩)
    · exact .namespaceScopeNamespace hNs
    · exact .namespaceScope hNs hR
        ((exists_findVersionedResourcesByGVR_iff (hExplicit.namespaceScope r hR)).mp ⟨v, hFound, rfl⟩)
    · refine .clusterScope hEntry ?_
        ((exists_findVersionedResourcesByGVR_iff (hExplicit.clusterScope entry hEntry)).mp ⟨v, hFound, rfl⟩)
      rwa [names_of_objects (hExplicit.objects entry hEntry)] at hName
  · rintro (hNs | ⟨hObject, hObj, hNames⟩ | ⟨hNs, hR, hKind⟩ | ⟨hObject, hObj, hName, hKind⟩ | ⟨hEntry, hName, hKind⟩)
    · exact .inl (.inr ⟨_, hNs, .inl rfl⟩)
    · exact .inl (.inl ⟨_, hObject, _, hObj, .inl ⟨hNames, rfl⟩⟩)
    · obtain ⟨v, hFound, rfl⟩ := (exists_findVersionedResourcesByGVR_iff (hExplicit.namespaceScope _ hR)).mpr hKind
      exact .inl (.inr ⟨_, hNs, .inr ⟨_, hR, v, hFound, rfl⟩⟩)
    · obtain ⟨v, hFound, rfl⟩ :=
        (exists_findVersionedResourcesByGVR_iff (hExplicit.namespacedObjects _ hObject)).mpr hKind
      exact .inl (.inl ⟨_, hObject, _, hObj, .inr ⟨v, hFound, _, hName, rfl⟩⟩)
    · obtain ⟨v, hFound, rfl⟩ := (exists_findVersionedResourcesByGVR_iff (hExplicit.clusterScope _ hEntry)).mpr hKind
      refine .inr ⟨_, hEntry, v, hFound, _, ?_, rfl⟩
      rwa [names_of_objects (hExplicit.objects _ hEntry)]

def coreGroup : APIGroupResources where
  groupName := ""
  versionedResources := GoMap.ofList [("v1", [⟨"configmaps", true, "", "ConfigMap"⟩, ⟨"nodes", false, "", "Node"⟩])]

def coreDiscovery : Discovery := ⟨[coreGroup], nodup_singleton _⟩

end KubeStellar.Syncer
