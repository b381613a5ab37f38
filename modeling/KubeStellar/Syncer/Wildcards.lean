import KubeStellar.Syncer.SyncerConfig

/-! # What a wildcard resource stands for

The discovery of an API lists subresources too, under names with a slash. A wildcard takes them all, so a kind that
only a subresource has gets among those to be synced, for which there is no resource and no client.
-/

namespace KubeStellar.Syncer

open List

def Plain (r : APIResource) : Prop := '/' ∉ r.name.toList

/-- A resource proper of the group has the kind. -/
def PlainKind (discovery : Discovery) (group kind : String) : Prop :=
  ∃ version r, Listed discovery group version r ∧ Plain r ∧ r.kind = kind

variable {discovery : Discovery} {spec : SyncerConfigSpec} {group version resource kind : String}

inductive NamesDown (spec : SyncerConfigSpec) : String → String → String → Prop
  | namespaceScope {ns : String} (hNs : ns ∈ spec.namespaceScope.namespaces.items) {r : NamespaceScopeDownsyncResource}
    (hResource : r ∈ spec.namespaceScope.resources.items) :
    NamesDown spec r.groupResource.group r.apiVersion r.groupResource.resource
  | namespacedObjects {nsObject : NamespaceScopeDownsyncObjects} (hObject : nsObject ∈ spec.namespacedObjects.items)
    {obj : NamespaceAndNames} (hObj : obj ∈ nsObject.objectsByNamespace.items) (hNames : obj.names.items ≠ []) :
    NamesDown spec nsObject.groupResource.group nsObject.apiVersion nsObject.groupResource.resource
  | clusterScope {entry : ClusterScopeDownsyncResource} (hEntry : entry ∈ spec.clusterScope.items)
    (hNames : entry.objects ≠ some []) :
    NamesDown spec entry.groupResource.group entry.apiVersion entry.groupResource.resource

inductive NamespacesDown (spec : SyncerConfigSpec) : Prop
  | namespaceScope {ns : String} (hNs : ns ∈ spec.namespaceScope.namespaces.items)
  | namespacedObjects {nsObject : NamespaceScopeDownsyncObjects} (hObject : nsObject ∈ spec.namespacedObjects.items)
    {obj : NamespaceAndNames} (hObj : obj ∈ nsObject.objectsByNamespace.items) (hNames : obj.names.items ≠ [])

theorem ClusterScopeDownsyncResource.names_eq_nil_iff {entry : ClusterScopeDownsyncResource} :
    entry.names = [] ↔ entry.objects = some [] := by
  rw [names]
  cases entry.objects <;> simp

theorem exists_downsynced_iff :
    (∃ r ∈ downsyncedResources discovery spec, r.group = group ∧ r.version = version ∧ r.kind = kind) ↔
      (NamespacesDown spec ∧ group = "" ∧ version = "v1" ∧ kind = "Namespace") ∨
        ∃ resource, NamesDown spec group version resource ∧
          ∃ v, Listed discovery group version v ∧ selects resource v = true ∧ v.kind = kind := by
  simp only [mem_downsyncedResources_iff, mem_namespacedObjectsResources_iff, mem_namespaceScopedResources_iff,
    mem_clusterScopedResources_iff, mem_clusterScopeEntryResources_iff, mem_findVersionedResourcesByGVR_iff]
  constructor
  · rintro ⟨r, (⟨nsObject, hObject, obj, hObj, ⟨hNames, rfl⟩ | ⟨v, hFound, name, hName, rfl⟩⟩ |
      ⟨ns, hNs, rfl | ⟨e, hE, v, hFound, rfl⟩⟩) | ⟨entry, hEntry, v, hFound, name, hName, rfl⟩, rfl, rfl, rfl⟩
    · exact .inl ⟨.namespacedObjects hObject hObj hNames, rfl, rfl, rfl⟩
    · exact .inr ⟨_, .namespacedObjects hObject hObj (ne_nil_of_mem hName), v, hFound.1, hFound.2, rfl⟩
    · exact .inl ⟨.namespaceScope hNs, rfl, rfl, rfl⟩
    · exact .inr ⟨_, .namespaceScope hNs hE, v, hFound.1, hFound.2, rfl⟩
    · refine .inr ⟨_, .clusterScope hEntry fun hEmpty => ?_, v, hFound.1, hFound.2, rfl⟩
      rw [ClusterScopeDownsyncResource.names_eq_nil_iff.mpr hEmpty] at hName
      cases hName
  · rintro (⟨hNs | ⟨hObject, hObj, hNames⟩, rfl, rfl, rfl⟩ | ⟨resource, hNamed, v, hListed, hSelects, rfl⟩)
    · exact ⟨_, .inl (.inr ⟨_, hNs, .inl rfl⟩), rfl, rfl, rfl⟩
    · exact ⟨_, .inl (.inl ⟨_, hObject, _, hObj, .inl ⟨hNames, rfl⟩⟩), rfl, rfl, rfl⟩
    · cases hNamed with
      | namespaceScope hNs hE =>
        exact ⟨_, .inl (.inr ⟨_, hNs, .inr ⟨_, hE, v, ⟨hListed, hSelects⟩, rfl⟩⟩), rfl, rfl, rfl⟩
      | namespacedObjects hObject hObj hNames =>
        obtain ⟨name, hName⟩ := exists_mem_of_ne_nil _ hNames
        exact ⟨_, .inl (.inl ⟨_, hObject, _, hObj, .inr ⟨v, ⟨hListed, hSelects⟩, name, hName, rfl⟩⟩), rfl, rfl, rfl⟩
      | clusterScope hEntry hNames =>
        obtain ⟨name, hName⟩ := exists_mem_of_ne_nil _ (ClusterScopeDownsyncResource.names_eq_nil_iff.not.mpr hNames)
        exact ⟨_, .inr ⟨_, hEntry, v, ⟨hListed, hSelects⟩, name, hName, rfl⟩, rfl, rfl, rfl⟩

def NamesUp (spec : SyncerConfigSpec) (group : String) (v : APIResource) : Prop :=
  ∃ upsync ∈ spec.upsync.items, upsync.apiGroup = group ∧ (∃ resource ∈ upsync.resources, selects resource v = true) ∧
    upsync.names ≠ [] ∧ (v.namespaced = true → upsync.namespaces ≠ [])

def NamespacesUp (spec : SyncerConfigSpec) : Prop := ∃ upsync ∈ spec.upsync.items, upsync.namespaces ≠ []

variable {ord : RangeOrder}

theorem exists_upsyncSet_iff {upsync : UpsyncSet} :
    (∃ r ∈ upsyncSetResources discovery ord upsync, r.group = group ∧ r.kind = kind) ↔
      upsync.apiGroup = group ∧ upsync.names ≠ [] ∧ ∃ version v, Listed discovery group version v ∧
        (∃ resource ∈ upsync.resources, selects resource v = true) ∧ (v.namespaced = true → upsync.namespaces ≠ []) ∧
          v.kind = kind := by
  simp only [upsyncSetResources, mem_flatMap, mem_findVersionedResourcesByGV_iff]
  constructor
  · rintro ⟨r, ⟨resource, hResource, _, ⟨version, v, hListed, hSelects, rfl⟩, hIn⟩, rfl, rfl⟩
    obtain ⟨-, hNsd, hKind⟩ := withVersion_fields version v
    rw [hNsd, hKind] at hIn
    split at hIn
    · simp only [mem_flatMap, mem_map] at hIn
      obtain ⟨ns, hNs, name, hName, rfl⟩ := hIn
      exact ⟨rfl, ne_nil_of_mem hName, version, v, hListed, ⟨resource, hResource, hSelects⟩,
        fun _ => ne_nil_of_mem hNs, rfl⟩
    · next hCluster =>
      obtain ⟨name, hName, rfl⟩ := mem_map.mp hIn
      exact ⟨rfl, ne_nil_of_mem hName, version, v, hListed, ⟨resource, hResource, hSelects⟩,
        fun hOther => absurd hOther hCluster, rfl⟩
  · rintro ⟨rfl, hNames, version, v, hListed, ⟨resource, hResource, hSelects⟩, hNss, rfl⟩
    obtain ⟨-, hNsd, hKind⟩ := withVersion_fields version v
    obtain ⟨name, hName⟩ := exists_mem_of_ne_nil _ hNames
    cases hScope : v.namespaced with
    | true =>
      obtain ⟨ns, hNs⟩ := exists_mem_of_ne_nil _ (hNss hScope)
      refine ⟨⟨v.kind, upsync.apiGroup, (withVersion version v).version, name, ns⟩,
        ⟨resource, hResource, _, ⟨version, v, hListed, hSelects, rfl⟩, ?_⟩, rfl, rfl⟩
      rw [hNsd, hKind, if_pos hScope]
      exact mem_flatMap.mpr ⟨ns, hNs, mem_map.mpr ⟨name, hName, rfl⟩⟩
    | false =>
      refine ⟨⟨v.kind, upsync.apiGroup, (withVersion version v).version, name, ""⟩,
        ⟨resource, hResource, _, ⟨version, v, hListed, hSelects, rfl⟩, ?_⟩, rfl, rfl⟩
      rw [hNsd, hKind, hScope, if_neg Bool.false_ne_true]
      exact mem_map.mpr ⟨name, hName, rfl⟩

theorem exists_upsynced_iff : (∃ r ∈ upsyncResources discovery spec ord, r.group = group ∧ r.kind = kind) ↔
      (NamespacesUp spec ∧ group = "" ∧ kind = "Namespace") ∨
        ∃ version v, Listed discovery group version v ∧ NamesUp spec group v ∧ v.kind = kind := by
  simp only [upsyncResources, mem_append, mem_map, mem_keys_addAll, mem_flatMap]
  constructor
  · rintro ⟨r, ⟨ns, ⟨upsync, hUpsync, hNs⟩, rfl⟩ | ⟨upsync, hUpsync, hIn⟩, hGroup, hKind⟩
    · exact .inl ⟨⟨upsync, hUpsync, ne_nil_of_mem hNs⟩, hGroup.symm, hKind.symm⟩
    · obtain ⟨hGroup, hNames, version, v, hListed, hResource, hNss, hKind⟩ :=
        exists_upsyncSet_iff.mp ⟨r, hIn, hGroup, hKind⟩
      exact .inr ⟨version, v, hListed, ⟨upsync, hUpsync, hGroup, hResource, hNames, hNss⟩, hKind⟩
  · rintro (⟨⟨upsync, hUpsync, hNss⟩, rfl, rfl⟩ |
      ⟨version, v, hListed, ⟨upsync, hUpsync, hGroup, hResource, hNames, hNss⟩, hKind⟩)
    · obtain ⟨ns, hNs⟩ := exists_mem_of_ne_nil _ hNss
      exact ⟨_, .inl ⟨ns, ⟨upsync, hUpsync, hNs⟩, rfl⟩, rfl, rfl⟩
    · obtain ⟨r, hIn, hFields⟩ :=
        exists_upsyncSet_iff.mpr ⟨hGroup, hNames, version, v, hListed, hResource, hNss, hKind⟩
      exact ⟨r, .inr ⟨upsync, hUpsync, hIn⟩, hFields⟩

/-- The kinds that are synced are those of resources proper of the same group, and those of the resources proper that a
wildcard stands for are among them: of its version for the way down, of all versions for the way up. -/
structure WildcardsPlain (upstream downstream : Discovery) (ord : RangeOrder) (spec : SyncerConfigSpec) : Prop where
  down : ∀ r ∈ downsyncedResources upstream spec, PlainKind upstream r.group r.kind
  up : ∀ r ∈ upsyncResources downstream spec ord, PlainKind downstream r.group r.kind
  downPresent : ∀ group version, NamesDown spec group version "*" → ∀ v, Listed upstream group version v → Plain v →
    ∃ r ∈ downsyncedResources upstream spec, r.group = group ∧ r.version = version ∧ r.kind = v.kind
  upPresent : ∀ upsync ∈ spec.upsync.items, "*" ∈ upsync.resources → upsync.names ≠ [] →
    ∀ version v, Listed downstream upsync.apiGroup version v → Plain v →
      (v.namespaced = true → upsync.namespaces ≠ []) →
        ∃ r ∈ upsyncResources downstream spec ord, r.group = upsync.apiGroup ∧ r.kind = v.kind

/-- The subresources that are selected share their kinds with resources proper of the group, and the kind of namespaces
is served if it is needed. -/
structure SubresourcesCovered (upstream downstream : Discovery) (spec : SyncerConfigSpec) : Prop where
  namespacesDown : NamespacesDown spec → PlainKind upstream "" "Namespace"
  namespacesUp : NamespacesUp spec → PlainKind downstream "" "Namespace"
  down : ∀ group version resource, NamesDown spec group version resource →
    ∀ v, Listed upstream group version v → selects resource v = true → ¬ Plain v → PlainKind upstream group v.kind
  up : ∀ group version v, Listed downstream group version v → NamesUp spec group v → ¬ Plain v →
    PlainKind downstream group v.kind

theorem selects_wildcard (v : APIResource) : selects "*" v = true := by
  rw [selects, decide_eq_true rfl, Bool.or_true]

theorem plainKind_of_subresource {v : APIResource} (hListed : Listed discovery group version v)
    (hSub : ¬ Plain v → PlainKind discovery group v.kind) : PlainKind discovery group v.kind :=
  (Classical.em (Plain v)).elim (fun hPlain => ⟨version, v, hListed, hPlain, rfl⟩) hSub

/-- The kinds are right if and only if every subresource that is selected shares its kind with a resource proper. -/
theorem wildcardsPlain_iff (upstream downstream : Discovery) (ord : RangeOrder) (spec : SyncerConfigSpec) :
    WildcardsPlain upstream downstream ord spec ↔ SubresourcesCovered upstream downstream spec := by
  constructor
  · intro hPlain
    refine ⟨fun hNs => ?_, fun hNs => ?_, fun group version resource hNamed v hListed hSelects _ => ?_,
      fun group version v hListed hNamed _ => ?_⟩
    · obtain ⟨r, hIn, hGroup, -, hKind⟩ := exists_downsynced_iff.mpr (.inl ⟨hNs, rfl, rfl, rfl⟩)
      exact hGroup ▸ hKind ▸ hPlain.down r hIn
    · obtain ⟨r, hIn, hGroup, hKind⟩ := exists_upsynced_iff.mpr (.inl ⟨hNs, rfl, rfl⟩)
      exact hGroup ▸ hKind ▸ hPlain.up r hIn
    · obtain ⟨r, hIn, hGroup, -, hKind⟩ := exists_downsynced_iff.mpr
        (.inr ⟨resource, hNamed, v, hListed, hSelects, rfl⟩)
      exact hGroup ▸ hKind ▸ hPlain.down r hIn
    · obtain ⟨r, hIn, hGroup, hKind⟩ := exists_upsynced_iff.mpr (.inr ⟨version, v, hListed, hNamed, rfl⟩)
      exact hGroup ▸ hKind ▸ hPlain.up r hIn
  · intro hCovered
    constructor
    · intro r hIn
      obtain ⟨hNs, hGroup, -, hKind⟩ | ⟨resource, hNamed, v, hListed, hSelects, hKind⟩ :=
        exists_downsynced_iff.mp ⟨r, hIn, rfl, rfl, rfl⟩
      · exact hGroup ▸ hKind ▸ hCovered.namespacesDown hNs
      · exact hKind ▸ plainKind_of_subresource hListed (hCovered.down _ _ _ hNamed v hListed hSelects)
    · intro r hIn
      obtain ⟨hNs, hGroup, hKind⟩ | ⟨version, v, hListed, hNamed, hKind⟩ := exists_upsynced_iff.mp ⟨r, hIn, rfl, rfl⟩
      · exact hGroup ▸ hKind ▸ hCovered.namespacesUp hNs
      · exact hKind ▸ plainKind_of_subresource hListed (hCovered.up _ _ v hListed hNamed)
    -- The resources proper are there with the subresources.
    · intro group version hNamed v hListed _
      exact exists_downsynced_iff.mpr (.inr ⟨"*", hNamed, v, hListed, selects_wildcard v, rfl⟩)
    · intro upsync hUpsync hWildcard hNames version v hListed _ hNamespaces
      have hNamed : NamesUp spec upsync.apiGroup v :=
        ⟨upsync, hUpsync, rfl, ⟨"*", hWildcard, selects_wildcard v⟩, hNames, hNamespaces⟩
      exact exists_upsynced_iff.mpr (.inr ⟨version, v, hListed, hNamed, rfl⟩)

def appsGroup : APIGroupResources where
  groupName := "apps"
  versionedResources := GoMap.ofList [("v1", [⟨"deployments", true, "", "Deployment"⟩,
    ⟨"deployments/status", true, "", "Deployment"⟩, ⟨"deployments/scale", true, "", "Scale"⟩])]

def namespaceGroup : APIGroupResources where
  groupName := ""
  versionedResources := GoMap.ofList [("v1", [⟨"namespaces", false, "", "Namespace"⟩])]

theorem appsDiscovery_nodup : ([namespaceGroup, appsGroup].map APIGroupResources.groupName).Nodup := by
  simp [namespaceGroup, appsGroup]

def appsDiscovery : Discovery := ⟨[namespaceGroup, appsGroup], appsDiscovery_nodup⟩

def appsUpsync : SyncerConfigSpec where
  namespaceScope := ⟨none, none⟩
  namespacedObjects := none
  clusterScope := none
  upsync := some [⟨"apps", ["*"], ["default"], ["web"]⟩]

/-- The kind of a subresource is to be upsynced, and no resource proper has it. -/
theorem scale_upsynced_by_wildcard : (⟨"Scale", "apps", "v1", "web", "default"⟩ : EdgeSyncConfigResource) ∈
      upsyncResources appsDiscovery appsUpsync .insertion ∧
    ¬ PlainKind appsDiscovery "apps" "Scale" ∧ ¬ WildcardsPlain coreDiscovery appsDiscovery .insertion appsUpsync := by
  have hIn : (⟨"Scale", "apps", "v1", "web", "default"⟩ : EdgeSyncConfigResource) ∈
      upsyncResources appsDiscovery appsUpsync .insertion := by decide
  have hKind : ¬ PlainKind appsDiscovery "apps" "Scale" := by
    have hSub : ∀ groupResources ∈ appsDiscovery.groups, ∀ e ∈ groupResources.versionedResources.entries, ∀ r ∈ e.2,
        r.kind = "Scale" → '/' ∈ r.name.toList := by decide
    rintro ⟨version, r, ⟨groupResources, hMem, -, resources, hGet, hListed⟩, hPlain, hKind⟩
    exact hPlain (hSub groupResources hMem _ ((GoMap.get_eq_some_iff _ _ _).mp hGet) r hListed hKind)
  exact ⟨hIn, hKind, fun hPlain => hKind (hPlain.up _ hIn)⟩

end KubeStellar.Syncer
