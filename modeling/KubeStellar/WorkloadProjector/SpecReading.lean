import KubeStellar.WorkloadProjector.SyncerConfig

/-! # What a spec that passes the check denotes

`syncerConfigIsGood` reads the lists of a spec into maps keyed by resource. Entries of `namespacedObjects` for one
resource are united under the version of the first; of those of `clusterScope` only the last one is read.
-/

namespace KubeStellar.WorkloadProjector

open List Option

/-- The spec lists what the relations have, and nothing else. -/
structure SyncerConfigSpec.Denotes (spec : SyncerConfigSpec) (relations : SyncerConfigSpecRelations) : Prop where
  namespaced : ∀ gr version nn, spec.ListsNamespaced gr version nn ↔
    entry relations.namespacedObjects gr nn = some ⟨version⟩
  clusterScoped : ∀ gr version name, spec.ListsClusterScoped gr version name ↔
    entry relations.clusterScopedObjects gr name = some ⟨version⟩
  upsyncs : ∀ upsync, upsync ∈ spec.upsync ↔ relations.upsyncs.has upsync = true

variable (spec : SyncerConfigSpec)

def SyncerConfigSpec.OneVersion : Prop :=
  ∀ cr ∈ spec.namespacedObjects, (∃ nn, cr.Matches nn) →
    ∀ first, spec.namespacedObjects.find? (fun cr' => cr'.groupResource = cr.groupResource) = some first →
      first.apiVersion = cr.apiVersion

def SyncerConfigSpec.LastListsAll : Prop :=
  ∀ cr ∈ spec.clusterScope, ∀ name ∈ cr.objects,
    ∀ last, spec.clusterScope.reverse.find? (fun cr' => cr'.groupResource = cr.groupResource) = some last →
      last.apiVersion = cr.apiVersion ∧ name ∈ last.objects

variable (ord : RangeOrder) (spec : SyncerConfigSpec) (gr : GroupResource) (version : String)

theorem Agree.refl {Obj : Type} [DecidableEq Obj] (m : GoMap GroupResource (ProjectionModeVal × MapSet Obj)) :
    Agree m m := by
  intro gr
  cases m.get gr with
  | none => exact Option.Rel.none
  | some nso => exact Option.Rel.some ⟨rfl, fun _ => Iff.rfl⟩

theorem Agree.entry_eq {Obj : Type} [DecidableEq Obj] {m m' : GoMap GroupResource (ProjectionModeVal × MapSet Obj)}
    (hAgree : Agree m m') (gr : GroupResource) (obj : Obj) : entry m gr obj = entry m' gr obj := by
  have hGR := hAgree gr
  rw [entry, entry]
  generalize m.get gr = nso at hGR
  generalize m'.get gr = nso' at hGR
  cases hGR with
  | none => rfl
  | some hSame => simp only [bind_some, hSame.1, hSame.2 obj]

theorem entry_haveNamespacedObjects_iff (nn : NamespacedName) :
    entry (haveNamespacedObjects ord spec) gr nn = some ⟨version⟩ ↔
      ∃ first, spec.namespacedObjects.find? (fun cr => cr.groupResource = gr) = some first ∧
        first.apiVersion = version ∧ ∃ cr ∈ spec.namespacedObjects, cr.groupResource = gr ∧ cr.Matches nn := by
  have hUnites := haveNamespacedObjects_unites ord spec gr
  rw [entry]
  generalize (haveNamespacedObjects ord spec).get gr = mapping at hUnites
  generalize spec.namespacedObjects.find? (fun cr => cr.groupResource = gr) = first? at hUnites
  cases hUnites with
  | none => simp
  | some hSame =>
    obtain ⟨hMode, hHas⟩ := hSame
    rw [bind_some, hMode, ← hHas]
    simp [and_comm]

theorem get_haveClusterScopedResources : (haveClusterScopedResources spec).get gr =
      (spec.clusterScope.reverse.find? fun cr => cr.groupResource = gr).map fun cr =>
        (⟨cr.apiVersion⟩, MapSet.addAll ∅ cr.objects) := by
  rw [haveClusterScopedResources, GoMap.ofList, GoMap.get_putAll, ← map_reverse, List.find?_map]
  simp [Function.comp_def]

theorem entry_haveClusterScopedResources_iff (name : ObjectName) :
    entry (haveClusterScopedResources spec) gr name = some ⟨version⟩ ↔
      ∃ last, spec.clusterScope.reverse.find? (fun cr => cr.groupResource = gr) = some last ∧
        last.apiVersion = version ∧ name ∈ last.objects := by
  rw [entry, get_haveClusterScopedResources]
  cases spec.clusterScope.reverse.find? (fun cr => cr.groupResource = gr) with
  | none => simp
  | some last =>
    have hHas := MapSet.has_addAll_empty_iff last.objects name
    by_cases hName : name ∈ last.objects
    · simp [hHas.mpr hName, hName]
    · simp [hHas, hName]

theorem listsNamespaced_iff_oneVersion : (∀ gr version nn, spec.ListsNamespaced gr version nn ↔
        entry (haveNamespacedObjects ord spec) gr nn = some ⟨version⟩) ↔ spec.OneVersion := by
  simp only [entry_haveNamespacedObjects_iff]
  constructor
  · rintro hSame cr hMem ⟨nn, hMatches⟩ first hFirst
    obtain ⟨first', hFirst', hVersion, -⟩ := (hSame cr.groupResource cr.apiVersion nn).mp ⟨cr, hMem, rfl, rfl, hMatches⟩
    exact Option.mem_unique hFirst hFirst' ▸ hVersion
  · intro hOne gr version nn
    constructor
    · rintro ⟨cr, hMem, rfl, rfl, hMatches⟩
      obtain ⟨first, hFirst⟩ : ∃ first,
          spec.namespacedObjects.find? (fun cr' => cr'.groupResource = cr.groupResource) = some first :=
        isSome_iff_exists.mp (List.find?_isSome.mpr ⟨cr, hMem, by simp⟩)
      exact ⟨first, hFirst, hOne cr hMem ⟨nn, hMatches⟩ first hFirst, cr, hMem, rfl, hMatches⟩
    · rintro ⟨first, hFirst, rfl, cr, hMem, rfl, hMatches⟩
      exact ⟨cr, hMem, rfl, (hOne cr hMem ⟨nn, hMatches⟩ first hFirst).symm, hMatches⟩

theorem listsClusterScoped_iff_lastListsAll : (∀ gr version name, spec.ListsClusterScoped gr version name ↔
        entry (haveClusterScopedResources spec) gr name = some ⟨version⟩) ↔ spec.LastListsAll := by
  simp only [entry_haveClusterScopedResources_iff]
  constructor
  · intro hSame cr hMem name hName last hLast
    obtain ⟨last', hLast', hListed⟩ := (hSame cr.groupResource cr.apiVersion name).mp ⟨cr, hMem, rfl, rfl, hName⟩
    exact Option.mem_unique hLast hLast' ▸ hListed
  · intro hLastAll gr version name
    constructor
    · rintro ⟨cr, hMem, rfl, rfl, hName⟩
      obtain ⟨last, hLast⟩ : ∃ last,
          spec.clusterScope.reverse.find? (fun cr' => cr'.groupResource = cr.groupResource) = some last :=
        isSome_iff_exists.mp (List.find?_isSome.mpr ⟨cr, mem_reverse.mpr hMem, by simp⟩)
      exact ⟨last, hLast, hLastAll cr hMem name hName last hLast⟩
    · rintro ⟨last, hLast, rfl, hName⟩
      refine ⟨last, mem_reverse.mp (mem_of_find?_eq_some hLast), ?_, rfl, hName⟩
      simpa using List.find?_some hLast

theorem denotes_iff_of_isGood {spec : SyncerConfigSpec} {relations : SyncerConfigSpecRelations}
    (hGood : syncerConfigIsGood ord spec relations = true) :
    spec.Denotes relations ↔ spec.OneVersion ∧ spec.LastListsAll := by
  obtain ⟨hNsd, hClusterScoped, hUpsyncs⟩ := (syncerConfigIsGood_iff ord spec relations).mp hGood
  rw [← listsNamespaced_iff_oneVersion ord, ← listsClusterScoped_iff_lastListsAll]
  simp only [← hNsd.entry_eq, ← hClusterScoped.entry_eq]
  exact ⟨fun h => ⟨h.namespaced, h.clusterScoped⟩, fun h => ⟨h.1, h.2, fun upsync => (hUpsyncs upsync).symm⟩⟩

def relationsOf : SyncerConfigSpecRelations :=
  ⟨haveNamespacedObjects ord spec, haveClusterScopedResources spec, MapSet.addAll ∅ spec.upsync⟩

theorem syncerConfigIsGood_relationsOf : syncerConfigIsGood ord spec (relationsOf ord spec) = true := by
  refine (syncerConfigIsGood_iff ord spec _).mpr ⟨Agree.refl _, Agree.refl _, MapSet.has_addAll_empty_iff _⟩

/-- The check is sound for a spec if and only if what is read is all that is listed. -/
theorem isGood_sound_iff (ord : RangeOrder) (spec : SyncerConfigSpec) :
    (∀ relations, syncerConfigIsGood ord spec relations = true → spec.Denotes relations) ↔
      spec.OneVersion ∧ spec.LastListsAll := by
  constructor
  · intro hSound
    have hGood := syncerConfigIsGood_relationsOf ord spec
    exact (denotes_iff_of_isGood ord hGood).mp (hSound _ hGood)
  · intro hKeyed relations hGood
    exact (denotes_iff_of_isGood ord hGood).mpr hKeyed

def configMaps : GroupResource := ⟨"", "configmaps"⟩

/-- Two entries for one namespaced resource, with two versions. -/
def twoVersions : SyncerConfigSpec :=
  ⟨[⟨configMaps, "v1", [⟨"apps", ["a"]⟩]⟩, ⟨configMaps, "v2", [⟨"apps", ["b"]⟩]⟩], [], []⟩

/-- Two entries for one cluster-scoped resource. -/
def twoEntries : SyncerConfigSpec :=
  ⟨[], [⟨⟨"", "namespaces"⟩, "v1", ["a"]⟩, ⟨⟨"", "namespaces"⟩, "v1", ["b"]⟩], []⟩

/-- Two entries for one resource pass although they list what the relations do not have. -/
theorem repeated_entries_pass : (∃ relations, syncerConfigIsGood RangeOrder.insertion twoVersions relations = true ∧
      twoVersions.ListsNamespaced configMaps "v2" ("apps", "b") ∧
      entry relations.namespacedObjects configMaps ("apps", "b") = some ⟨"v1"⟩ ∧ ¬ twoVersions.Denotes relations) ∧
    ∃ relations, syncerConfigIsGood RangeOrder.insertion twoEntries relations = true ∧
      twoEntries.ListsClusterScoped ⟨"", "namespaces"⟩ "v1" "a" ∧
      entry relations.clusterScopedObjects ⟨"", "namespaces"⟩ "a" = none ∧ ¬ twoEntries.Denotes relations := by
  constructor
  · have hLists : twoVersions.ListsNamespaced configMaps "v2" ("apps", "b") :=
      ⟨_, mem_cons_of_mem _ mem_cons_self, rfl, rfl, _, mem_cons_self, rfl, mem_cons_self⟩
    refine ⟨relationsOf RangeOrder.insertion twoVersions, rfl, hLists, rfl, fun hDenotes => ?_⟩
    have hVersions := Option.some.inj ((hDenotes.namespaced _ _ _).mp hLists)
    exact absurd (congrArg ProjectionModeVal.apiVersion hVersions) (by decide)
  · have hLists : twoEntries.ListsClusterScoped ⟨"", "namespaces"⟩ "v1" "a" :=
      ⟨_, mem_cons_self, rfl, rfl, mem_cons_self⟩
    refine ⟨relationsOf RangeOrder.insertion twoEntries, rfl, hLists, rfl, fun hDenotes => ?_⟩
    cases (hDenotes.clusterScoped _ _ _).mp hLists

end KubeStellar.WorkloadProjector
