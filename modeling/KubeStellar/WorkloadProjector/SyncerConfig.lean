import KubeStellar.Containers.Comparison
import KubeStellar.WorkloadProjector.State

/-! # The spec of a SyncerConfig

A spec is written from the relations of a destination as lists of lists, in whatever order the maps are
visited, and an existing spec is read back into maps to be compared with the relations.
-/

namespace KubeStellar.WorkloadProjector

open List

structure NamespaceAndNames where
  ns : String
  names : List String

structure NamespaceScopeDownsyncObjects where
  groupResource : GroupResource
  apiVersion : String
  objectsByNamespace : List NamespaceAndNames

structure ClusterScopeDownsyncResource where
  groupResource : GroupResource
  apiVersion : String
  objects : List String

structure SyncerConfigSpec where
  namespacedObjects : List NamespaceScopeDownsyncObjects
  clusterScope : List ClusterScopeDownsyncResource
  upsync : List UpsyncSet

def NamespaceScopeDownsyncObjects.Matches (cr : NamespaceScopeDownsyncObjects) (nn : NamespacedName) : Prop :=
  ∃ nan ∈ cr.objectsByNamespace, nan.ns = nn.1 ∧ nn.2 ∈ nan.names

variable (spec : SyncerConfigSpec)

def SyncerConfigSpec.ListsNamespaced (gr : GroupResource) (version : String) (nn : NamespacedName) : Prop :=
  ∃ cr ∈ spec.namespacedObjects, cr.groupResource = gr ∧ cr.apiVersion = version ∧ cr.Matches nn

def SyncerConfigSpec.ListsClusterScoped (gr : GroupResource) (version : String) (name : ObjectName) : Prop :=
  ∃ cr ∈ spec.clusterScope, cr.groupResource = gr ∧ cr.apiVersion = version ∧ name ∈ cr.objects

variable (ord : RangeOrder) (nns : List NamespacedName)

def indexNames : FactoredMap NamespaceName ObjectName Unit :=
  nns.foldl (fun indexedNNs nn => indexedNNs.put nn.1 nn.2 ()) ∅

variable (key : GroupResource) (val : ProjectionModeVal × MapSet NamespacedName)

def namespacedObjectsOf : NamespaceScopeDownsyncObjects where
  groupResource := key
  apiVersion := val.1.apiVersion
  objectsByNamespace := (ord.visit (indexNames (visitableToSlice ord val.2)).outer).map fun perNS =>
    ⟨perNS.1, visitableToSlice ord perNS.2⟩

def clusterScopeOf (val : ProjectionModeVal × MapSet ObjectName) : ClusterScopeDownsyncResource :=
  ⟨key, val.1.apiVersion, visitableToSlice ord val.2⟩

def syncerConfigSpecFromRelations (specRelations : SyncerConfigSpecRelations) : SyncerConfigSpec where
  namespacedObjects := (ord.visit specRelations.namespacedObjects).map fun e => namespacedObjectsOf ord e.1 e.2
  clusterScope := (ord.visit specRelations.clusterScopedObjects).map fun e => clusterScopeOf ord e.1 e.2
  upsync := visitableToSlice ord specRelations.upsyncs

theorem get_indexNames_iff (nn : NamespacedName) : (indexNames nns).get nn.1 nn.2 = some () ↔ nn ∈ nns := by
  have hFold : ∀ indexed : FactoredMap NamespaceName ObjectName Unit,
      (nns.foldl (fun indexedNNs nn => indexedNNs.put nn.1 nn.2 ()) indexed).get nn.1 nn.2 = some () ↔
        nn ∈ nns ∨ indexed.get nn.1 nn.2 = some () := by
    induction nns with
    | nil => simp
    | cons nn' rest ih =>
      intro indexed
      rw [foldl_cons, ih, FactoredMap.get_put, mem_cons]
      by_cases hName : nn = nn'
      · simp [hName]
      · rw [if_neg fun h => hName (Prod.ext h.1 h.2)]
        simp [hName]
  exact (hFold ∅).trans (by simp)

theorem matches_namespacedObjectsOf_iff
    (nn : NamespacedName) : (namespacedObjectsOf ord key val).Matches nn ↔ val.2.has nn = true := by
  rw [← mem_visitableToSlice_iff ord, ← get_indexNames_iff, FactoredMap.get]
  simp only [NamespaceScopeDownsyncObjects.Matches, namespacedObjectsOf, mem_map, Prod.exists,
    RangeOrder.mem_visit_iff]
  constructor
  · rintro ⟨nan, ⟨ns, names, hNames, rfl⟩, rfl, hName⟩
    rw [FactoredMap.index, hNames, Option.bind_some]
    exact (MapSet.has_iff_get names nn.2).mp ((mem_visitableToSlice_iff ord names nn.2).mp hName)
  · intro hGet
    obtain ⟨names, hNames, hName⟩ := Option.bind_eq_some_iff.mp hGet
    exact ⟨_, ⟨nn.1, names, hNames, rfl⟩, rfl,
      (mem_visitableToSlice_iff ord names nn.2).mpr ((MapSet.has_iff_get names nn.2).mpr hName)⟩

variable {Obj : Type}

theorem exists_get_iff_entry [DecidableEq Obj]
    (objects : GoMap GroupResource (ProjectionModeVal × MapSet Obj)) (gr : GroupResource) (version : String)
    (obj : Obj) :
    (∃ key val, objects.get key = some val ∧ key = gr ∧ val.1.apiVersion = version ∧ val.2.has obj = true) ↔
      entry objects gr obj = some ⟨version⟩ := by
  rw [entry, Option.bind_eq_some_iff]
  constructor
  · rintro ⟨_, val, hGet, rfl, rfl, hHas⟩
    exact ⟨val, hGet, if_pos hHas⟩
  · rintro ⟨val, hGet, hIte⟩
    obtain ⟨hHas, hMode⟩ := Option.ite_none_right_eq_some.mp hIte
    exact ⟨gr, val, hGet, rfl, congrArg ProjectionModeVal.apiVersion (Option.some.inj hMode), hHas⟩

variable (relations : SyncerConfigSpecRelations)

theorem listsNamespaced_fromRelations_iff (gr : GroupResource) (version : String)
    (nn : NamespacedName) : (syncerConfigSpecFromRelations ord relations).ListsNamespaced gr version nn ↔
      entry relations.namespacedObjects gr nn = some ⟨version⟩ := by
  rw [← exists_get_iff_entry]
  refine (ord.exists_mem_visit_map_iff _ (namespacedObjectsOf ord) _).trans ?_
  simp only [matches_namespacedObjectsOf_iff]
  rfl

theorem listsClusterScoped_fromRelations_iff (gr : GroupResource)
    (version : String) (name : ObjectName) :
    (syncerConfigSpecFromRelations ord relations).ListsClusterScoped gr version name ↔
      entry relations.clusterScopedObjects gr name = some ⟨version⟩ := by
  rw [← exists_get_iff_entry]
  refine (ord.exists_mem_visit_map_iff _ (clusterScopeOf ord) _).trans ?_
  simp only [clusterScopeOf, mem_visitableToSlice_iff]

variable (spec : SyncerConfigSpec)

def nanToSet (nan : NamespaceAndNames) : MapSet NamespacedName :=
  MapSet.addAll ∅ (nan.names.map fun objName => (nan.ns, objName))

def nansOf (cr : NamespaceScopeDownsyncObjects) : MapSet NamespacedName :=
  cr.objectsByNamespace.foldl (fun set nan => set.addAll (visitableToSlice ord (nanToSet nan))) ∅

def uniteNamespacedObjects (have_ : GoMap GroupResource (ProjectionModeVal × MapSet NamespacedName))
    (cr : NamespaceScopeDownsyncObjects) : GoMap GroupResource (ProjectionModeVal × MapSet NamespacedName) :=
  match have_.get cr.groupResource with
  | some mapping =>
    have_.put cr.groupResource (mapping.1, mapping.2.addAll (visitableToSlice ord (nansOf ord cr)))
  | none => have_.put cr.groupResource (⟨cr.apiVersion⟩, nansOf ord cr)

def haveNamespacedObjects : GoMap GroupResource (ProjectionModeVal × MapSet NamespacedName) :=
  spec.namespacedObjects.foldl (uniteNamespacedObjects ord) ∅

def haveClusterScopedResources : GoMap GroupResource (ProjectionModeVal × MapSet ObjectName) :=
  GoMap.ofList (spec.clusterScope.map fun cr => (cr.groupResource, (⟨cr.apiVersion⟩, MapSet.addAll ∅ cr.objects)))

/-- `nsoEqual` and `csrEqual`. -/
def soEqual [DecidableEq Obj] (a b : ProjectionModeVal × MapSet Obj) : Bool :=
  a.1 == b.1 && setEqual ord a.2 b.2

def syncerConfigIsGood (goodSpecRelations : SyncerConfigSpecRelations) : Bool :=
  (mapEnumerateDifferencesParametric (soEqual ord) ord goodSpecRelations.namespacedObjects
    (haveNamespacedObjects ord spec)).isEmpty &&
  (mapEnumerateDifferencesParametric (soEqual ord) ord goodSpecRelations.clusterScopedObjects
    (haveClusterScopedResources spec)).isEmpty &&
  (setEnumerateDifferences ord goodSpecRelations.upsyncs (MapSet.addAll ∅ spec.upsync)).isEmpty

def Agree [DecidableEq Obj] (m m' : GoMap GroupResource (ProjectionModeVal × MapSet Obj)) : Prop :=
  ∀ gr, Option.Rel (fun a b => a.1 = b.1 ∧ ∀ obj, a.2.has obj = true ↔ b.2.has obj = true) (m.get gr) (m'.get gr)

theorem syncerConfigIsGood_iff (relations : SyncerConfigSpecRelations) : syncerConfigIsGood ord spec relations = true ↔
      Agree relations.namespacedObjects (haveNamespacedObjects ord spec) ∧
        Agree relations.clusterScopedObjects (haveClusterScopedResources spec) ∧
          ∀ upsync, relations.upsyncs.has upsync = true ↔ upsync ∈ spec.upsync := by
  have hEqual : ∀ {Obj : Type} [DecidableEq Obj] (a b : ProjectionModeVal × MapSet Obj),
      soEqual ord b a = true ↔ a.1 = b.1 ∧ ∀ obj, a.2.has obj = true ↔ b.2.has obj = true := by
    intro Obj _ a b
    rw [soEqual, Bool.and_eq_true, beq_iff_eq, setEqual_iff, @eq_comm _ b.1]
    exact and_congr_right fun _ => forall_congr' fun obj => iff_comm
  simp only [syncerConfigIsGood, Bool.and_eq_true, List.isEmpty_iff, mapEnumerateDifferencesParametric_eq_nil_iff,
    setEnumerateDifferences_eq_nil_iff, hEqual, MapSet.has_addAll_empty_iff, Agree, and_assoc]

theorem has_nanToSet_iff (nan : NamespaceAndNames) (nn : NamespacedName) :
    (nanToSet nan).has nn = true ↔ nan.ns = nn.1 ∧ nn.2 ∈ nan.names := by
  rw [nanToSet, MapSet.has_addAll_empty_iff, mem_map]
  constructor
  · rintro ⟨name, hName, rfl⟩
    exact ⟨rfl, hName⟩
  · rintro ⟨hNs, hName⟩
    exact ⟨nn.2, hName, Prod.ext hNs rfl⟩

theorem has_nansOf_iff (cr : NamespaceScopeDownsyncObjects) (nn : NamespacedName) :
    (nansOf ord cr).has nn = true ↔ cr.Matches nn := by
  have hFold : ∀ (nans : List NamespaceAndNames) (set : MapSet NamespacedName),
      (nans.foldl (fun set nan => set.addAll (visitableToSlice ord (nanToSet nan))) set).has nn = true ↔
        (∃ nan ∈ nans, nan.ns = nn.1 ∧ nn.2 ∈ nan.names) ∨ set.has nn = true := by
    intro nans
    induction nans with
    | nil => simp
    | cons nan rest ih =>
      intro set
      rw [foldl_cons, ih, has_addAll_visitableToSlice_iff, has_nanToSet_iff]
      simp only [mem_cons, or_and_right, exists_or, exists_eq_left, or_assoc, or_left_comm]
  exact (hFold cr.objectsByNamespace ∅).trans (or_iff_left (by simp [GoMap.has]))

def Unites (done : List NamespaceScopeDownsyncObjects)
    (have_ : GoMap GroupResource (ProjectionModeVal × MapSet NamespacedName)) : Prop :=
  ∀ gr, Option.Rel (fun first mapping => mapping.1 = ⟨first.apiVersion⟩ ∧
      ∀ nn, mapping.2.has nn = true ↔ ∃ cr ∈ done, cr.groupResource = gr ∧ cr.Matches nn)
    (done.find? fun cr => cr.groupResource = gr) (have_.get gr)

theorem Unites.step {done : List NamespaceScopeDownsyncObjects}
    {have_ : GoMap GroupResource (ProjectionModeVal × MapSet NamespacedName)} (hUnites : Unites done have_)
    (cr : NamespaceScopeDownsyncObjects) : Unites (done ++ [cr]) (uniteNamespacedObjects ord have_ cr) := by
  intro gr
  have hOld := hUnites gr
  rw [List.find?_append]
  simp only [mem_append, mem_singleton, or_and_right, exists_or, exists_eq_left]
  by_cases hGR : cr.groupResource = gr
  · subst hGR
    rw [uniteNamespacedObjects]
    cases hGet : have_.get cr.groupResource with
    | none =>
      rw [hGet] at hOld
      have hNone : done.find? (fun cr' => cr'.groupResource = cr.groupResource) = none := by
        cases hFind : done.find? (fun cr' => cr'.groupResource = cr.groupResource) with
        | none => rfl
        | some first => simp [hFind] at hOld
      simp only [hNone, Option.none_or, GoMap.get_put, if_true, List.find?_singleton, decide_true]
      refine Option.Rel.some ⟨rfl, fun nn => ?_⟩
      rw [has_nansOf_iff]
      constructor
      · exact fun hMatches => .inr ⟨trivial, hMatches⟩
      · rintro (⟨cr', hMem, hGR, -⟩ | ⟨-, hMatches⟩)
        · exact absurd hGR (by simpa using List.find?_eq_none.mp hNone cr' hMem)
        · exact hMatches
    | some mapping =>
      rw [hGet] at hOld
      cases hFind : done.find? (fun cr' => cr'.groupResource = cr.groupResource) with
      | none => simp [hFind] at hOld
      | some first =>
        rw [hFind] at hOld
        obtain ⟨hMode, hHas⟩ := Option.rel_some_some.mp hOld
        simp only [Option.some_or, GoMap.get_put, if_true]
        refine Option.Rel.some ⟨hMode, fun nn => ?_⟩
        rw [has_addAll_visitableToSlice_iff, has_nansOf_iff, hHas, or_comm]
        simp
  · have hGet : (uniteNamespacedObjects ord have_ cr).get gr = have_.get gr := by
      rw [uniteNamespacedObjects]
      split <;> exact (GoMap.get_put _ _ _ _).trans (if_neg (Ne.symm hGR))
    simpa [hGet, hGR, List.find?_singleton] using hOld

theorem haveNamespacedObjects_unites : Unites spec.namespacedObjects (haveNamespacedObjects ord spec) := by
  have hFold : ∀ (rest done : List NamespaceScopeDownsyncObjects)
      (have_ : GoMap GroupResource (ProjectionModeVal × MapSet NamespacedName)), Unites done have_ →
        Unites (done ++ rest) (rest.foldl (uniteNamespacedObjects ord) have_) := by
    intro rest
    induction rest with
    | nil =>
      intro done have_ hUnites
      rwa [append_nil]
    | cons cr rest ih =>
      intro done have_ hUnites
      rw [append_cons]
      exact ih _ _ (hUnites.step ord cr)
  exact hFold spec.namespacedObjects [] ∅ fun gr => Option.Rel.none

theorem Agree.trans [DecidableEq Obj] {m₁ m₂ m₃ : GoMap GroupResource (ProjectionModeVal × MapSet Obj)}
    (hLeft : Agree m₁ m₂) (hRight : Agree m₂ m₃) : Agree m₁ m₃ := by
  intro gr
  have hFirst := hLeft gr
  have hSecond := hRight gr
  cases hGet₁ : m₁.get gr <;> cases hGet₂ : m₂.get gr <;> cases hGet₃ : m₃.get gr <;> simp_all

theorem agree_haveNamespacedObjects (ord' : RangeOrder) (relations : SyncerConfigSpecRelations) :
    Agree relations.namespacedObjects (haveNamespacedObjects ord' (syncerConfigSpecFromRelations ord relations)) := by
  intro gr
  have hUnites := haveNamespacedObjects_unites ord' (syncerConfigSpecFromRelations ord relations) gr
  have hFind : (syncerConfigSpecFromRelations ord relations).namespacedObjects.find? (fun cr => cr.groupResource = gr) =
      (relations.namespacedObjects.get gr).map (namespacedObjectsOf ord gr) :=
    ord.find?_visit_map relations.namespacedObjects (fun e => namespacedObjectsOf ord e.1 e.2)
      NamespaceScopeDownsyncObjects.groupResource (fun _ => rfl) gr
  have hHas : ∀ nn, (∃ cr ∈ (syncerConfigSpecFromRelations ord relations).namespacedObjects,
      cr.groupResource = gr ∧ cr.Matches nn) ↔
        ∃ nso, relations.namespacedObjects.get gr = some nso ∧ nso.2.has nn = true := by
    intro nn
    refine (ord.exists_mem_visit_map_iff _ (namespacedObjectsOf ord) _).trans ?_
    simp only [matches_namespacedObjectsOf_iff]
    constructor
    · rintro ⟨_, nso, hGet, rfl, hHas⟩
      exact ⟨nso, hGet, hHas⟩
    · rintro ⟨nso, hGet, hHas⟩
      exact ⟨gr, nso, hGet, rfl, hHas⟩
  simp only [hHas] at hUnites
  rw [hFind] at hUnites
  generalize (haveNamespacedObjects ord' _).get gr = mapping at hUnites ⊢
  cases hGet : relations.namespacedObjects.get gr with
  | none =>
    rw [hGet] at hUnites
    cases hUnites
    exact Option.Rel.none
  | some nso =>
    rw [hGet] at hUnites
    cases hUnites with
    | some hMapping => exact Option.Rel.some ⟨hMapping.1.symm, fun nn => by simp [hMapping.2 nn]⟩

theorem agree_haveClusterScopedResources : Agree relations.clusterScopedObjects
      (haveClusterScopedResources (syncerConfigSpecFromRelations ord relations)) := by
  intro gr
  have hMem : ∀ gr cso, (gr, cso) ∈ (syncerConfigSpecFromRelations ord relations).clusterScope.map (fun cr =>
      (cr.groupResource, ((⟨cr.apiVersion⟩ : ProjectionModeVal), MapSet.addAll ∅ cr.objects))) ↔
        ∃ val, relations.clusterScopedObjects.get gr = some val ∧
          cso = (val.1, MapSet.addAll ∅ (visitableToSlice ord val.2)) := by
    intro gr cso
    rw [mem_map]
    refine (ord.exists_mem_visit_map_iff _ (clusterScopeOf ord) _).trans ?_
    constructor
    · rintro ⟨key, val, hGet, hPair⟩
      obtain ⟨rfl, rfl⟩ := Prod.mk.inj hPair
      exact ⟨val, hGet, rfl⟩
    · rintro ⟨val, hGet, rfl⟩
      exact ⟨gr, val, hGet, rfl⟩
  have hHave : ∀ cso, (haveClusterScopedResources (syncerConfigSpecFromRelations ord relations)).get gr =
      some cso ↔ _ :=
    fun cso => (GoMap.get_putAll_empty_iff _ (fun gr cso cso' hCso hCso' => by
      obtain ⟨val, hGet, rfl⟩ := (hMem gr cso).mp hCso
      obtain ⟨val', hGet', rfl⟩ := (hMem gr cso').mp hCso'
      cases hGet.symm.trans hGet'
      rfl) gr cso).trans (hMem gr cso)
  cases hGet : relations.clusterScopedObjects.get gr with
  | none =>
    have hNone : (haveClusterScopedResources (syncerConfigSpecFromRelations ord relations)).get gr = none := by
      refine Option.eq_none_iff_forall_ne_some.mpr fun cso hCso => ?_
      obtain ⟨val, hVal, -⟩ := (hHave cso).mp hCso
      exact Option.some_ne_none val (hVal.symm.trans hGet)
    rw [hNone]
    exact Option.Rel.none
  | some val =>
    rw [(hHave _).mpr ⟨val, hGet, rfl⟩]
    refine Option.Rel.some ⟨rfl, fun name => ?_⟩
    rw [has_addAll_visitableToSlice_iff]
    simp [GoMap.has]

variable {Obj : Type} [DecidableEq Obj]

theorem agree_of_entries {m m' : GoMap GroupResource (ProjectionModeVal × MapSet Obj)}
    (hFull : ∀ gr nso, m.get gr = some nso → ∃ obj, nso.2.has obj = true)
    (hFull' : ∀ gr nso, m'.get gr = some nso → ∃ obj, nso.2.has obj = true)
    (hSame : ∀ gr obj, entry m gr obj = entry m' gr obj) : Agree m m' := by
  intro gr
  have hEntry := hSame gr
  simp only [entry] at hEntry
  cases hGet : m.get gr with
  | none =>
    cases hGet' : m'.get gr with
    | none => exact Option.Rel.none
    | some nso' =>
      obtain ⟨obj, hHas⟩ := hFull' gr nso' hGet'
      simpa [hGet, hGet', hHas] using hEntry obj
  | some nso =>
    obtain ⟨obj, hHas⟩ := hFull gr nso hGet
    have hObj := hEntry obj
    cases hGet' : m'.get gr with
    | none => simp [hGet, hGet', hHas] at hObj
    | some nso' =>
      simp only [hGet, hGet', Option.bind_some] at hEntry hObj
      have hMode : nso.1 = nso'.1 := by
        rw [if_pos hHas] at hObj
        exact (Option.some.inj (Option.ite_none_right_eq_some.mp hObj.symm).2).symm
      refine Option.Rel.some ⟨hMode, fun obj => ?_⟩
      have hObj := hEntry obj
      by_cases hLeft : nso.2.has obj <;> by_cases hRight : nso'.2.has obj <;> simp_all

theorem scopeObjects_nonempty (env : Env) (maps : ScopeMaps Obj) (destination : SinglePlacement) (gr : GroupResource)
    (nso : ProjectionModeVal × MapSet Obj) (hGet : (scopeObjects env maps destination).get gr = some nso) :
    ∃ obj, nso.2.has obj = true := by
  have hFold : ∀ (mode : GroupResource → ProjectionModeVal) (objs : List (GroupResource × Obj))
      (ans : GoMap GroupResource (ProjectionModeVal × MapSet Obj)),
      (∀ gr nso, ans.get gr = some nso → ∃ obj, nso.2.has obj = true) →
        ∀ gr nso, (objs.foldl (listObject env mode) ans).get gr = some nso → ∃ obj, nso.2.has obj = true := by
    intro mode objs
    induction objs with
    | nil => exact fun ans hAns => hAns
    | cons gri rest ih =>
      intro ans hAns
      refine ih _ fun gr nso hGet => ?_
      rw [listObject] at hGet
      split at hGet
      · exact hAns gr nso hGet
      · exact GoMap.forall_get_put hAns ⟨gri.2, by simp [MapSet.add, GoMap.has]⟩ gr nso hGet
  rw [scopeObjects] at hGet
  split at hGet
  · cases hGet
  · rename_i dists _
    exact hFold (fun gr => ((maps.modesForSync.index destination).getD ∅).getD gr ⟨""⟩) (firsts env.ord dists) ∅
      (fun gr nso hNone => by cases hNone) gr nso hGet

theorem agree_scopeObjects (env : Env) (ord : RangeOrder) (maps : ScopeMaps Obj) (destination : SinglePlacement) :
    Agree (scopeObjects { env with ord := ord } maps destination) (scopeObjects env maps destination) := by
  refine agree_of_entries (scopeObjects_nonempty _ maps destination) (scopeObjects_nonempty _ maps destination) ?_
  intro gr obj
  refine Option.ext fun pmv => ?_
  rw [entry_scopeObjects_iff, entry_scopeObjects_iff]

theorem syncerConfigIsGood_fromRelations (env : Env) (ord : RangeOrder) (wp : State) (destination : SinglePlacement) :
    syncerConfigIsGood ord (syncerConfigSpecFromRelations env.ord (syncerConfigRelations env wp destination))
      (syncerConfigRelations { env with ord := ord } wp destination) = true := by
  rw [syncerConfigIsGood_iff]
  refine ⟨?_, ?_, fun upsync => (mem_visitableToSlice_iff env.ord _ upsync).symm⟩
  · exact (agree_scopeObjects env ord wp.ns destination).trans
      (agree_haveNamespacedObjects env.ord ord (syncerConfigRelations env wp destination))
  · exact (agree_scopeObjects env ord wp.nns destination).trans
      (agree_haveClusterScopedResources env.ord (syncerConfigRelations env wp destination))

end KubeStellar.WorkloadProjector
