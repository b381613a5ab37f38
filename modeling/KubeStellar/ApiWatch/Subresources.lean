import KubeStellar.ApiWatch.Definers
import KubeStellar.Library.Strings
import KubeStellar.Library.Trie

/-! # The listing with subresources

`listWithSubresources` of `pkg/apiwatch/resources.go`: a flat list, in which the name of a subresource starts with
that of its resource, is inserted into an `arMap`, a map of maps along the steps of a name, and listed as trees.
-/

namespace KubeStellar.ApiWatch

structure Definer where
  kind : String
  name : String
deriving DecidableEq

/-- The fields of an `APIResourceSpec` but for its name and its subresources. -/
structure SpecData where
  singularName : String
  namespaced : Bool
  group : String
  version : String
  kind : String
  verbs : List String
  definers : List Definer
deriving DecidableEq

structure APIResourceSpec where
  name : String
  data : SpecData
  subResources : List APIResourceSpec

/-- A node has the spec and the subresources of an `arTuple`. -/
abbrev ArMap := Trie String APIResourceSpec

def ArMap.insert (am : ArMap) (name : List String) (spec : APIResourceSpec) : Option ArMap :=
  match name with
  | [] => none
  | first :: rest => some (Trie.insert (first :: rest) spec am)

structure PassOrder where
  visit : {α : Type} → List α → List α
  perm : ∀ {α : Type} (l : List α), (visit l).Perm l

variable (orders : List String → PassOrder)

/-- What the passes of the loop of `toList` consume. Each pass has its own subresources. -/
def ArMap.consumed : List String → ArMap → List APIResourceSpec
  | _, .nil => []
  -- a gap in the subresource structure
  | pre, .node _ none _ rest => consumed pre rest
  | pre, .node name (some spec) below rest =>
    let subSpecs := (orders (pre ++ [name])).visit (consumed (pre ++ [name]) below)
    ⟨name, spec.data, spec.subResources ++ subSpecs⟩ :: consumed pre rest

/-- The order of each range depends on where in the map it is. -/
def ArMap.toList (pre : List String) (am : ArMap) : List APIResourceSpec := (orders pre).visit (am.consumed orders pre)

structure APIGroup where
  name : String
  preferredVersion : String

structure GroupVersion where
  group : String
  version : String

/-- A `metav1.APIResource`. -/
structure DiscoveredResource where
  name : String
  singularName : String
  namespaced : Bool
  version : String
  kind : String
  verbs : List String

structure APIResourceList where
  groupVersion : String
  apiResources : List DiscoveredResource

structure APIResource where
  name : String
  resourceVersion : String
  spec : APIResourceSpec

/-- `schema.ParseGroupVersion`. -/
def parseGroupVersion (gv : String) : Option GroupVersion :=
  if gv = "" ∨ gv = "/" then some ⟨"", ""⟩
  else
    match Strings.split gv "/" with
    | [version] => some ⟨"", version⟩
    | [group, version] => some ⟨group, version⟩
    | _ => none

def definersToSlice (ord : RangeOrder) (asSet : Option (MapSet ObjectID)) : List Definer :=
  (ord.visit (ensureMap asSet)).map fun definer => ⟨definer.1.kind, definer.1.name⟩

def enumAPIResourcesLocked (ord : RangeOrder) (rlw : Definers) (gv : GroupVersion) (mrs : List DiscoveredResource) :
    List APIResourceSpec :=
  mrs.map fun rsc =>
    let rscVersion := if rsc.version = "" then gv.version else rsc.version
    let definers := definersToSlice ord (rlw.rscToDefiners.get ⟨gv.group, rscVersion, rsc.name⟩)
    ⟨rsc.name, ⟨rsc.singularName, rsc.namespaced, gv.group, rscVersion, rsc.kind, rsc.verbs, definers⟩, []⟩

variable (spec : APIResourceSpec)

def specComplete (resourceVersionS : String) (gv : GroupVersion) : APIResource :=
  ⟨gv.group ++ ":" ++ gv.version ++ ":" ++ spec.name, resourceVersionS, spec⟩

variable (specs : List APIResourceSpec)

def insertAll : Option ArMap :=
  specs.foldlM (fun am ar => ArMap.insert am (Strings.split ar.name "/") ar) .nil

def preferred (groupList : List APIGroup) (group : APIResourceList) : Option GroupVersion :=
  let groupToVersion := GoMap.ofList (groupList.map fun ag => (ag.name, ag.preferredVersion))
  match parseGroupVersion group.groupVersion with
  | none => none
  | some gv => if groupToVersion.getD gv.group "" ≠ gv.version then none else some gv

variable (ord : RangeOrder) (orders : String → List String → PassOrder) (rlw : Definers) (resourceVersionS : String)
  (groupList : List APIGroup)

def listGroup (group : APIResourceList) : Option (List APIResource) :=
  match preferred groupList group with
  | none => some []
  | some gv => do
    let am ← insertAll (enumAPIResourcesLocked ord rlw gv group.apiResources)
    return (ArMap.toList (orders group.groupVersion) [] am).map fun spec => specComplete spec resourceVersionS gv

def listWithSubresources (resourceList : List APIResourceList) : Option (List APIResource) := do
  let anss ← resourceList.mapM (listGroup ord orders rlw resourceVersionS groupList)
  return anss.flatten

namespace APIResourceSpec

mutual

def flattenAt (full : String) : APIResourceSpec → List (String × SpecData)
  | ⟨_, data, subResources⟩ => (full, data) :: flattenBelow full subResources

def flattenBelow (full : String) : List APIResourceSpec → List (String × SpecData)
  | [] => []
  | sub :: subs => flattenAt (full ++ "/" ++ sub.name) sub ++ flattenBelow full subs

end

/-- The nodes of a tree, with the names along its branches joined. -/
def flatten : List (String × SpecData) := spec.flattenAt spec.name

def path : List String := Strings.split spec.name "/"

def complete (names : List String) (spec : APIResourceSpec) : Bool :=
  (Strings.properPrefixes '/' spec.name.toList).all fun start => String.ofList start ∈ names

theorem flattenBelow_eq (full : String) (subs : List APIResourceSpec) :
    flattenBelow full subs = subs.flatMap fun sub => sub.flattenAt (full ++ "/" ++ sub.name) := by
  induction subs with
  | nil => rw [flattenBelow, List.flatMap_nil]
  | cons sub subs ih => rw [flattenBelow, ih, List.flatMap_cons]

theorem flattenAt_append (full name : String) (spec : APIResourceSpec) (subSpecs : List APIResourceSpec) :
    flattenAt full ⟨name, spec.data, spec.subResources ++ subSpecs⟩ =
      spec.flattenAt full ++ subSpecs.flatMap fun sub => sub.flattenAt (full ++ "/" ++ sub.name) := by
  obtain ⟨_, data, subResources⟩ := spec
  rw [flattenAt, flattenAt, flattenBelow_eq, flattenBelow_eq, List.flatMap_append, List.cons_append]

open Strings

theorem complete_iff (names : List String) (spec : APIResourceSpec) :
    spec.complete names = true ↔ ∀ start rest, spec.name = start ++ "/" ++ rest → start ∈ names := by
  simp only [complete, List.all_eq_true, mem_properPrefixes_iff, decide_eq_true_eq]
  constructor
  · intro hAll start rest hName
    have hStart := hAll start.toList ⟨rest.toList, by simp [hName]⟩
    rwa [String.ofList_toList] at hStart
  · rintro hAll start ⟨rest, hName⟩
    refine hAll (String.ofList start) (String.ofList rest) ?_
    rw [← String.toList_inj, hName]
    simp

theorem path_ne_nil : spec.path ≠ [] := splitFrom_ne_nil _ _ _ _

theorem path_eq_iff {spec spec' : APIResourceSpec} : spec.path = spec'.path ↔ spec.name = spec'.name :=
  ⟨split_inj '/', fun hName => congrArg (split · "/") hName⟩

theorem complete_iff_upheld {specs : List APIResourceSpec} {spec : APIResourceSpec} (hMem : spec ∈ specs) :
    spec.complete (specs.map name) = true ↔ Trie.upheld (specs.map path) spec.path = true := by
  rw [complete_iff, Trie.upheld_iff]
  constructor
  · rintro hAll q ⟨r, hPath⟩ hq
    by_cases hLast : r = []
    · rw [hLast, List.append_nil] at hPath
      exact hPath ▸ List.mem_map_of_mem hMem
    · obtain ⟨a, b, hName, hStart, -⟩ := exists_append_of_splitFrom '/' [] spec.name.toList hPath.symm hq hLast
      have hGiven := hAll (String.ofList a) (String.ofList b) (by rw [← String.toList_inj, hName]; simp)
      obtain ⟨given, hGiven, hSame⟩ := List.mem_map.mp hGiven
      refine List.mem_map.mpr ⟨given, hGiven, ?_⟩
      rw [path, hSame]
      exact (split_ofList '/' a).trans hStart
  · intro hUpheld start rest hName
    have hPath : spec.path = split start "/" ++ split rest "/" := by
      rw [path, hName]
      exact split_append '/' start rest
    have hStart := hUpheld (split start "/") ⟨_, hPath.symm⟩ (splitFrom_ne_nil _ _ _ _)
    obtain ⟨given, hGiven, hSame⟩ := List.mem_map.mp hStart
    exact List.mem_map.mpr ⟨given, hGiven, split_inj '/' hSame⟩

end APIResourceSpec

open ApiWatch.APIResourceSpec

theorem flatMap_consumed_perm (orders : List String → PassOrder) (pre : List String) (am : ArMap)
    (full : String → String) :
    ((am.consumed orders pre).flatMap fun spec => spec.flattenAt (full spec.name)).Perm
      (am.reached.flatMap fun e => e.2.flattenAt (Strings.join "/" (e.1.modifyHead full))) := by
  induction am generalizing pre full with
  | nil => exact List.Perm.refl _
  | node name val below rest ihBelow ihRest =>
    cases val with
    | none => exact ihRest pre full
    | some spec =>
      rw [ArMap.consumed, Trie.reached, List.cons_append, List.flatMap_cons, List.flatMap_cons, List.flatMap_append,
        ← List.append_assoc, flattenAt_append]
      refine List.Perm.append (List.Perm.append_left _ ?_) (ihRest pre full)
      refine (((orders (pre ++ [name])).perm _).flatMap_right _).trans ?_
      refine (ihBelow (pre ++ [name]) fun step => full name ++ "/" ++ step).trans (List.Perm.of_eq ?_)
      rw [List.flatMap_map]
      -- a path below the node is joined under its whole name
      refine List.flatMap_congr fun e hMem => ?_
      obtain ⟨step, path, hPath, -⟩ := Trie.exists_cons_of_mem_reached hMem
      rw [hPath]
      rfl

theorem insertAll_eq : insertAll specs = some (Trie.ofList (specs.map fun spec => (spec.path, spec))) := by
  have hInsert : ∀ am spec, ArMap.insert am (Strings.split spec.name "/") spec =
      some (Trie.insert spec.path spec am) := by
    intro am spec
    obtain ⟨first, rest, hPath⟩ := List.exists_cons_of_ne_nil spec.path_ne_nil
    rw [hPath, ← path, hPath]
    rfl
  rw [insertAll, Trie.ofList, List.foldl_map]
  suffices h : ∀ am : ArMap, specs.foldlM (fun am ar => ArMap.insert am (Strings.split ar.name "/") ar) am =
      some (specs.foldl (fun am spec => Trie.insert spec.path spec am) am) from h .nil
  induction specs with
  | nil => exact fun am => rfl
  | cons spec specs ih =>
    intro am
    rw [List.foldlM_cons, hInsert]
    exact ih _

theorem flatMap_toList_perm {specs : List APIResourceSpec} (hDist : (specs.map name).Nodup)
    (orders : List String → PassOrder) :
    ((ArMap.toList orders [] (Trie.ofList (specs.map fun spec => (spec.path, spec)))).flatMap flatten).Perm
      ((specs.filter (complete (specs.map name))).flatMap flatten) := by
  have hPaths : ∀ e ∈ specs.map fun spec => (spec.path, spec), e.1 ≠ [] := by
    intro e hMem
    obtain ⟨spec, -, rfl⟩ := List.mem_map.mp hMem
    exact spec.path_ne_nil
  have hFirst : (specs.map fun spec => (spec.path, spec)).map Prod.fst = specs.map path := List.map_map
  have hNodup : ((specs.map fun spec => (spec.path, spec)).map Prod.fst).Nodup := by
    rw [hFirst]
    refine List.Nodup.map_on (fun spec hMem spec' hMem' hSame => ?_) (hDist.of_map _)
    exact List.inj_on_of_nodup_map hDist hMem hMem' (path_eq_iff.mp hSame)
  have hReached := Trie.reached_ofList_perm hPaths hNodup
  have hComplete : specs.filter ((fun e => Trie.upheld (specs.map path) e.1) ∘ fun spec => (spec.path, spec)) =
      specs.filter (complete (specs.map name)) := by
    refine List.filter_congr fun spec hMem => ?_
    rw [Function.comp_apply, Bool.eq_iff_iff, complete_iff_upheld hMem]
  rw [hFirst, List.filter_map, hComplete] at hReached
  refine (((orders []).perm _).flatMap_right _).trans ?_
  refine (flatMap_consumed_perm orders [] _ id).trans ((hReached.flatMap_right _).trans ?_)
  rw [List.flatMap_map]
  refine List.Perm.of_eq (List.flatMap_congr fun spec _ => ?_)
  rw [List.modifyHead_id, path, flatten]
  exact congrArg spec.flattenAt (Strings.join_split '/' spec.name)

/-- However the specs are inserted and the map is ranged over, what is listed are the given specs all of whose proper
prefixes are given, each once. A given spec stands for itself and the subresources that it has already. -/
theorem flatten_toList_perm (specs inserted : List APIResourceSpec) (hDistinct : (specs.map name).Nodup)
    (hInserted : inserted.Perm specs) (orders : List String → PassOrder) :
    ∃ am, insertAll inserted = some am ∧ ((ArMap.toList orders [] am).flatMap flatten).Perm
        ((specs.filter (complete (specs.map name))).flatMap flatten) := by
  have hNames : (inserted.map name).Nodup := (hInserted.map name).nodup_iff.mpr hDistinct
  have hComplete : complete (inserted.map name) = complete (specs.map name) := by
    funext spec
    rw [Bool.eq_iff_iff, complete_iff, complete_iff]
    simp only [(hInserted.map name).mem_iff]
  refine ⟨_, insertAll_eq inserted, (flatMap_toList_perm hNames orders).trans ?_⟩
  rw [hComplete]
  exact (hInserted.filter _).flatMap_right _

def scaleData : SpecData := ⟨"", true, "apps", "v1", "Scale", ["get", "update"], []⟩

/-- The deployments come after one of their subresources, and the resource of another one is missing. -/
def appsSpecs : List APIResourceSpec :=
  [⟨"deployments/scale", scaleData, []⟩, ⟨"widgets/scale", scaleData, []⟩, ⟨"deployments", scaleData, []⟩]

theorem flatten_toList_perm_apps : (appsSpecs.map name).Nodup ∧ ∃ am, insertAll appsSpecs.reverse = some am ∧
    ((ArMap.toList (fun _ => ⟨List.reverse, List.reverse_perm⟩) [] am).flatMap flatten).Perm
      [("deployments/scale", scaleData), ("deployments", scaleData)] := by
  have hDistinct : (appsSpecs.map name).Nodup := by decide
  exact ⟨hDistinct, flatten_toList_perm appsSpecs appsSpecs.reverse hDistinct (List.reverse_perm _) _⟩

open ApiWatch.APIResourceSpec

variable (ord : RangeOrder) (orders : String → List String → PassOrder) (rlw : Definers) (resourceVersionS : String)
  (groupList : List APIGroup)

def discovered (group : APIResourceList) : List (String × SpecData) :=
  (preferred groupList group).elim [] fun gv =>
    let specs := enumAPIResourcesLocked ord rlw gv group.apiResources
    (specs.filter (complete (specs.map name))).map fun spec => (spec.name, spec.data)

theorem flatten_of_mem_enumAPIResourcesLocked {gv : GroupVersion} {mrs : List DiscoveredResource}
    {spec : APIResourceSpec} (hMem : spec ∈ enumAPIResourcesLocked ord rlw gv mrs) :
    spec.flatten = [(spec.name, spec.data)] := by
  obtain ⟨rsc, -, rfl⟩ := List.mem_map.mp hMem
  rw [flatten, flattenAt, flattenBelow]

theorem listGroup_flatten {group : APIResourceList} (hDist : (group.apiResources.map (·.name)).Nodup) :
    ∃ ans, listGroup ord orders rlw resourceVersionS groupList group = some ans ∧
      (ans.flatMap fun ar => ar.spec.flatten).Perm (discovered ord rlw groupList group) := by
  rw [listGroup, discovered]
  cases hPreferred : preferred groupList group with
  | none => exact ⟨[], rfl, List.Perm.refl _⟩
  | some gv =>
    have hNames : ((enumAPIResourcesLocked ord rlw gv group.apiResources).map name).Nodup := by
      rwa [enumAPIResourcesLocked, List.map_map]
    dsimp only
    rw [insertAll_eq]
    refine ⟨_, rfl, ?_⟩
    rw [List.flatMap_map]
    refine (flatMap_toList_perm hNames _).trans (List.Perm.of_eq ?_)
    refine (List.flatMap_congr fun spec hMem => ?_).trans List.map_eq_flatMap.symm
    exact flatten_of_mem_enumAPIResourcesLocked ord rlw (List.mem_of_mem_filter hMem)

theorem listWithSubresources_flatten {resourceList : List APIResourceList}
    (hDist : ∀ group ∈ resourceList, (group.apiResources.map (·.name)).Nodup) :
    ∃ ans, listWithSubresources ord orders rlw resourceVersionS groupList resourceList = some ans ∧
      (ans.flatMap fun ar => ar.spec.flatten).Perm (resourceList.flatMap (discovered ord rlw groupList)) := by
  induction resourceList with
  | nil => exact ⟨[], rfl, List.Perm.refl _⟩
  | cons group resourceList ih =>
    obtain ⟨first, hFirst, hFirstPerm⟩ := listGroup_flatten ord orders rlw resourceVersionS groupList
      (hDist group List.mem_cons_self)
    obtain ⟨rest, hRest, hRestPerm⟩ := ih fun group hMem => hDist group (List.mem_cons_of_mem _ hMem)
    rw [listWithSubresources] at hRest ⊢
    obtain ⟨anss, hAnss, hJoined⟩ := Option.bind_eq_some_iff.mp hRest
    refine ⟨first ++ rest, ?_, ?_⟩
    · rw [List.mapM_cons, hFirst, hAnss]
      cases hJoined
      rfl
    · rw [List.flatMap_append, List.flatMap_cons]
      exact hFirstPerm.append hRestPerm

end KubeStellar.ApiWatch
