import KubeStellar.WhatResolver.Criteria
import KubeStellar.WhatResolver.Steps

/-! # Workload objects and their selection

The objects in the informer caches of a space, the listers over them, and the selection that an EdgePlacement makes
from scratch. A match depends on the rest of the space only through the Namespace.
-/

namespace KubeStellar.WhatResolver

open List

structure ObjectStore where
  objects : GoMap NamespacedName MRObject
  keyed : ∀ nn obj, objects.get nn = some obj → obj.nn = nn

namespace ObjectStore

instance : EmptyCollection ObjectStore := ⟨⟨∅, fun _ _ h => nomatch h⟩⟩

def write (store : ObjectStore) (obj : MRObject) : ObjectStore where
  objects := store.objects.put obj.nn obj
  keyed := by
    intro nn obj' h
    rw [GoMap.get_put] at h
    split at h
    · rename_i hKey
      cases h
      exact hKey.symm
    · exact store.keyed nn obj' h

def remove (store : ObjectStore) (nn : NamespacedName) : ObjectStore where
  objects := store.objects.delete nn
  keyed := by
    intro nn' obj h
    rw [GoMap.get_delete] at h
    split at h
    · cases h
    · exact store.keyed nn' obj h

def lister (ord : RangeOrder) (store : ObjectStore) : Lister where
  get nn := match store.objects.get nn with
    | some obj => .found obj
    | none => .notFound
  list := (ord.visit store.objects).map Prod.snd

end ObjectStore

abbrev Stores := GroupVersionResource → ObjectStore

def listers (ord : RangeOrder) (stores : Stores) : Informers := fun gvr => (stores gvr).lister ord

variable (ord : RangeOrder) (stores : Stores) (gvr : GroupVersionResource)

theorem get_listers (nn : NamespacedName) : (listers ord stores gvr).get nn = match (stores gvr).objects.get nn with
      | some obj => .found obj
      | none => .notFound := rfl

theorem mem_list_listers_iff (obj : MRObject) :
    obj ∈ (listers ord stores gvr).list ↔ (stores gvr).objects.get obj.nn = some obj := by
  change obj ∈ (ord.visit (stores gvr).objects).map Prod.snd ↔ _
  rw [mem_map]
  constructor
  · rintro ⟨⟨nn, obj'⟩, hVisit, rfl⟩
    have hGet := (ord.mem_visit_iff _ _ _).mp hVisit
    rw [(stores gvr).keyed nn obj' hGet, hGet]
  · intro hGet
    exact ⟨(obj.nn, obj), (ord.mem_visit_iff _ _ _).mpr hGet, rfl⟩

theorem nodup_list_listers : ((listers ord stores gvr).list.map MRObject.nn).Nodup := by
  have hKeys : (listers ord stores gvr).list.map MRObject.nn = (ord.visit (stores gvr).objects).map Prod.fst := by
    change ((ord.visit (stores gvr).objects).map Prod.snd).map MRObject.nn = _
    rw [map_map]
    apply map_congr_left
    intro e he
    exact (stores gvr).keyed e.1 e.2 ((ord.mem_visit_iff _ _ _).mp he)
  rw [hKeys]
  exact ord.visit_nodup _

variable {Sel : Type}

/-- The library calls of `base`, with the given caches for the given space. -/
def Env.withStores (base : Env Sel) (cluster : String) (ord : RangeOrder) (stores : Stores) : Env Sel :=
  { base with
    ord := ord
    informers := fun space => if space = cluster then listers ord stores else base.informers space }

@[simp] theorem informers_withStores (base : Env Sel) (cluster : String) (ord : RangeOrder)
    (stores : Stores) : (base.withStores cluster ord stores).informers cluster = listers ord stores :=
  if_pos rfl

variable {informers informers' : Informers} {wsd wsd' : WorkspaceDetails Sel} {spec : EdgePlacementSpec Sel}
  (lib : SelectorLibrary Sel)

theorem whatMatches_of_downsyncMatches {whatResource : String} {whatObj : MRObject}
    (hDownsync : downsyncMatches lib informers wsd spec.downsync whatResource whatObj.group whatObj.objectMeta.ns
        whatObj.objectMeta.name whatObj.objectMeta.labels =
      downsyncMatches lib informers' wsd' spec.downsync whatResource whatObj.group whatObj.objectMeta.ns
        whatObj.objectMeta.name whatObj.objectMeta.labels) :
    whatMatches lib informers wsd spec whatResource whatObj =
      whatMatches lib informers' wsd' spec whatResource whatObj := by
  unfold whatMatches
  dsimp only
  rw [hDownsync]

theorem whatMatches_congr (spec : EdgePlacementSpec Sel) (whatResource : String) (whatObj : MRObject)
    (hNS : namespaceInfo informers wsd whatObj.objectMeta.ns = namespaceInfo informers' wsd' whatObj.objectMeta.ns) :
    whatMatches lib informers wsd spec whatResource whatObj =
      whatMatches lib informers' wsd' spec whatResource whatObj := by
  have hTest : downsyncTest lib informers wsd whatResource whatObj.group whatObj.objectMeta.ns
      whatObj.objectMeta.name whatObj.objectMeta.labels =
      downsyncTest lib informers' wsd' whatResource whatObj.group whatObj.objectMeta.ns
        whatObj.objectMeta.name whatObj.objectMeta.labels := by
    funext objTest
    simp only [downsyncTest, namespaceLabelsMatch_eq, hNS]
  apply whatMatches_of_downsyncMatches
  rw [downsyncMatches, downsyncMatches, hTest]

def NoNamespaceSelectors (spec : EdgePlacementSpec Sel) : Prop :=
  ∀ objTest ∈ spec.downsync, objTest.namespaceSelectors = []

variable (hSpec : NoNamespaceSelectors spec)

include hSpec

theorem downsyncMatches_of_noNamespaceSelectors (informers informers' : Informers)
    (wsd wsd' : WorkspaceDetails Sel) (whatResource group objNS objName : String) (objLabels : Labels) :
    downsyncMatches lib informers wsd spec.downsync whatResource group objNS objName objLabels =
      downsyncMatches lib informers' wsd' spec.downsync whatResource group objNS objName objLabels ∧
    (downsyncMatches lib informers wsd spec.downsync whatResource group objNS objName objLabels).2 =
      true := by
  unfold NoNamespaceSelectors at hSpec
  unfold downsyncMatches
  generalize spec.downsync = downsync at hSpec ⊢
  induction downsync with
  | nil => exact ⟨rfl, rfl⟩
  | cons objTest rest ih =>
    have hSel := hSpec objTest mem_cons_self
    have ih := ih fun t ht => hSpec t (mem_cons_of_mem _ ht)
    have hTest : ∀ (inf : Informers) (w : WorkspaceDetails Sel),
        downsyncTest lib inf w whatResource group objNS objName objLabels objTest =
        downsyncTest lib informers wsd whatResource group objNS objName objLabels objTest := by
      intro inf w
      simp only [downsyncTest, namespaceLabelsMatch_eq, hSel, if_true]
    have hAnswer : downsyncTest lib informers wsd whatResource group objNS objName objLabels objTest = none ∨
        downsyncTest lib informers wsd whatResource group objNS objName objLabels objTest = some (true, true) := by
      simp only [downsyncTest, namespaceLabelsMatch_eq, hSel, if_true]
      repeat' split
      all_goals simp
    rw [List.findSome?_cons, List.findSome?_cons, hTest informers' wsd']
    rcases hAnswer with h | h <;> rw [h]
    · exact ih
    · exact ⟨rfl, rfl⟩

theorem whatMatches_of_noNamespaceSelectors (informers informers' : Informers)
    (wsd wsd' : WorkspaceDetails Sel) (whatResource : String) (whatObj : MRObject) :
    whatMatches lib informers wsd spec whatResource whatObj =
      whatMatches lib informers' wsd' spec whatResource whatObj ∧
    Computable lib informers wsd spec whatResource whatObj := by
  obtain ⟨hSame, hOk⟩ := downsyncMatches_of_noNamespaceSelectors lib hSpec informers informers' wsd wsd'
    whatResource whatObj.group whatObj.objectMeta.ns whatObj.objectMeta.name whatObj.objectMeta.labels
  exact ⟨whatMatches_of_downsyncMatches lib hSame,
    (computable_iff lib informers wsd spec whatResource whatObj).mpr (.inr hOk)⟩

theorem matchBits_of_noNamespaceSelectors (informers informers' : Informers)
    (wsd wsd' : WorkspaceDetails Sel) (whatResource : String) (whatObj : MRObject) :
    matchBits lib informers wsd spec whatResource whatObj =
      matchBits lib informers' wsd' spec whatResource whatObj := by
  rw [matchBits, matchBits,
    (whatMatches_of_noNamespaceSelectors lib hSpec informers informers' wsd wsd' whatResource whatObj).1]

omit hSpec

def selectedBy (stores : Stores) (wsd : WorkspaceDetails Sel) (spec : EdgePlacementSpec Sel) : Selection :=
  fun arName nn => (wsd.resources.get arName).bind fun rr =>
    ((stores rr.gvr).objects.get nn).bind fun obj =>
      matchBits lib (listers RangeOrder.insertion stores) wsd spec rr.gvr.resource obj

theorem selectedBy_ne_none_iff (wsd : WorkspaceDetails Sel) (spec : EdgePlacementSpec Sel)
    (arName : String) (nn : NamespacedName) :
    selectedBy lib stores wsd spec arName nn ≠ none ↔ ∃ rr obj, wsd.resources.get arName = some rr ∧
      (stores rr.gvr).objects.get nn = some obj ∧
      whatMatches lib (listers RangeOrder.insertion stores) wsd spec rr.gvr.resource obj = (true, true) := by
  unfold selectedBy
  simp only [Option.ne_none_iff_exists', Option.bind_eq_some_iff]
  constructor
  · rintro ⟨bits, rr, hRR, obj, hObj, hBits⟩
    exact ⟨rr, obj, hRR, hObj, (matchBits_ne_none_iff _ _ _ _ _ _).mp (by simp [hBits])⟩
  · rintro ⟨rr, obj, hRR, hObj, hMatch⟩
    obtain ⟨bits, hBits⟩ := Option.ne_none_iff_exists'.mp ((matchBits_ne_none_iff _ _ _ _ _ _).mpr hMatch)
    exact ⟨bits, rr, hRR, obj, hObj, hBits⟩

variable {lib : SelectorLibrary Sel} {informers : Informers} {wsd : WorkspaceDetails Sel}
  {spec : EdgePlacementSpec Sel} {whatResource : String} {obj : MRObject} {o : Subject}

theorem computable_of_rounds (hRounds : ∀ objTest ∈ spec.downsync,
    round lib (subject whatResource obj) informers wsd objTest = none ∨
      round lib (subject whatResource obj) informers wsd objTest = some (true, true)) :
    Computable lib informers wsd spec whatResource obj := by
  refine (computable_iff lib informers wsd spec whatResource obj).mpr (.inr ?_)
  rcases downsyncMatches_cases spec.downsync hRounds with ⟨hAnswer, _⟩ | ⟨hAnswer, _⟩
  · exact congrArg Prod.snd hAnswer
  · exact congrArg Prod.snd hAnswer

theorem computable_of_verdict_known {matched : List Sel → Bool} {retry : Bool}
    (hInfo : ∀ selectors, (namespaceInfo informers wsd obj.objectMeta.ns).verdict lib selectors =
      (matched selectors, true, retry)) : Computable lib informers wsd spec whatResource obj :=
  computable_of_rounds fun objTest _ => (round_of_verdict_known hInfo objTest).1

theorem computable_of_clusterScoped (hScope : obj.objectMeta.ns = "") :
    Computable lib informers wsd spec whatResource obj := by
  refine @computable_of_verdict_known Sel lib informers wsd spec whatResource obj
    (labelsMatchAny lib ∅) false fun selectors => ?_
  rw [(namespaceInfo_eq_clusterScoped_iff informers wsd _).mpr hScope]
  rfl

theorem namespaceInfo_of_not_computable (hNot : ¬ Computable lib informers wsd spec whatResource obj) :
    namespaceInfo informers wsd obj.objectMeta.ns = .resourceUnknown := by
  cases hInfo : namespaceInfo informers wsd obj.objectMeta.ns with
  | resourceUnknown => rfl
  | clusterScoped =>
    exact absurd (computable_of_clusterScoped ((namespaceInfo_eq_clusterScoped_iff _ _ _).mp hInfo)) hNot
  | lookup result =>
    refine absurd ?_ hNot
    cases result with
    | found objNSR =>
      refine @computable_of_verdict_known Sel lib informers wsd spec whatResource obj
        (labelsMatchAny lib objNSR.objectMeta.labels) false fun selectors => ?_
      rw [hInfo]
      rfl
    | failed =>
      refine @computable_of_verdict_known Sel lib informers wsd spec whatResource obj
        (fun _ => false) false fun selectors => ?_
      rw [hInfo]
      rfl
    | notFound =>
      -- a Namespace that is not found is reported as a match
      refine computable_of_rounds fun objTest _ => ?_
      have hVerdict : ∀ selectors, (namespaceInfo informers wsd (subject whatResource obj).ns).verdict lib
          selectors = (false, false, true) := by
        intro selectors
        rw [show (subject whatResource obj).ns = obj.objectMeta.ns from rfl, hInfo]
        rfl
      rcases round_of_verdict_unknown hVerdict objTest with ⟨_, _, h⟩ | ⟨_, _, _, h⟩ | ⟨_, h⟩
      · exact .inr h
      · exact .inr h
      · exact .inl h

theorem namespaceInfo_resourceUnknown {objNS objNS' : String}
    (hUnknown : namespaceInfo informers wsd objNS = .resourceUnknown) (hNS : objNS' ≠ "") :
    namespaceInfo informers wsd objNS' = .resourceUnknown := by
  unfold namespaceInfo at hUnknown ⊢
  rw [if_neg hNS]
  split at hUnknown
  · cases hUnknown
  · split at hUnknown
    · rfl
    · cases hUnknown

theorem round_of_resourceUnknown
    (hUnknown : namespaceInfo informers wsd o.ns = .resourceUnknown) (informers' : Informers)
    (wsd' : WorkspaceDetails Sel) (objTest : DownsyncObjectTest Sel) :
    round lib o informers wsd objTest = some (false, false) ∨
      round lib o informers wsd objTest = round lib o informers' wsd' objTest := by
  by_cases hReach : Reaches o objTest
  · by_cases hSel : objTest.namespaceSelectors = []
    · right
      rw [round_of_reaches hReach, round_of_reaches hReach, namespaceLabelsMatch_eq, namespaceLabelsMatch_eq,
        if_pos hSel, if_pos hSel]
    · left
      rw [round_of_reaches hReach, namespaceLabelsMatch_eq, if_neg hSel, hUnknown]
      rfl
  · exact .inr (by rw [round_of_not_reaches hReach, round_of_not_reaches hReach])

theorem downsyncMatches_cons (objTest : DownsyncObjectTest Sel) (rest : List (DownsyncObjectTest Sel)) :
    downsyncMatches lib informers wsd (objTest :: rest) o.resource o.group o.ns o.name o.labels =
      (round lib o informers wsd objTest).getD
        (downsyncMatches lib informers wsd rest o.resource o.group o.ns o.name o.labels) := by
  unfold downsyncMatches round
  rw [List.findSome?_cons]
  cases downsyncTest lib informers wsd o.resource o.group o.ns o.name o.labels objTest <;> rfl

theorem downsyncMatches_of_resourceUnknown {downsync : List (DownsyncObjectTest Sel)}
    (hUnknown : namespaceInfo informers wsd o.ns = .resourceUnknown) (informers' : Informers)
    (wsd' : WorkspaceDetails Sel)
    (hOk : (downsyncMatches lib informers wsd downsync o.resource o.group o.ns o.name o.labels).2 = true) :
    downsyncMatches lib informers wsd downsync o.resource o.group o.ns o.name o.labels =
      downsyncMatches lib informers' wsd' downsync o.resource o.group o.ns o.name o.labels := by
  induction downsync with
  | nil => rfl
  | cons objTest rest ih =>
    rw [downsyncMatches_cons] at hOk ⊢
    rw [downsyncMatches_cons]
    rcases @round_of_resourceUnknown Sel lib informers wsd o hUnknown informers' wsd' objTest with h | h
    · rw [h] at hOk
      cases hOk
    · rw [← h]
      cases hRound : round lib o informers wsd objTest with
      | some answer => rfl
      | none =>
        rw [hRound] at hOk
        exact ih hOk

theorem whatMatches_of_computable (hUnknown : namespaceInfo informers wsd obj.objectMeta.ns = .resourceUnknown)
    (hComp : Computable lib informers wsd spec whatResource obj) (informers' : Informers)
    (wsd' : WorkspaceDetails Sel) :
    whatMatches lib informers wsd spec whatResource obj = whatMatches lib informers' wsd' spec whatResource obj := by
  by_cases hSystem : objectIsSystem obj = true
  · simp only [whatMatches, hSystem, if_true]
  · have hOk := ((computable_iff lib informers wsd spec whatResource obj).mp hComp).resolve_left hSystem
    exact whatMatches_of_downsyncMatches lib (@downsyncMatches_of_resourceUnknown Sel lib informers wsd
      (subject whatResource obj) spec.downsync hUnknown informers' wsd' hOk)

end KubeStellar.WhatResolver
