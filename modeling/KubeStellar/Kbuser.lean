import KubeStellar.Api

/-! # Names in a kube-bind provider

`pkg/kbuser/object_ids.go`: the provider's copy of a cluster-scoped object of a consumer is named
`<kube-bind id>-<original name>` and carries the kube-bind id in an annotation. `pkg/kbuser/space_ids.go`: two maps,
kept by the events of the ConfigMaps `kbmap-<space id>`, each of which holds the kube-bind id of a space in a label.
-/

namespace KubeStellar.Kbuser

open List

inductive Panic where
  | nilDereference

inductive AnalysisError where
  /-- No 'kube-bind.io/cluster-namespace' annotation found. -/
  | annotationMissing
  /-- Object is namespaced-scoped and not cluster-scoped. -/
  | namespaceScoped
  /-- The name does not have the prefix for the consumer. -/
  | noPrefix (name kbSpaceID : String)

def clusterNamespaceAnnotation : String := "kube-bind.io/cluster-namespace"

def cutPrefix (s sep : String) : String × Bool :=
  if sep.toList.isPrefixOf s.toList then (String.ofList (s.toList.drop sep.toList.length), true)
  else (s, false)

def analyzeClusterScopedObject (obj : Option ObjectMeta) : Except Panic (Except AnalysisError (String × String)) :=
  match obj with
  | none => .error .nilDereference
  | some obj =>
    let kbSpaceID := obj.annotations.getD clusterNamespaceAnnotation ""
    if kbSpaceID = "" then .ok (.error .annotationMissing)
    else if obj.ns ≠ "" then .ok (.error .namespaceScoped)
    else
      match cutPrefix obj.name (kbSpaceID ++ "-") with
      | (name, false) => .ok (.error (.noPrefix name kbSpaceID))
      | (name, true) => .ok (.ok (name, kbSpaceID))

def composeClusterScopedName (kbSpaceID name : String) : String := kbSpaceID ++ "-" ++ name

theorem cutPrefix_append (sep s : String) : cutPrefix (sep ++ s) sep = (s, true) := by
  have hList : (sep ++ s).toList = sep.toList ++ s.toList := String.toList_append
  rw [cutPrefix, hList, if_pos <| isPrefixOf_iff_prefix.mpr (prefix_append _ _), drop_left, String.ofList_toList]

theorem cutPrefix_composeClusterScopedName (kbSpaceID name : String) :
    cutPrefix (composeClusterScopedName kbSpaceID name) (kbSpaceID ++ "-") = (name, true) :=
  cutPrefix_append _ _

theorem analyzeClusterScopedObject_compose (obj : ObjectMeta) (kbSpaceID name : String) (hID : kbSpaceID ≠ "")
    (hAnn : obj.annotations.getD clusterNamespaceAnnotation "" = kbSpaceID)
    (hNS : obj.ns = "") (hName : obj.name = composeClusterScopedName kbSpaceID name) :
    analyzeClusterScopedObject (some obj) = .ok (.ok (name, kbSpaceID)) := by
  simp [analyzeClusterScopedObject, hAnn, hID, hNS, hName, cutPrefix_composeClusterScopedName]

theorem eq_append_of_cutPrefix {s sep name : String} (hCut : cutPrefix s sep = (name, true)) : s = sep ++ name := by
  unfold cutPrefix at hCut
  split at hCut
  · rename_i hPre
    obtain ⟨rest, hRest⟩ := isPrefixOf_iff_prefix.mp hPre
    obtain ⟨rfl, -⟩ := Prod.mk.inj hCut
    rw [← String.toList_inj, String.toList_append, ← hRest, drop_left, String.toList_ofList]
  · exact absurd (Prod.mk.inj hCut).2 Bool.false_ne_true

theorem name_of_analyzeClusterScopedObject {obj : ObjectMeta} {name kbSpaceID : String}
    (hIds : analyzeClusterScopedObject (some obj) = .ok (.ok (name, kbSpaceID))) :
    obj.name = composeClusterScopedName kbSpaceID name := by
  simp only [analyzeClusterScopedObject] at hIds
  split at hIds
  · cases hIds
  · split at hIds
    · cases hIds
    · split at hIds
      · cases hIds
      · rename_i hCut
        cases hIds
        exact eq_append_of_cutPrefix hCut

open GoMap

def kubeBindLabelName : String := "kubestellar.io/kube-bind-id"

def cmNamePrefix : String := "kbmap-"

structure ConfigMap where
  name : String
  labels : Labels

inductive Event where
  | add (cm : ConfigMap)
  | update (old new : ConfigMap)
  /-- Also when the final state was missed and this is the last that was seen. -/
  | delete (cm : ConfigMap)

structure KubeBindSpaceRelation where
  toKubeBind : GoMap String String
  fromKubeBind : GoMap String String

namespace KubeBindSpaceRelation

def new : KubeBindSpaceRelation := ⟨∅, ∅⟩

variable (reln : KubeBindSpaceRelation)

def spaceIDFromKubeBind (kubeBindID : String) : String :=
  reln.fromKubeBind.getD kubeBindID ""

def setMapping (newUnderID newKBSpaceID : String) : KubeBindSpaceRelation :=
  let oldKBSpaceID := reln.toKubeBind.getD newUnderID ""
  if newKBSpaceID = oldKBSpaceID then reln
  else if newKBSpaceID = "" then ⟨reln.toKubeBind.delete newUnderID, reln.fromKubeBind.delete oldKBSpaceID⟩
  else
    let oldUnderID := reln.fromKubeBind.getD newKBSpaceID ""
    let toKubeBind := if oldUnderID ≠ "" then reln.toKubeBind.delete oldUnderID else reln.toKubeBind
    let fromKubeBind := if oldKBSpaceID ≠ "" then reln.fromKubeBind.delete oldKBSpaceID else reln.fromKubeBind
    ⟨toKubeBind.put newUnderID newKBSpaceID, fromKubeBind.put newKBSpaceID newUnderID⟩

end KubeBindSpaceRelation

def ConfigMap.underID (cm : ConfigMap) : Option String :=
  match cutPrefix cm.name cmNamePrefix with
  | (_, false) => none
  | (underID, true) => if cm.name.utf8ByteSize ≤ cmNamePrefix.utf8ByteSize + 1 then none else some underID

def ConfigMap.kbSpaceID (cm : ConfigMap) : String := cm.labels.getD kubeBindLabelName ""

namespace KubeBindSpaceRelation

variable (reln : KubeBindSpaceRelation)

def onAdd (cm : ConfigMap) : KubeBindSpaceRelation :=
  match cm.underID with
  | none => reln
  | some underID => reln.setMapping underID cm.kbSpaceID

def onUpdate (_ new : ConfigMap) : KubeBindSpaceRelation := reln.onAdd new

def onDelete (cm : ConfigMap) : KubeBindSpaceRelation :=
  match cm.underID with
  | none => reln
  | some underID => reln.setMapping underID ""

def handle : Event → KubeBindSpaceRelation
  | .add cm => reln.onAdd cm
  | .update old new => reln.onUpdate old new
  | .delete cm => reln.onDelete cm

end KubeBindSpaceRelation

structure Inverse (reln : KubeBindSpaceRelation) : Prop where
  get_iff : ∀ spaceID kbSpaceID, reln.toKubeBind.get spaceID = some kbSpaceID ↔
    reln.fromKubeBind.get kbSpaceID = some spaceID
  ids : ∀ spaceID kbSpaceID, reln.toKubeBind.get spaceID = some kbSpaceID → spaceID ≠ "" ∧ kbSpaceID ≠ ""

open KubeBindSpaceRelation

theorem inverse_new : Inverse .new := by
  constructor
  · intro spaceID kbSpaceID
    simp [new]
  · intro spaceID kbSpaceID hGet
    cases hGet

variable {reln : KubeBindSpaceRelation} (hInverse : Inverse reln) {event : Event}

include hInverse

theorem Inverse.swap : Inverse ⟨reln.fromKubeBind, reln.toKubeBind⟩ where
  get_iff k u := (hInverse.get_iff u k).symm
  ids k u hGet := (hInverse.ids u k ((hInverse.get_iff u k).mpr hGet)).symm

theorem Inverse.getD_to (spaceID : String) :
    reln.toKubeBind.get spaceID = none ∧ reln.toKubeBind.getD spaceID "" = "" ∨
      ∃ kbSpaceID, kbSpaceID ≠ "" ∧ reln.toKubeBind.get spaceID = some kbSpaceID ∧
        reln.toKubeBind.getD spaceID "" = kbSpaceID := by
  rw [GoMap.getD]
  cases hGet : reln.toKubeBind.get spaceID with
  | none => exact .inl ⟨rfl, rfl⟩
  | some kbSpaceID => exact .inr ⟨kbSpaceID, (hInverse.ids spaceID kbSpaceID hGet).2, rfl, rfl⟩

theorem Inverse.get_to_without (kbSpaceID u k : String) :
    (if reln.fromKubeBind.getD kbSpaceID "" ≠ "" then reln.toKubeBind.delete (reln.fromKubeBind.getD kbSpaceID "")
      else reln.toKubeBind).get u = some k ↔ reln.toKubeBind.get u = some k ∧ k ≠ kbSpaceID := by
  have hIff := hInverse.get_iff
  rcases hInverse.swap.getD_to kbSpaceID with ⟨hNone, hEmpty⟩ | ⟨old, hOld, hGet, hGetD⟩
  · grind
  · have hHeld := (hIff old kbSpaceID).mpr hGet
    rw [hGetD, if_pos hOld, get_delete]
    grind

theorem Inverse.setMapping {underID : String} (hUnder : underID ≠ "") (kbSpaceID : String) :
    Inverse (reln.setMapping underID kbSpaceID) ∧
      ∀ u k, (reln.setMapping underID kbSpaceID).toKubeBind.get u = some k ↔
        (u = underID ∧ k = kbSpaceID ∧ k ≠ "") ∨ (u ≠ underID ∧ k ≠ kbSpaceID ∧ reln.toKubeBind.get u = some k) := by
  have hIff := hInverse.get_iff
  have hIds := hInverse.ids
  have hOld := hInverse.getD_to underID
  rw [KubeBindSpaceRelation.setMapping]
  dsimp only
  split
  · -- nothing changes
    refine ⟨hInverse, fun u k => ?_⟩
    grind
  · split
    · -- the space has no kube-bind id any more
      refine ⟨⟨fun u k => ?_, fun u k => ?_⟩, fun u k => ?_⟩ <;> simp only [get_delete] <;> grind
    · have hTo : ∀ u k, _ ↔ _ := hInverse.get_to_without kbSpaceID
      have hFrom : ∀ k u, _ ↔ _ := hInverse.swap.get_to_without underID
      generalize (if reln.fromKubeBind.getD kbSpaceID "" ≠ "" then _ else reln.toKubeBind) = toKubeBind at hTo ⊢
      generalize (if reln.toKubeBind.getD underID "" ≠ "" then _ else reln.fromKubeBind) = fromKubeBind at hFrom ⊢
      refine ⟨⟨fun u k => ?_, fun u k => ?_⟩, fun u k => ?_⟩ <;> simp only [get_put] <;> grind

omit hInverse

theorem ConfigMap.underID_ne_empty {cm : ConfigMap} {underID : String} (hUnder : cm.underID = some underID) :
    underID ≠ "" := by
  rintro rfl
  rw [ConfigMap.underID, cutPrefix] at hUnder
  by_cases hCut : cmNamePrefix.toList.isPrefixOf cm.name.toList = true
  · rw [if_pos hCut] at hUnder
    dsimp only at hUnder
    split at hUnder
    · cases hUnder
    · -- nothing follows the prefix, so the name is as long as the prefix
      rename_i hLong
      obtain ⟨rest, hRest⟩ := isPrefixOf_iff_prefix.mp hCut
      rw [← hRest, drop_left, Option.some.injEq, String.ofList_eq_empty_iff] at hUnder
      rw [hUnder, append_nil, String.toList_inj] at hRest
      rw [← hRest] at hLong
      omega
  · rw [if_neg hCut] at hUnder
    cases hUnder

def Event.underID : Event → Option String
  | .add cm => cm.underID
  | .update _ new => new.underID
  | .delete cm => cm.underID

/-- The kube-bind id that the ConfigMap holds after the event. -/
def Event.kbSpaceID : Event → String
  | .add cm => cm.kbSpaceID
  | .update _ new => new.kbSpaceID
  | .delete _ => ""

theorem handle_ignored (hIgnored : event.underID = none) : reln.handle event = reln := by
  cases event <;> simp_all [Event.underID, handle, onAdd,
      onUpdate, onDelete]

theorem handle_of_underID {underID : String} (hUnder : event.underID = some underID) :
    underID ≠ "" ∧ reln.handle event = reln.setMapping underID event.kbSpaceID := by
  cases event <;> exact ⟨ConfigMap.underID_ne_empty hUnder, by
      simp_all [Event.underID, Event.kbSpaceID, handle, onAdd,
        onUpdate, onDelete]⟩

theorem Inverse.handle (hInverse : Inverse reln) (event : Event) : Inverse (reln.handle event) := by
  cases hUnder : event.underID with
  | none => rwa [handle_ignored hUnder]
  | some underID =>
    obtain ⟨hNonempty, hHandle⟩ := @handle_of_underID reln event underID hUnder
    rw [hHandle]
    exact (hInverse.setMapping hNonempty _).1

theorem Inverse.foldl (hInverse : Inverse reln) (events : List Event) :
    Inverse (events.foldl KubeBindSpaceRelation.handle reln) := by
  induction events generalizing reln with
  | nil => exact hInverse
  | cons event events ih => exact ih (hInverse.handle event)

/-- A relation as events leave it. -/
structure SpaceRelation extends KubeBindSpaceRelation where
  inverse : Inverse toKubeBindSpaceRelation

namespace SpaceRelation

def ofEvents (events : List Event) : SpaceRelation := ⟨events.foldl handle .new, inverse_new.foldl events⟩

theorem fromKubeBind_get {reln : SpaceRelation} {id : String} (hKnown : reln.spaceIDFromKubeBind id ≠ "") :
    reln.fromKubeBind.get id = some (reln.spaceIDFromKubeBind id) := by
  rw [spaceIDFromKubeBind, GoMap.getD] at hKnown ⊢
  cases hGet : reln.fromKubeBind.get id with
  | none => exact absurd (by rw [hGet]; rfl) hKnown
  | some spaceID => rfl

theorem oneToOne (reln : SpaceRelation) {id id' : String}
    (hEq : reln.spaceIDFromKubeBind id = reln.spaceIDFromKubeBind id') (hKnown : reln.spaceIDFromKubeBind id ≠ "") :
    id = id' := by
  have hFrom := (reln.inverse.get_iff _ _).mpr (fromKubeBind_get hKnown)
  have hFrom' := (reln.inverse.get_iff _ _).mpr (fromKubeBind_get (hEq ▸ hKnown))
  exact Option.some.inj (hFrom.symm.trans (hEq ▸ hFrom'))

end SpaceRelation

structure OneToOne (pairs : String → String → Prop) : Prop where
  held : ∀ u k, pairs u k → (∃ cm : ConfigMap, cm.underID = some u ∧ cm.kbSpaceID = k) ∧ k ≠ ""
  oneID : ∀ u k k', pairs u k → pairs u k' → k = k'
  oneSpace : ∀ u u' k, pairs u k → pairs u' k → u = u'

def Reveals (reln : KubeBindSpaceRelation) (pairs : String → String → Prop) : Prop :=
  ∀ u k, (reln.toKubeBind.get u = some k ↔ pairs u k) ∧ (reln.fromKubeBind.get k = some u ↔ pairs u k)

/-- There is an event for each ConfigMap in which the sets differ, and each event shows what its ConfigMap holds in
the second one. -/
structure Leads (pairs pairs' : String → String → Prop) (events : List Event) : Prop where
  covers : ∀ u, (∀ k, pairs u k ↔ pairs' u k) ∨ ∃ event ∈ events, event.underID = some u
  shows : ∀ event ∈ events, ∀ u, event.underID = some u → ∀ k, pairs' u k ↔ k = event.kbSpaceID ∧ k ≠ ""

variable {pairs pairs' : String → String → Prop} {reln : KubeBindSpaceRelation} {events : List Event}

theorem Reveals.inverse (hReveals : Reveals reln pairs) (hPairs : OneToOne pairs) : Inverse reln where
  get_iff u k := (hReveals u k).1.trans (hReveals u k).2.symm
  ids u k hGet := by
    obtain ⟨⟨cm, hUnder, _⟩, hID⟩ := hPairs.held u k ((hReveals u k).1.mp hGet)
    exact ⟨ConfigMap.underID_ne_empty hUnder, hID⟩

theorem Inverse.reveals (hInverse : Inverse reln) (hTo : ∀ u k, reln.toKubeBind.get u = some k ↔ pairs u k) :
    Reveals reln pairs :=
  fun u k => ⟨hTo u k, (hInverse.get_iff u k).symm.trans (hTo u k)⟩

theorem Leads.tail (hPairs' : OneToOne pairs') {underID : String}
    (hUnder : event.underID = some underID) (hLeads : Leads pairs pairs' (event :: events)) :
    Leads (fun u k => (u = underID ∧ k = event.kbSpaceID ∧ k ≠ "") ∨ (u ≠ underID ∧ k ≠ event.kbSpaceID ∧ pairs u k))
      pairs' events where
  covers u := by
    have hShows := hLeads.shows event mem_cons_self underID hUnder
    by_cases hSpace : u = underID
    · subst hSpace
      exact .inl fun k => by simp [hShows]
    · rcases hLeads.covers u with hSame | ⟨other, hOther, hOtherUnder⟩
      · refine .inl fun k => ?_
        have hTaken : pairs' u k → k ≠ event.kbSpaceID := by
          rintro hHeld rfl
          exact hSpace (hPairs'.oneSpace u underID _ hHeld ((hShows _).mpr ⟨rfl, (hPairs'.held u _ hHeld).2⟩))
        rw [hSame k]
        tauto
      · rcases mem_cons.mp hOther with rfl | hLater
        · exact absurd (Option.mem_unique hOtherUnder hUnder) hSpace
        · exact .inr ⟨other, hLater, hOtherUnder⟩
  shows other hOther := hLeads.shows other (mem_cons_of_mem _ hOther)

theorem Leads.tail_ignored (hIgnored : event.underID = none)
    (hLeads : Leads pairs pairs' (event :: events)) : Leads pairs pairs' events where
  covers u := by
    rcases hLeads.covers u with hSame | ⟨other, hOther, hUnder⟩
    · exact .inl hSame
    · rcases mem_cons.mp hOther with rfl | hLater
      · rw [hIgnored] at hUnder
        cases hUnder
      · exact .inr ⟨other, hLater, hUnder⟩
  shows other hOther := hLeads.shows other (mem_cons_of_mem _ hOther)

theorem Leads.foldl (hPairs' : OneToOne pairs') (hLeads : Leads pairs pairs' events)
    (hInverse : Inverse reln) (hTo : ∀ u k, reln.toKubeBind.get u = some k ↔ pairs u k) (u k : String) :
    (events.foldl handle reln).toKubeBind.get u = some k ↔ pairs' u k := by
  induction events generalizing reln pairs with
  | nil =>
    rcases hLeads.covers u with hSame | ⟨event, hEvent, _⟩
    · exact (hTo u k).trans (hSame k)
    · cases hEvent
  | cons event events ih =>
    cases hUnder : event.underID with
    | none =>
      rw [foldl_cons, handle_ignored hUnder]
      exact ih (hLeads.tail_ignored hUnder) hInverse hTo
    | some underID =>
      obtain ⟨hNonempty, hHandle⟩ := @handle_of_underID reln event underID hUnder
      obtain ⟨hStill, hGet⟩ := hInverse.setMapping hNonempty event.kbSpaceID
      rw [foldl_cons, hHandle]
      refine ih (hLeads.tail hPairs' hUnder) hStill fun u k => ?_
      rw [hGet, hTo]

/-- Whatever the events, the maps are inverse to each other after each of them, and events that lead from one set of
pairs to another lead the relation there, in whatever order they come. -/
theorem space_relation_converges : (∀ events : List Event, Inverse (events.foldl KubeBindSpaceRelation.handle .new)) ∧
    ∀ (pairs pairs' : String → String → Prop) (reln : KubeBindSpaceRelation) (events : List Event),
      OneToOne pairs → OneToOne pairs' → Reveals reln pairs → Leads pairs pairs' events →
      Reveals (events.foldl KubeBindSpaceRelation.handle reln) pairs' := by
  refine ⟨inverse_new.foldl, fun pairs pairs' reln events hPairs hPairs' hReveals hLeads => ?_⟩
  have hInverse := hReveals.inverse hPairs
  exact (hInverse.foldl events).reveals (hLeads.foldl hPairs' hInverse fun u k => (hReveals u k).1)

def mappingOf (spaceID kbSpaceID : String) : ConfigMap :=
  ⟨cmNamePrefix ++ spaceID, (∅ : Labels).put kubeBindLabelName kbSpaceID⟩

theorem mappingOf_underID {spaceID : String} (hLong : 2 ≤ spaceID.utf8ByteSize) (kbSpaceID : String) :
    (mappingOf spaceID kbSpaceID).underID = some spaceID := by
  have hNotIgnored : ¬ (cmNamePrefix ++ spaceID).utf8ByteSize ≤ cmNamePrefix.utf8ByteSize + 1 := by
    rw [String.utf8ByteSize_append]
    omega
  rw [ConfigMap.underID, mappingOf, cutPrefix_append]
  exact if_neg hNotIgnored

theorem mappingOf_kbSpaceID (spaceID kbSpaceID : String) : (mappingOf spaceID kbSpaceID).kbSpaceID = kbSpaceID := by
  simp [ConfigMap.kbSpaceID, mappingOf, GoMap.getD]

def twoSpaces (kbSpaceID kbSpaceID' : String) (u k : String) : Prop :=
  (u = "ws1" ∧ k = kbSpaceID) ∨ (u = "ws2" ∧ k = kbSpaceID')

theorem twoSpaces_oneToOne {id id' : String} (hIDs : id ≠ id') (hID : id ≠ "") (hID' : id' ≠ "") :
    OneToOne (twoSpaces id id') where
  held u k hPair := by
    rcases hPair with ⟨rfl, rfl⟩ | ⟨rfl, rfl⟩
    · exact ⟨⟨mappingOf "ws1" k, mappingOf_underID (by decide) k, mappingOf_kbSpaceID _ _⟩, hID⟩
    · exact ⟨⟨mappingOf "ws2" k, mappingOf_underID (by decide) k, mappingOf_kbSpaceID _ _⟩, hID'⟩
  oneID u k k' := by grind [twoSpaces]
  oneSpace u u' k := by grind [twoSpaces]

def twoSpacesRelation : KubeBindSpaceRelation :=
  ⟨((∅ : GoMap String String).put "ws1" "kb1").put "ws2" "kb2",
    ((∅ : GoMap String String).put "kb1" "ws1").put "kb2" "ws2"⟩

/-- Two spaces swap their kube-bind ids: the first event takes its id from the second space. -/
theorem space_relation_converges_swap : OneToOne (twoSpaces "kb1" "kb2") ∧ OneToOne (twoSpaces "kb2" "kb1") ∧
    Reveals twoSpacesRelation (twoSpaces "kb1" "kb2") ∧
    Leads (twoSpaces "kb1" "kb2") (twoSpaces "kb2" "kb1")
      [.update (mappingOf "ws1" "kb1") (mappingOf "ws1" "kb2"),
        .update (mappingOf "ws2" "kb2") (mappingOf "ws2" "kb1")] ∧
    Reveals (List.foldl KubeBindSpaceRelation.handle twoSpacesRelation
      [.update (mappingOf "ws1" "kb1") (mappingOf "ws1" "kb2"),
        .update (mappingOf "ws2" "kb2") (mappingOf "ws2" "kb1")])
      (twoSpaces "kb2" "kb1") := by
  have hPairs : OneToOne (twoSpaces "kb1" "kb2") := twoSpaces_oneToOne (by decide) (by decide) (by decide)
  have hPairs' : OneToOne (twoSpaces "kb2" "kb1") := twoSpaces_oneToOne (by decide) (by decide) (by decide)
  have hReveals : Reveals twoSpacesRelation (twoSpaces "kb1" "kb2") := by
    intro u k
    simp only [twoSpacesRelation, get_put, get_empty, twoSpaces]
    grind
  have hLeads : Leads (twoSpaces "kb1" "kb2") (twoSpaces "kb2" "kb1")
      [.update (mappingOf "ws1" "kb1") (mappingOf "ws1" "kb2"),
        .update (mappingOf "ws2" "kb2") (mappingOf "ws2" "kb1")] := by
    have hUnder1 := @mappingOf_underID "ws1" (by decide)
    have hUnder2 := @mappingOf_underID "ws2" (by decide)
    constructor
    · intro u
      rw [exists_mem_cons_iff, exists_mem_cons_iff, Event.underID, Event.underID, hUnder1, hUnder2]
      grind [twoSpaces]
    · intro event hEvent u hSpace k
      grind [Event.underID, Event.kbSpaceID, twoSpaces, mappingOf_kbSpaceID]
  exact ⟨hPairs, hPairs', hReveals, hLeads, space_relation_converges.2 _ _ _ _ hPairs hPairs' hReveals hLeads⟩

end KubeStellar.Kbuser
