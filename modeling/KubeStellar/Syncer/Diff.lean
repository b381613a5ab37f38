import KubeStellar.Syncer.Client
import Mathlib.Data.List.Basic

/-! # What differs between two lists of objects

`diff` of `pkg/syncer/syncers/common.go` and the marks by which a syncer knows the objects that it has
made: an annotation with the kind, the namespace and the name of the object that carries it.
-/

namespace KubeStellar.Syncer

open List

variable {J : Type} (key : String) (obj : Unstructured J)

/-- The kind in `GroupVersionKind()`, which is empty if the API version cannot be parsed. -/
def gvkKind : String :=
  if obj.apiVersion.toList.count '/' ≤ 1 then obj.kind else ""

def ownedValue (kind ns name : String) : String := kind ++ "/" ++ ns ++ "/" ++ name

def makeOwnedValue : String := ownedValue (gvkKind obj) obj.ns obj.name

def downsyncKey : String := "edge.kubestellar.io/downsynced"

def upsyncKey : String := "edge.kubestellar.io/upsynced"

def setMark (key : String) (obj : Unstructured J) : Unstructured J := obj.annotate key (makeOwnedValue obj)

def hasMark (key : String) (obj : Unstructured J) : Bool := obj.annotationFor key = makeOwnedValue obj

def setDownsyncAnnotation : Unstructured J → Unstructured J := setMark downsyncKey

def hasDownsyncAnnotation : Unstructured J → Bool := hasMark downsyncKey

def setUpsyncAnnotation : Unstructured J → Unstructured J := setMark upsyncKey

def hasUpsyncAnnotation : Unstructured J → Bool := hasMark upsyncKey

theorem hasMark_setMark : hasMark key (setMark key obj) = true := by
  rw [hasMark, decide_eq_true_eq, setMark, Unstructured.annotationFor_annotate, if_pos rfl]
  rfl

theorem append_slash_inj {k k' rest rest' : List Char} (hk : '/' ∉ k) (hk' : '/' ∉ k')
    (hEq : k ++ '/' :: rest = k' ++ '/' :: rest') : k = k' ∧ rest = rest' := by
  induction k generalizing k' with
  | nil =>
    cases k' with
    | nil => exact ⟨rfl, (List.cons.inj hEq).2⟩
    | cons c k' => exact absurd (mem_cons.mpr (.inl (List.cons.inj hEq).1)) hk'
  | cons c k ih =>
    cases k' with
    | nil => exact absurd (mem_cons.mpr (.inl (List.cons.inj hEq).1.symm)) hk
    | cons c' k' =>
      obtain ⟨rfl, hRest⟩ := List.cons.inj hEq
      obtain ⟨rfl, rfl⟩ := ih (fun h => hk (mem_cons_of_mem _ h)) (fun h => hk' (mem_cons_of_mem _ h)) hRest
      exact ⟨rfl, rfl⟩

theorem ownedValue_inj {kind ns name kind' ns' name' : String} (hKind : '/' ∉ kind.toList) (hName : '/' ∉ name.toList)
    (hKind' : '/' ∉ kind'.toList) (hName' : '/' ∉ name'.toList)
    (hEq : ownedValue kind ns name = ownedValue kind' ns' name') : kind = kind' ∧ ns = ns' ∧ name = name' := by
  have hChars := congrArg String.toList hEq
  simp only [ownedValue, String.toList_append, append_assoc] at hChars
  obtain ⟨hKinds, hRest⟩ := append_slash_inj hKind hKind' hChars
  -- the name is what follows the last slash
  have hReversed : name.toList.reverse ++ '/' :: ns.toList.reverse =
      name'.toList.reverse ++ '/' :: ns'.toList.reverse := by
    simpa using congrArg List.reverse hRest
  obtain ⟨hNames, hNss⟩ := append_slash_inj (by simpa using hName) (by simpa using hName') hReversed
  exact ⟨String.toList_inj.mp hKinds, String.toList_inj.mp (reverse_injective hNss),
    String.toList_inj.mp (reverse_injective hNames)⟩

variable {target found : Unstructured J} {resourceList : List (Unstructured J)}

def objectKey : NamespacedName := (obj.ns, obj.name)

def findWithObject (target : Unstructured J) (resourceList : List (Unstructured J)) : Option (Unstructured J) :=
  resourceList.find? fun resource => target.name = resource.name && target.ns = resource.ns

def setStatusFieldToDestinationStatus (srcResource destResource : Unstructured J) : Unstructured J :=
  match destResource.status with
  | .map fields => { srcResource with status := .map fields }
  | .absent | .other _ => srcResource

def replacement (srcResource destResource : Unstructured J) : Unstructured J :=
  setStatusFieldToDestinationStatus
    { srcResource with
      resourceVersion := destResource.resourceVersion
      uid := destResource.uid
      managedFields := destResource.managedFields } destResource

def original (srcResource : Unstructured J) : Unstructured J := { srcResource with resourceVersion := "", uid := "" }

structure Changes (J : Type) where
  newResources : List (Unstructured J)
  updatedResources : List (Unstructured J)
  deletedResources : List (Unstructured J)

def diff (srcResourceList destResourceList : List (Unstructured J)) (mark : Unstructured J → Unstructured J)
    (marked : Unstructured J → Bool) : Changes J where
  newResources := srcResourceList.filterMap fun srcResource =>
    match findWithObject srcResource destResourceList with
    | some _ => none
    | none => some (mark (original srcResource))
  -- whether the object there is marked is not asked
  updatedResources := srcResourceList.filterMap fun srcResource =>
    (findWithObject srcResource destResourceList).map fun destResource =>
      mark (replacement srcResource destResource)
  deletedResources := destResourceList.filter fun destResource =>
    (findWithObject destResource srcResourceList).isNone && marked destResource

@[simp] theorem objectKey_replacement (src dest : Unstructured J) :
    objectKey (replacement src dest) = objectKey src := by
  rw [replacement, setStatusFieldToDestinationStatus]
  cases dest.status <;> rfl

@[simp] theorem annotationFor_replacement (src dest : Unstructured J) (key : String) :
    (replacement src dest).annotationFor key = src.annotationFor key := by
  rw [replacement, setStatusFieldToDestinationStatus]
  cases dest.status <;> rfl

@[simp] theorem objectKey_setMark : objectKey (setMark key obj) = objectKey obj := rfl

theorem annotationFor_setMark_of_ne {key key' : String} (hNe : key' ≠ key) (obj : Unstructured J) :
    (setMark key obj).annotationFor key' = obj.annotationFor key' := by
  rw [setMark, Unstructured.annotationFor_annotate, if_neg hNe]

theorem findWithObject_congr {target' : Unstructured J} (hKey : objectKey target = objectKey target')
    (resourceList : List (Unstructured J)) :
    findWithObject target resourceList = findWithObject target' resourceList := by
  obtain ⟨hNs, hName⟩ := Prod.mk.inj hKey
  rw [findWithObject, findWithObject, hNs, hName]

theorem findWithObject_eq_none_iff :
    findWithObject target resourceList = none ↔ ∀ resource ∈ resourceList, objectKey resource ≠ objectKey target := by
  simp only [findWithObject, List.find?_eq_none, objectKey, ne_eq, Prod.mk.injEq, Bool.and_eq_true, decide_eq_true_eq]
  refine forall_congr' fun resource => forall_congr' fun _ => not_congr ?_
  exact ⟨fun h => ⟨h.2.symm, h.1.symm⟩, fun h => ⟨h.2.symm, h.1.symm⟩⟩

theorem of_findWithObject (hFound : findWithObject target resourceList = some found) :
    found ∈ resourceList ∧ objectKey found = objectKey target := by
  refine ⟨mem_of_find?_eq_some hFound, ?_⟩
  have hKey := List.find?_some hFound
  simp only [Bool.and_eq_true, decide_eq_true_eq] at hKey
  exact Prod.ext hKey.2.symm hKey.1.symm

theorem findWithObject_eq_some_iff (hNodup : (resourceList.map objectKey).Nodup) :
    findWithObject target resourceList = some found ↔ found ∈ resourceList ∧ objectKey found = objectKey target := by
  refine ⟨of_findWithObject, fun hFound => ?_⟩
  cases hFind : findWithObject target resourceList with
  | none => exact absurd hFound.2 (findWithObject_eq_none_iff.mp hFind found hFound.1)
  | some other =>
    obtain ⟨hOther, hKey⟩ := of_findWithObject hFind
    exact congrArg some (inj_on_of_nodup_map hNodup hOther hFound.1 (hKey.trans hFound.2.symm))

variable {src dest : List (Unstructured J)} {mark : Unstructured J → Unstructured J}
  {marked : Unstructured J → Bool} {obj : Unstructured J}

theorem mem_newResources_iff : obj ∈ (diff src dest mark marked).newResources ↔
    ∃ s ∈ src, (∀ d ∈ dest, objectKey d ≠ objectKey s) ∧ mark (original s) = obj := by
  simp only [diff, mem_filterMap]
  refine exists_congr fun s => and_congr_right fun _ => ?_
  rw [← findWithObject_eq_none_iff]
  cases findWithObject s dest <;> simp

theorem mem_updatedResources_iff (hNodup : (dest.map objectKey).Nodup) :
    obj ∈ (diff src dest mark marked).updatedResources ↔
      ∃ s ∈ src, ∃ d ∈ dest, objectKey d = objectKey s ∧ mark (replacement s d) = obj := by
  simp only [diff, mem_filterMap, Option.map_eq_some_iff, findWithObject_eq_some_iff hNodup, and_assoc]

theorem mem_deletedResources_iff : obj ∈ (diff src dest mark marked).deletedResources ↔
    obj ∈ dest ∧ (∀ s ∈ src, objectKey s ≠ objectKey obj) ∧ marked obj = true := by
  simp only [diff, mem_filter, Bool.and_eq_true, Option.isNone_iff_eq_none, findWithObject_eq_none_iff]

def sampleObject (kind ns name : String) (annotations : List (String × String)) : Unstructured Unit where
  apiVersion := "v1"
  kind := kind
  ns := ns
  name := name
  uid := ""
  resourceVersion := ""
  selfLink := ""
  clusterName := ""
  deletionTimestamp := none
  annotations := some (GoMap.ofList annotations)
  labels := none
  managedFields := none
  ownerReferences := none
  status := .absent
  content := ∅

end KubeStellar.Syncer
