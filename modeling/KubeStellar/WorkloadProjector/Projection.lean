import KubeStellar.WorkloadProjector.SourceObject

/-! # What repeated projection does to an object in a mailbox

`xformForDestination` makes the object and `genericObjectMerge` revises it. The merge removes nothing, so it changes
an object if and only if that object lacks something of the source.
-/

namespace KubeStellar

open GoMap

namespace Unstructured

theorem sameMaps_self {V : Type} [DecidableEq V] (m? : Option (GoMap String V)) : sameMaps m? m? = true := by
  cases m? with
  | none => rfl
  | some m => exact m.same_self

theorem deepEqual_self {J : Type} [DecidableEq J] (obj : Unstructured J) : obj.deepEqual obj = true := by
  simp [deepEqual, sameMaps_self, same_self]

end Unstructured

namespace WorkloadProjector

variable {J : Type} (srcObj : Unstructured J)

theorem get_kvMerge (src inputDest : GoMap String String) (key : String) :
    (kvMerge src inputDest).get key = (if kvIsSystem key then none else src.get key).or (inputDest.get key) := by
  have hFilter : kvMerge src inputDest = inputDest.putAll (src.filterKeys fun key => !kvIsSystem key).entries := rfl
  rw [hFilter, get_putAll_entries, get_filterKeys]
  cases kvIsSystem key <;> rfl

def HasMerged (src dest : GoMap String String) (but : String → Prop) : Prop :=
  ∀ key val, src.get key = some val → kvIsSystem key = false → ¬ but key → dest.get key = some val

theorem hasMerged_kvMerge (src inputDest : GoMap String String) :
    HasMerged src (kvMerge src inputDest) fun _ => False := by
  intro key val hSrc hSystem _
  rw [get_kvMerge, hSystem, hSrc]
  rfl

theorem kvMerge_eq_self {src dest : GoMap String String} (hMerged : HasMerged src dest fun _ => False) :
    kvMerge src dest = dest := by
  refine putAll_eq_self fun e hMem => ?_
  obtain ⟨hSrc, hSystem⟩ := List.mem_filter.mp hMem
  exact hMerged e.1 e.2 ((get_eq_some_iff _ _ _).mpr hSrc) (by simpa using hSystem) id

theorem put_kvMerge_eq_self {src dest : GoMap String String} {key val : String}
    (hMerged : HasMerged src dest (· = key)) (hVal : dest.get key = some val) :
    (kvMerge src dest).put key val = dest := by
  have hKey : key ∈ dest.keys := (mem_keys_iff dest key).mpr ⟨val, hVal⟩
  have hKeys : (kvMerge src dest).keys = dest.keys := by
    refine keys_putAll_of_mem fun e hMem => ?_
    obtain ⟨hSrc, hSystem⟩ := List.mem_filter.mp hMem
    by_cases hEq : e.1 = key
    · exact hEq ▸ hKey
    · have hGet := hMerged e.1 e.2 ((get_eq_some_iff _ _ _).mpr hSrc) (by simpa using hSystem) hEq
      exact (mem_keys_iff dest e.1).mpr ⟨e.2, hGet⟩
  refine eq_of_keys_get ((keys_put_of_mem (hKeys ▸ hKey) val).trans hKeys) fun key' => ?_
  rw [get_put]
  split
  · rename_i hEq
    rw [hEq, hVal]
  · rename_i hNe
    rw [get_kvMerge]
    cases hSystem : kvIsSystem key' with
    | true => rfl
    | false =>
      cases hSrc : src.get key' with
      | none => rfl
      | some v => exact (hMerged key' v hSrc hSystem hNe).symm

structure Carries (srcObj dest : Unstructured J) : Prop where
  annotations : (srcObj.annotations.getD ∅).isEmpty = false → ∃ annotations, dest.annotations = some annotations ∧
    HasMerged (srcObj.annotations.getD ∅) annotations fun _ => False
  labels : ∃ labels, dest.labels = some labels ∧ labels.get ProjectedLabelKey = some ProjectedLabelVal ∧
    HasMerged (srcObj.labels.getD ∅) labels (· = ProjectedLabelKey)
  content : ∀ field val, srcObj.content.get field = some val → dest.content.get field = some val

theorem carries_genericObjectMerge (inputDest : Unstructured J) :
    Carries srcObj (genericObjectMerge srcObj inputDest) := by
  refine ⟨fun hSome => ?_, ⟨_, rfl, ?_, ?_⟩, fun field val hField => ?_⟩
  · refine ⟨_, ?_, hasMerged_kvMerge _ (inputDest.annotations.getD ∅)⟩
    rw [genericObjectMerge, hSome]
    rfl
  · rw [get_put, if_pos rfl]
  · intro key val hSrc hSystem hNe
    rw [get_put, if_neg hNe]
    exact hasMerged_kvMerge _ _ key val hSrc hSystem id
  · rw [genericObjectMerge, get_putAll_entries, hField]
    rfl

theorem carries_xformForDestination : Carries srcObj (xformForDestination srcObj) := by
  refine ⟨fun hSome => ?_, ⟨_, rfl, ?_, ?_⟩, fun field val hField => hField⟩
  · cases hAnnotations : srcObj.annotations with
    | none =>
      rw [hAnnotations] at hSome
      cases hSome
    | some annotations => exact ⟨annotations, hAnnotations, fun key val hSrc _ _ => hSrc⟩
  · rw [get_put, if_pos rfl]
  · intro key val hSrc _ hNe
    rw [get_put, if_neg hNe]
    exact hSrc

theorem genericObjectMerge_eq_self_iff (dest : Unstructured J) :
    genericObjectMerge srcObj dest = dest ↔ Carries srcObj dest := by
  constructor
  · intro hSame
    exact hSame ▸ carries_genericObjectMerge srcObj dest
  · rintro ⟨hAnnotations, ⟨labels, hLabels, hProjected, hMerged⟩, hContent⟩
    have hSameAnnotations : (if (srcObj.annotations.getD ∅).isEmpty then dest.annotations
        else some (kvMerge (srcObj.annotations.getD ∅) (dest.annotations.getD ∅))) = dest.annotations := by
      split
      · rfl
      · rename_i hSome
        obtain ⟨annotations, hDest, hMerged⟩ := hAnnotations (by simpa using hSome)
        rw [hDest, Option.getD_some, kvMerge_eq_self hMerged]
    have hSameLabels : some ((kvMerge (srcObj.labels.getD ∅) (dest.labels.getD ∅)).put ProjectedLabelKey
        ProjectedLabelVal) = dest.labels := by
      rw [hLabels, Option.getD_some, put_kvMerge_eq_self hMerged hProjected]
    have hSameContent : dest.content.putAll srcObj.content.entries = dest.content :=
      putAll_eq_self fun e hMem => hContent e.1 e.2 ((get_eq_some_iff _ _ _).mpr hMem)
    rw [genericObjectMerge, hSameAnnotations, hSameLabels, hSameContent]

theorem get_content_merge_xform (srcObj₁ srcObj₂ : Unstructured J) (field : String) :
    (genericObjectMerge srcObj₂ (xformForDestination srcObj₁)).content.get field =
      (srcObj₂.content.get field).or (srcObj₁.content.get field) :=
  get_putAll_entries _ _ _

/-- The object that has been created or updated is not updated again. -/
theorem projection_reaches_fixpoint {J : Type} [DecidableEq J] (customize : Unstructured J → Unstructured J)
    (srcObj dest : Unstructured J) :
    genericObjectMerge (customize srcObj) (genericObjectMerge (customize srcObj) dest) =
      genericObjectMerge (customize srcObj) dest ∧
    genericObjectMerge (customize srcObj) (xformForDestination (customize srcObj)) =
      xformForDestination (customize srcObj) ∧
    (genericObjectMerge (customize srcObj) dest).deepEqual
      (genericObjectMerge (customize srcObj) (genericObjectMerge (customize srcObj) dest)) = true ∧
    (xformForDestination (customize srcObj)).deepEqual
      (genericObjectMerge (customize srcObj) (xformForDestination (customize srcObj))) = true := by
  have hMerged := (genericObjectMerge_eq_self_iff _ _).mpr (carries_genericObjectMerge (customize srcObj) dest)
  have hCreated := (genericObjectMerge_eq_self_iff _ _).mpr (carries_xformForDestination (customize srcObj))
  refine ⟨hMerged, hCreated, ?_, ?_⟩
  · rw [hMerged]
    exact Unstructured.deepEqual_self _
  · rw [hCreated]
    exact Unstructured.deepEqual_self _

/-- Of a field that the source object has lost, the last value stays; so the fields agree if and only if none is
lost. -/
theorem projected_fields {J : Type} (srcObj₁ srcObj₂ : Unstructured J) :
    (∀ field val, (genericObjectMerge srcObj₂ (xformForDestination srcObj₁)).content.get field = some val ↔
      srcObj₂.content.get field = some val ∨ srcObj₂.content.get field = none ∧ srcObj₁.content.get field = some val) ∧
    ((∀ field, (genericObjectMerge srcObj₂ (xformForDestination srcObj₁)).content.get field =
        srcObj₂.content.get field) ↔
      ∀ field, srcObj₁.content.has field = true → srcObj₂.content.has field = true) := by
  refine ⟨fun field val => ?_, forall_congr' fun field => ?_⟩
  · rw [get_content_merge_xform, Option.or_eq_some_iff]
  · rw [get_content_merge_xform, GoMap.has, GoMap.has]
    cases srcObj₂.content.get field <;> cases srcObj₁.content.get field <;> simp

def configMap (content : GoMap String String) : Unstructured String :=
  ⟨"v1", "ConfigMap", "apps", "settings", "", "", "", "", none, none, none, none, none, .absent, content⟩

/-- The source object has lost a field that the copy keeps. -/
theorem removed_data_stays : (configMap ∅).content.has "data" = false ∧
      (genericObjectMerge (configMap ∅) (xformForDestination (configMap (GoMap.ofList [("data", "a")])))).content.get
        "data" = some "a" :=
  ⟨rfl, rfl⟩

end WorkloadProjector

end KubeStellar
