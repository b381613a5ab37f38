import KubeStellar.Syncer.Diff

/-! # Downsync of a kind

`DownSyncer.SyncMany` of `pkg/syncer/syncers/downsyncer.go` and exactly what it creates, updates and deletes
downstream when every call succeeds.
-/

namespace KubeStellar.Syncer

open List

variable {J : Type}

def isDownsyncOverwrite (resource : Unstructured J) : Bool := resource.annotationFor DownsyncOverwriteKey ≠ "false"

namespace DownSyncer

/-- The object to be pushed and whether it does not differ from the one downstream, which is nil if it was not
found. Annotations are a nil map if there are none. -/
def computeUpdatedResource (upstreamResource : Unstructured J) (downstreamResource : Option (Unstructured J)) :
    Except Panic (Unstructured J × Bool) :=
  if !isDownsyncOverwrite upstreamResource then
    match downstreamResource with
    | none => .error .nilDereference
    | some downstreamResource =>
      if downstreamResource.annotationFor DownsyncOverwriteKey = "false" then .ok (downstreamResource, true)
      else match downstreamResource.annotations with
        | none => .error .nilMapWrite
        | some _ => .ok (downstreamResource.annotate DownsyncOverwriteKey "false", false)
  else .ok (upstreamResource, false)

def computeUpdatedResources (downstreamResourceList : List (Unstructured J)) :
    List (Unstructured J) → Except Panic (List (Unstructured J))
  | [] => .ok []
  | updatedResource :: updatedResources => do
    let (resource, noDiff) ←
      computeUpdatedResource updatedResource (findWithObject updatedResource downstreamResourceList)
    let resources ← computeUpdatedResources downstreamResourceList updatedResources
    return if noDiff then resources else resource :: resources

def checkDeletable (downstreamResource : Unstructured J) : Bool := isDownsyncOverwrite downstreamResource

def computeDeletedResources (deletedResources : List (Unstructured J)) : List (Unstructured J) :=
  deletedResources.filter checkDeletable

variable (clients : Clients) (answers : Answers J) (resource : EdgeSyncConfigResource)

def writes (upstreamResourceList downstreamResourceList : List (Unstructured J)) : Except Panic (List (Call J)) := do
  let changes := diff upstreamResourceList downstreamResourceList setDownsyncAnnotation hasDownsyncAnnotation
  let updatedResources ← computeUpdatedResources downstreamResourceList changes.updatedResources
  return writeCalls .downstream resource changes.newResources updatedResources
    (computeDeletedResources changes.deletedResources)

def syncMany : Result J := listAndWrite answers clients resource .upstream .downstream (writes resource)

/-- The objects are kept as they are downstream once that is told there. -/
def Frozen (obj : Unstructured J) : Prop := obj.annotationFor DownsyncOverwriteKey = "false"

instance (obj : Unstructured J) : Decidable (Frozen obj) := inferInstanceAs (Decidable (_ = _))

theorem isDownsyncOverwrite_eq (obj : Unstructured J) : isDownsyncOverwrite obj = !decide (Frozen obj) := by
  rw [isDownsyncOverwrite, decide_not]
  rfl

theorem frozen_marked_iff (src dest : Unstructured J) :
    Frozen (replacement src dest |> setDownsyncAnnotation) ↔ Frozen src := by
  rw [Frozen, Frozen, setDownsyncAnnotation, annotationFor_setMark_of_ne (by decide), annotationFor_replacement]

def pushed (upstreamResource downstreamResource : Unstructured J) : Unstructured J :=
  if Frozen upstreamResource then downstreamResource.annotate DownsyncOverwriteKey "false" else upstreamResource

theorem computeUpdatedResource_spec {upstreamResource downstreamResource : Unstructured J}
    (hAnn : Frozen upstreamResource → downstreamResource.annotations ≠ none) :
    ∃ resource noDiff, computeUpdatedResource upstreamResource (some downstreamResource) = .ok (resource, noDiff) ∧
      (noDiff = true ↔ Frozen upstreamResource ∧ Frozen downstreamResource) ∧
        (noDiff = false → resource = pushed upstreamResource downstreamResource) := by
  rw [computeUpdatedResource, isDownsyncOverwrite_eq]
  by_cases hUp : Frozen upstreamResource
  · obtain ⟨annotations, hSome⟩ := Option.ne_none_iff_exists'.mp (hAnn hUp)
    by_cases hDown : Frozen downstreamResource
    · refine ⟨downstreamResource, true, ?_, by simp [hUp, hDown], by simp⟩
      rw [if_pos (by simp [hUp])]
      exact if_pos hDown
    · refine ⟨downstreamResource.annotate DownsyncOverwriteKey "false", false, ?_, by simp [hDown],
        by simp [pushed, hUp]⟩
      rw [if_pos (by simp [hUp])]
      exact (if_neg hDown).trans (by rw [hSome])
  · exact ⟨upstreamResource, false, by simp [hUp], by simp [hUp], by simp [pushed, hUp]⟩

theorem computeUpdatedResources_spec {down updated : List (Unstructured J)}
    (hFound : ∀ u ∈ updated, ∃ d, findWithObject u down = some d ∧ (Frozen u → d.annotations ≠ none)) :
    ∃ resources, computeUpdatedResources down updated = .ok resources ∧ ∀ obj, obj ∈ resources ↔
      ∃ u ∈ updated, ∃ d, findWithObject u down = some d ∧ ¬ (Frozen u ∧ Frozen d) ∧ pushed u d = obj := by
  induction updated with
  | nil => exact ⟨[], rfl, by simp⟩
  | cons u updated ih =>
    obtain ⟨d, hFind, hAnn⟩ := hFound u mem_cons_self
    obtain ⟨resource, noDiff, hCompute, hNoDiff, hPushed⟩ := @computeUpdatedResource_spec _ u d hAnn
    obtain ⟨resources, hRest, hMem⟩ := ih fun u' hMem => hFound u' (mem_cons_of_mem _ hMem)
    refine ⟨if noDiff then resources else resource :: resources, ?_, fun obj => ?_⟩
    · rw [computeUpdatedResources, hFind, hCompute, hRest]
      rfl
    · simp only [exists_mem_cons_iff, hFind, Option.some.injEq, exists_eq_left', ← hNoDiff, ← hMem]
      cases noDiff with
      | true => simp
      | false => simp [hPushed rfl, eq_comm]

def Deletable (up : List (Unstructured J)) (d : Unstructured J) : Prop :=
  (∀ u ∈ up, objectKey u ≠ objectKey d) ∧
    d.annotationFor downsyncKey = ownedValue (gvkKind d) d.ns d.name ∧ ¬ Frozen d

/-- The objects that are created and updated. -/
structure Pushed (resource : EdgeSyncConfigResource) (up down : List (Unstructured J)) (calls : List (Call J)) :
    Prop where
  only : ∀ call ∈ calls, ∀ side r, (∃ obj, call = .create side r obj ∨ call = .update side r obj) ∨
    (∃ name, call = .delete side r name) → side = .downstream ∧ r = resource
  created : ∀ obj, .create .downstream resource obj ∈ calls ↔ ∃ u ∈ up, (∀ d ∈ down, objectKey d ≠ objectKey u) ∧
    setDownsyncAnnotation (original u) = obj
  updated : ∀ obj, .update .downstream resource obj ∈ calls ↔ ∃ u ∈ up, ∃ d ∈ down, objectKey d = objectKey u ∧
    ¬ (Frozen u ∧ Frozen d) ∧ (if Frozen u then d.annotate DownsyncOverwriteKey "false"
      else setDownsyncAnnotation (replacement u d)) = obj

/-- What downsync does to the objects of a kind, given what is there on both sides. -/
structure Downsynced (client : Client) (resource : EdgeSyncConfigResource) (up down : List (Unstructured J))
    (calls : List (Call J)) : Prop extends Pushed resource up down calls where
  deleted : ∀ key, (∃ name, .delete .downstream resource name ∈ calls ∧ (requestNs client resource, name) = key) ↔
    ∃ d ∈ down, objectKey d = key ∧ Deletable up d

variable {calls : List (Call J)}
  {client : Client}

theorem deleted_iff {down : List (Unstructured J)} {p : Unstructured J → Prop}
    (hDeletes : ∀ name, .delete .downstream resource name ∈ calls ↔ ∃ d ∈ down, d.name = name ∧ p d)
    (hListed : ∀ d ∈ down, inScope client resource (objectKey d) = true)
    (hAddressed : allNamespaces client resource = true → ∀ name, .delete .downstream resource name ∉ calls)
    (key : NamespacedName) :
    (∃ name, .delete .downstream resource name ∈ calls ∧ (requestNs client resource, name) = key) ↔
      ∃ d ∈ down, objectKey d = key ∧ p d := by
  have hNs : ∀ d ∈ down, p d → d.ns = requestNs client resource := by
    intro d hd hp
    refine (inScope_iff.mp (hListed d hd)).resolve_left fun hAll => ?_
    exact hAddressed hAll d.name ((hDeletes d.name).mpr ⟨d, hd, rfl, hp⟩)
  constructor
  · rintro ⟨name, hDelete, rfl⟩
    obtain ⟨d, hd, rfl, hp⟩ := (hDeletes name).mp hDelete
    exact ⟨d, hd, Prod.ext (hNs d hd hp) rfl, hp⟩
  · rintro ⟨d, hd, rfl, hp⟩
    exact ⟨d.name, (hDeletes d.name).mpr ⟨d, hd, rfl, hp⟩, Prod.ext (hNs d hd hp).symm rfl⟩

structure Written (resource : EdgeSyncConfigResource) (up down : List (Unstructured J)) (calls : List (Call J)) :
    Prop extends Pushed resource up down calls where
  deletes : ∀ name, .delete .downstream resource name ∈ calls ↔ ∃ d ∈ down, d.name = name ∧ Deletable up d

theorem Written.downsynced {up down : List (Unstructured J)} (h : Written resource up down calls)
    (hListed : ∀ d ∈ down, inScope client resource (objectKey d) = true)
    (hAddressed : allNamespaces client resource = true → ∀ name, .delete .downstream resource name ∉ calls) :
    Downsynced client resource up down calls :=
  ⟨h.toPushed, deleted_iff resource h.deletes hListed hAddressed⟩

theorem writes_spec {up down : List (Unstructured J)} (hKeys : (down.map objectKey).Nodup)
    (hAnn : ∀ u ∈ up, ∀ d ∈ down, objectKey d = objectKey u → Frozen u → d.annotations ≠ none) :
    ∃ calls, writes resource up down = .ok calls ∧ Written resource up down calls := by
  have hUpdated := fun obj => @mem_updatedResources_iff _ up down setDownsyncAnnotation hasDownsyncAnnotation obj hKeys
  have hKey : ∀ u d : Unstructured J, objectKey (replacement u d |> setDownsyncAnnotation) = objectKey u := fun u d =>
    (objectKey_setMark _ _).trans (objectKey_replacement u d)
  have hFind : ∀ u d : Unstructured J, findWithObject (replacement u d |> setDownsyncAnnotation) down =
      findWithObject u down := fun u d => findWithObject_congr (hKey u d) down
  obtain ⟨resources, hCompute, hMem⟩ := @computeUpdatedResources_spec _ down
    (diff up down setDownsyncAnnotation hasDownsyncAnnotation).updatedResources (by
      intro obj hObj
      obtain ⟨u, hu, d, hd, hSame, rfl⟩ := (hUpdated obj).mp hObj
      exact ⟨d, (hFind u d).trans ((findWithObject_eq_some_iff hKeys).mpr ⟨hd, hSame⟩), fun hFrozen =>
        hAnn u hu d hd hSame ((frozen_marked_iff u d).mp hFrozen)⟩)
  refine ⟨_, by rw [writes, hCompute]; rfl, ⟨⟨?_, fun obj => ?_, fun obj => ?_⟩, fun name => ?_⟩⟩
  · rintro call hCall side r (⟨obj, rfl | rfl⟩ | ⟨name, rfl⟩)
    · exact (create_mem_writeCalls.mp hCall).imp_right And.left
    · exact (update_mem_writeCalls.mp hCall).imp_right And.left
    · exact (delete_mem_writeCalls.mp hCall).imp_right And.left
  · simp [mem_newResources_iff]
  · rw [update_mem_writeCalls, hMem]
    simp only [true_and]
    constructor
    · rintro ⟨x, hx, d, hFound, hThawed, rfl⟩
      obtain ⟨u, hu, d', hd', hSame, rfl⟩ := (hUpdated x).mp hx
      rw [hFind, findWithObject_eq_some_iff hKeys] at hFound
      cases inj_on_of_nodup_map hKeys hd' hFound.1 (hSame.trans hFound.2.symm)
      rw [frozen_marked_iff] at hThawed
      refine ⟨u, hu, d, hd', hSame, hThawed, ?_⟩
      simp only [pushed, frozen_marked_iff]
    · rintro ⟨u, hu, d, hd, hSame, hThawed, rfl⟩
      refine ⟨_, (hUpdated _).mpr ⟨u, hu, d, hd, hSame, rfl⟩, d, ?_, ?_, ?_⟩
      · rw [hFind]
        exact (findWithObject_eq_some_iff hKeys).mpr ⟨hd, hSame⟩
      · rwa [frozen_marked_iff]
      · simp only [pushed, frozen_marked_iff]
  · simp only [delete_mem_writeCalls, computeDeletedResources, mem_filter, mem_deletedResources_iff, true_and]
    refine exists_congr fun d => ?_
    have hMarked : hasDownsyncAnnotation d = true ↔ d.annotationFor downsyncKey = ownedValue (gvkKind d) d.ns d.name :=
      decide_eq_true_iff
    simp only [hMarked, checkDeletable, isDownsyncOverwrite_eq, Bool.not_eq_true', decide_eq_false_iff_not, Deletable]
    tauto

theorem Downsynced.cons_list {up down : List (Unstructured J)}
    (h : Downsynced client resource up down calls) (listed : Side) (r : EdgeSyncConfigResource) :
    Downsynced client resource up down (.list listed r :: calls) := by
  refine ⟨⟨fun call hCall side r' hForm => ?_, fun obj => ?_, fun obj => ?_⟩, fun key => ?_⟩
  · rcases mem_cons.mp hCall with rfl | hCall
    · simp at hForm
    · exact h.only call hCall side r' hForm
  · simpa using h.created obj
  · simpa using h.updated obj
  · simpa using h.deleted key

theorem not_marked_of_copied {d other : Unstructured J} (hKind : '/' ∉ (gvkKind d).toList) (hName : '/' ∉ d.name.toList)
    (hKind' : '/' ∉ (gvkKind other).toList) (hName' : '/' ∉ other.name.toList)
    (hCopied : d.annotationFor downsyncKey = makeOwnedValue other)
    (hOther : (gvkKind other, other.ns, other.name) ≠ (gvkKind d, d.ns, d.name)) :
    d.annotationFor downsyncKey ≠ ownedValue (gvkKind d) d.ns d.name := by
  intro hMarked
  obtain ⟨hKinds, hNss, hNames⟩ := ownedValue_inj hKind hName hKind' hName' (hMarked.symm.trans hCopied)
  exact hOther (by rw [hKinds, hNss, hNames])

/-- The exact effect of `SyncMany` when every call that it makes succeeds. A list has one object under each key and
shows what was asked for, and no server deletes an object of a namespaced kind by its name alone. -/
theorem syncMany_exact {upstreamClient downstreamClient : Client} {up down : List (Unstructured J)}
    (hClients : getClients clients resource = some (upstreamClient, downstreamClient))
    (hUp : answers.list .upstream resource = .ok up) (hDown : answers.list .downstream resource = .ok down)
    (hSucceed : ∀ exchange ∈ (syncMany clients answers resource).calls, exchange.error = none)
    (hKeys : (down.map objectKey).Nodup)
    (hListed : ∀ d ∈ down, inScope downstreamClient resource (objectKey d) = true)
    (hAddressed : allNamespaces downstreamClient resource = true →
      ∀ name, answers.write (.delete .downstream resource name) ≠ none)
    (hAnnotated : ∀ d ∈ down, d.annotations ≠ none)
    (hSlashes : ∀ d ∈ down, '/' ∉ (gvkKind d).toList ∧ '/' ∉ d.name.toList) :
    (syncMany clients answers resource).error = none ∧ Downsynced downstreamClient resource up down
        ((syncMany clients answers resource).calls.map fun exchange => exchange.call) ∧
      ∀ d ∈ down, ∀ other : Unstructured J, '/' ∉ (gvkKind other).toList → '/' ∉ other.name.toList →
        d.annotationFor downsyncKey = makeOwnedValue other →
          (gvkKind other, other.ns, other.name) ≠ (gvkKind d, d.ns, d.name) → .delete .downstream resource d.name ∉
              (syncMany clients answers resource).calls.map fun exchange => exchange.call := by
  obtain ⟨calls, hCalls, hSpec⟩ := @writes_spec _ resource up down hKeys fun _ _ d hd _ _ => hAnnotated d hd
  obtain ⟨hRun, hAccepted⟩ := listAndWrite_of_all_succeed answers clients resource .upstream .downstream
    (writes resource)
    hClients hUp hDown hCalls hSucceed
  have hNoDelete : allNamespaces downstreamClient resource = true → ∀ name, .delete .downstream resource name ∉ calls :=
    fun hAll name hMem => hAddressed hAll name (hAccepted _ hMem)
  have hSpec := hSpec.downsynced resource hListed hNoDelete
  have hMade : (syncMany clients answers resource).calls.map (fun exchange => exchange.call) =
      .list .upstream resource :: .list .downstream resource :: calls := by
    rw [syncMany, hRun]
    simp [Function.comp_def]
  have hDownsynced : Downsynced downstreamClient resource up down
      (.list .upstream resource :: .list .downstream resource :: calls) :=
    (hSpec.cons_list resource .downstream resource).cons_list resource .upstream resource
  refine ⟨by rw [syncMany, hRun], hMade ▸ hDownsynced, ?_⟩
  intro d hd other hKind hName hCopied hOther hDelete
  rw [hMade] at hDelete
  have hNs : d.ns = requestNs downstreamClient resource := by
    refine (inScope_iff.mp (hListed d hd)).resolve_left fun hAll => hNoDelete hAll d.name ?_
    simpa using hDelete
  obtain ⟨d', hd', hKey, -, hMarked, -⟩ := (hDownsynced.deleted _).mp ⟨d.name, hDelete, rfl⟩
  rw [← hNs] at hKey
  cases inj_on_of_nodup_map hKeys hd' hd hKey
  exact not_marked_of_copied (hSlashes d hd).1 (hSlashes d hd).2 hKind hName hCopied hOther hMarked

def configMaps : EdgeSyncConfigResource := ⟨"ConfigMap", "", "v1", "*", "apps"⟩

def configMap (name : String) (annotations : List (String × String)) : Unstructured Unit :=
  sampleObject "ConfigMap" "apps" name annotations

/-- One that has disappeared upstream, and one that got its annotations from that one. -/
def leftOver : List (Unstructured Unit) :=
  [configMap "old" [(downsyncKey, "ConfigMap/apps/old")], configMap "copy" [(downsyncKey, "ConfigMap/apps/old")]]

def configMapClients : Clients :=
  ⟨GoMap.ofList [(⟨"", "ConfigMap"⟩, ⟨true⟩)], GoMap.ofList [(⟨"", "ConfigMap"⟩, ⟨true⟩)]⟩

/-- Every call succeeds, and there is something downstream only. -/
def leftOverAnswers : Answers Unit where
  get _ _ := .error .notFound
  list side _ := match side with
    | .upstream => .ok []
    | .downstream => .ok leftOver
  write _ := none

theorem leftOver_forall {p : Unstructured Unit → Prop}
    (hOld : p (configMap "old" [(downsyncKey, "ConfigMap/apps/old")]))
    (hCopy : p (configMap "copy" [(downsyncKey, "ConfigMap/apps/old")])) : ∀ d ∈ leftOver, p d := by
  intro d hd
  simp only [leftOver, mem_cons, not_mem_nil, or_false] at hd
  rcases hd with rfl | rfl
  · exact hOld
  · exact hCopy

theorem syncMany_exact_leftOver : (syncMany configMapClients leftOverAnswers configMaps).error = none ∧
    Downsynced ⟨true⟩ configMaps [] leftOver
      ((syncMany configMapClients leftOverAnswers configMaps).calls.map fun exchange => exchange.call) ∧
    .delete .downstream configMaps "copy" ∉
      (syncMany configMapClients leftOverAnswers configMaps).calls.map fun exchange => exchange.call := by
  obtain ⟨hError, hSpec, hCopied⟩ := @syncMany_exact _ configMapClients leftOverAnswers configMaps ⟨true⟩ ⟨true⟩ []
    leftOver rfl rfl rfl (by decide) (by decide) (leftOver_forall rfl rfl)
    (fun hAll => absurd hAll (by decide)) (leftOver_forall (by decide) (by decide))
      (leftOver_forall (by decide) (by decide))
  exact ⟨hError, hSpec, hCopied (configMap "copy" [(downsyncKey, "ConfigMap/apps/old")]) (by simp [leftOver])
    (configMap "old" []) (by decide) (by decide) rfl (by decide)⟩

end DownSyncer

end KubeStellar.Syncer
