import KubeStellar.Syncer.CreateOnly

/-! # The two entry points of the downsyncer

An object can be synced alone, by `SyncOne`, or as one of a kind, by `SyncMany`. Both push what
`computeUpdatedResource` makes of it, but `diff` also carries over the managed fields and the status of the object
downstream.
-/

namespace KubeStellar.Syncer

open List

namespace DownSyncer

variable {J : Type}

/-- What a call writes. A write does not use the name in the resource: an object has its own. -/
def written : Call J → Option (Call J)
  | .create side resource obj => some (.create side { resource with name := "" } obj)
  | .update side resource obj => some (.update side { resource with name := "" } obj)
  | .delete side resource name => some (.delete side { resource with name := "" } name)
  | .get _ _ | .list _ _ => none

def writesOf (result : Result J) : List (Call J) := result.calls.filterMap fun exchange => written exchange.call

/-- The same writes are made, and the same is returned. -/
def SameEffect (one many : Result J) : Prop := writesOf one = writesOf many ∧ one.error = many.error

variable (resource : EdgeSyncConfigResource)

/-- What `SyncMany` prepares to be pushed. -/
def preparedMany (upstreamResource downstreamResource : Unstructured J) : Unstructured J :=
  setDownsyncAnnotation (replacement upstreamResource downstreamResource)

theorem computeUpdatedResource_of_frozen {x y : Unstructured J} (hx : Frozen x) (hy : Frozen y) (d : Unstructured J) :
    computeUpdatedResource x (some d) = computeUpdatedResource y (some d) := by
  rw [computeUpdatedResource, computeUpdatedResource, isDownsyncOverwrite_eq, isDownsyncOverwrite_eq,
    decide_eq_true hx, decide_eq_true hy]
  rfl

theorem computeUpdatedResource_of_not_frozen {x : Unstructured J} (hx : ¬ Frozen x) (d : Unstructured J) :
    computeUpdatedResource x (some d) = .ok (x, false) := by
  rw [computeUpdatedResource, isDownsyncOverwrite_eq, decide_eq_false hx]
  rfl

theorem writes_singletons {u d : Unstructured J} (hKey : objectKey d = objectKey u) :
    writes resource [u] [d] = (computeUpdatedResource (preparedMany u d) (some d)).map fun computed =>
      if computed.2 then [] else [.update .downstream resource computed.1] := by
  have hFind : ∀ x y : Unstructured J, objectKey y = objectKey x → findWithObject x [y] = some y := by
    intro x y hSame
    rw [findWithObject_eq_some_iff (by simp)]
    exact ⟨mem_singleton_self y, hSame⟩
  have hPrepared : findWithObject (preparedMany u d) [d] = some d :=
    hFind _ d (hKey.trans (by rw [preparedMany, setDownsyncAnnotation, objectKey_setMark, objectKey_replacement]))
  have hUpdated : (diff [u] [d] setDownsyncAnnotation hasDownsyncAnnotation).updatedResources = [preparedMany u d] := by
    simp only [diff, filterMap_cons, hFind u d hKey, Option.map_some, filterMap_nil]
    rfl
  have hNew : (diff [u] [d] setDownsyncAnnotation hasDownsyncAnnotation).newResources = [] := by
    simp only [diff, filterMap_cons, hFind u d hKey, filterMap_nil]
  have hDeleted : (diff [u] [d] setDownsyncAnnotation hasDownsyncAnnotation).deletedResources = [] := by
    simp [diff, hFind d u hKey.symm]
  simp only [writes, hUpdated, hNew, hDeleted, computeUpdatedResources, hPrepared]
  cases computeUpdatedResource (preparedMany u d) (some d) with
  | error problem => rfl
  | ok computed =>
    obtain ⟨updated, noDiff⟩ := computed
    cases noDiff <;> rfl

section Effect

variable {answers : Answers J} (hAcc : ∀ call, answers.write call = none)

theorem writesOf_after {reads : List (Exchange J)} (hReads : ∀ exchange ∈ reads, written exchange.call = none)
    (result : Result J) : writesOf (result.after reads) = writesOf result := by
  rw [writesOf, Result.after, filterMap_append, filterMap_eq_nil_iff.mpr hReads]
  rfl

include hAcc

theorem sameEffect_pushOne_iff {one many : EdgeSyncConfigResource} (hSame : { many with name := one.name } = one)
    {x y d : Unstructured J} (hFrozen : Frozen x ↔ Frozen y) :
    SameEffect (pushOne answers one x d) (pushOne answers many y d) ↔ Frozen x ∨ x = y := by
  have hNamed : { many with name := "" } = { one with name := "" } := by
    rw [← hSame]
  by_cases hx : Frozen x
  · refine iff_of_true ?_ (.inl hx)
    rw [pushOne, pushOne, computeUpdatedResource_of_frozen hx (hFrozen.mp hx)]
    cases computeUpdatedResource y (some d) with
    | error problem => exact ⟨rfl, rfl⟩
    | ok computed =>
      cases hNoDiff : computed.2 with
      | true => simp [SameEffect, hNoDiff]
      | false => simp [SameEffect, hNoDiff, issue_accepted answers hAcc, writesOf, written, hNamed]
  · rw [pushOne, pushOne, computeUpdatedResource_of_not_frozen hx,
      computeUpdatedResource_of_not_frozen (hFrozen.not.mp hx)]
    simp [SameEffect, issue_accepted answers hAcc, writesOf, written, hNamed, hx]

end Effect

/-- An object meets the one of the same namespace and name, for either entry point, and every call succeeds. -/
structure Singletons (clients : Clients) (answers : Answers J) (one many : EdgeSyncConfigResource)
    (u d : Unstructured J) : Prop where
  sameKind : { many with name := one.name } = one
  registered : getClients clients one ≠ none
  getUpstream : answers.get .upstream one = .ok u
  getDownstream : answers.get .downstream one = .ok d
  listUpstream : answers.list .upstream many = .ok [u]
  listDownstream : answers.list .downstream many = .ok [d]
  key : objectKey d = objectKey u
  accepted : ∀ call, answers.write call = none

theorem preparedOne_eq_preparedMany_iff (u d : Unstructured J) : preparedOne u d = preparedMany u d ↔
    u.managedFields = d.managedFields ∧ ∀ fields, d.status = .map fields → u.status = .map fields := by
  rw [preparedOne, preparedMany, replacement, setStatusFieldToDestinationStatus]
  constructor
  · intro hSame
    have hManaged := congrArg Unstructured.managedFields hSame
    have hStatus := congrArg Unstructured.status hSame
    -- Only a status that is a map is taken over from downstream.
    cases hDown : d.status with
    | map fields =>
      rw [hDown] at hManaged hStatus
      refine ⟨hManaged, fun fields' hMap => ?_⟩
      cases hMap
      exact hStatus
    | _ =>
      rw [hDown] at hManaged
      refine ⟨hManaged, fun fields hMap => ?_⟩
      cases hMap
  · rintro ⟨hManaged, hStatus⟩
    cases hDown : d.status with
    | map fields => simp only [← hManaged, ← hStatus fields hDown]
    | _ => simp only [← hManaged]

theorem syncMany_of_singletons {clients : Clients} {answers : Answers J} {one many : EdgeSyncConfigResource}
    {u d : Unstructured J} (hMeet : Singletons clients answers one many u d) :
    syncMany clients answers many = (pushOne answers many (preparedMany u d) d).after
      [⟨.list .upstream many, [u], none⟩, ⟨.list .downstream many, [d], none⟩] := by
  have hClients : getClients clients many ≠ none := by
    have hKind : many.groupKind = one.groupKind := by rw [← hMeet.sameKind]; rfl
    rw [getClients, hKind]
    exact hMeet.registered
  obtain ⟨pair, hPair⟩ := Option.ne_none_iff_exists'.mp hClients
  simp only [syncMany, listAndWrite, hPair, hMeet.listUpstream, listDestination, hMeet.listDownstream,
    writes_singletons many hMeet.key, pushOne]
  cases computeUpdatedResource (preparedMany u d) (some d) with
  | error problem => rfl
  | ok computed =>
    obtain ⟨updated, noDiff⟩ := computed
    cases noDiff <;> rfl

/-- `SyncOne` and `SyncMany` write the same, if and only if the object downstream is to be kept as it is, or has the
managed fields of the one upstream and, if its status is a map, its status. -/
theorem entryPoints_agree_iff {clients : Clients} {answers : Answers J} {one many : EdgeSyncConfigResource}
    {u d : Unstructured J} (hMeet : Singletons clients answers one many u d) :
    SameEffect (syncOne clients answers one) (syncMany clients answers many) ↔
      Frozen u ∨ u.managedFields = d.managedFields ∧ ∀ fields, d.status = .map fields → u.status = .map fields := by
  have hPrepared : Frozen (preparedOne u d) ↔ Frozen (preparedMany u d) :=
    (frozen_preparedOne_iff u d).trans (frozen_marked_iff u d).symm
  rw [syncOne_of_meet ⟨hMeet.registered, hMeet.getUpstream, hMeet.getDownstream⟩, syncMany_of_singletons hMeet,
    updateOne, SameEffect, writesOf_after (by simp [written]), writesOf_after (by simp [written])]
  exact (sameEffect_pushOne_iff hMeet.accepted hMeet.sameKind hPrepared).trans
    (or_congr (frozen_preparedOne_iff u d) (preparedOne_eq_preparedMany_iff u d))

def deployment (managedField status : String) : Unstructured String where
  apiVersion := "apps/v1"
  kind := "Deployment"
  ns := "default"
  name := "web"
  uid := ""
  resourceVersion := ""
  selfLink := ""
  clusterName := ""
  deletionTimestamp := none
  annotations := none
  labels := none
  managedFields := some [managedField]
  ownerReferences := none
  status := .map status
  content := ∅

def webDeployment : EdgeSyncConfigResource := ⟨"Deployment", "apps", "v1", "web", "default"⟩

def allDeployments : EdgeSyncConfigResource := ⟨"Deployment", "apps", "v1", "*", "default"⟩

def deploymentClients : Clients :=
  ⟨GoMap.ofList [(⟨"apps", "Deployment"⟩, ⟨true⟩)], GoMap.ofList [(⟨"apps", "Deployment"⟩, ⟨true⟩)]⟩

/-- There is one object on each side, and every call succeeds. -/
def pairAnswers (upstreamResource downstreamResource : Unstructured String) : Answers String where
  get side _ := match side with
    | .upstream => .ok upstreamResource
    | .downstream => .ok downstreamResource
  list side _ := match side with
    | .upstream => .ok [upstreamResource]
    | .downstream => .ok [downstreamResource]
  write _ := none

theorem singletons_deployments (managedField status managedField' status' : String) :
    Singletons deploymentClients (pairAnswers (deployment managedField status) (deployment managedField' status'))
      webDeployment allDeployments (deployment managedField status) (deployment managedField' status') :=
  ⟨rfl, Option.some_ne_none _, rfl, rfl, rfl, rfl, rfl, fun _ => rfl⟩

theorem entryPoints_agree_iff_settled :
    SameEffect (syncOne deploymentClients (pairAnswers (deployment "m" "ready") (deployment "m" "ready")) webDeployment)
      (syncMany deploymentClients (pairAnswers (deployment "m" "ready") (deployment "m" "ready")) allDeployments) :=
  (entryPoints_agree_iff (singletons_deployments "m" "ready" "m" "ready")).mpr (.inr ⟨rfl, fun _ hMap => hMap⟩)

def startedAnswers : Answers String := pairAnswers (deployment "kubectl" "") (deployment "kubelet" "ready")

/-- The status and the managed fields upstream are pushed by one entry point and those downstream by the other. -/
theorem entryPoints_differ_for_status : writesOf (syncOne deploymentClients startedAnswers webDeployment) =
        [.update .downstream { webDeployment with name := "" } <| setDownsyncAnnotation (deployment "kubectl" "")] ∧
      writesOf (syncMany deploymentClients startedAnswers allDeployments) =
        [.update .downstream { webDeployment with name := "" } <|
          setDownsyncAnnotation (deployment "kubelet" "ready")] ∧
      ¬ SameEffect (syncOne deploymentClients startedAnswers webDeployment)
        (syncMany deploymentClients startedAnswers allDeployments) := by
  refine ⟨rfl, rfl, fun hSame => ?_⟩
  obtain ⟨hPushed, -⟩ := List.cons.inj hSame.1
  exact absurd (congrArg Unstructured.status (Call.update.inj hPushed).2.2) (by decide)

end DownSyncer

end KubeStellar.Syncer
