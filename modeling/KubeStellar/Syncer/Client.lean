import KubeStellar.Api

/-! # The clients of the syncers

The calls that the syncers of `pkg/syncer/syncers` make through `pkg/syncer/clientfactory`, and their
answers. Denaturing is disabled, so a resource is the same upstream and downstream.
-/

namespace KubeStellar.Syncer

open List

structure EdgeSyncConfigResource where
  kind : String
  group : String
  version : String
  name : String
  ns : String
deriving DecidableEq

def EdgeSyncConfigResource.groupKind (resource : EdgeSyncConfigResource) : GroupKind := ⟨resource.group, resource.kind⟩

structure Client where
  isNamespaced : Bool

structure Clients where
  upstream : GoMap GroupKind Client
  downstream : GoMap GroupKind Client

def Clients.pair (clients : Clients) (gkForUp gkForDown : GroupKind) : Option (Client × Client) := do
  let upstreamClient ← clients.upstream.get gkForUp
  let downstreamClient ← clients.downstream.get gkForDown
  return (upstreamClient, downstreamClient)

/-- Without denaturing: the conversions of `Naturing.getClients` change nothing. -/
def getClients (clients : Clients) (resource : EdgeSyncConfigResource) : Option (Client × Client) :=
  clients.pair resource.groupKind resource.groupKind

inductive Side where
  | upstream
  | downstream
deriving DecidableEq

inductive Call (J : Type) where
  | get (side : Side) (resource : EdgeSyncConfigResource)
  | list (side : Side) (resource : EdgeSyncConfigResource)
  | create (side : Side) (resource : EdgeSyncConfigResource) (obj : Unstructured J)
  | update (side : Side) (resource : EdgeSyncConfigResource) (obj : Unstructured J)
  | delete (side : Side) (resource : EdgeSyncConfigResource) (name : String)

/-- How the API servers answer. A client that returns no error from a get returns an object. -/
structure Answers (J : Type) where
  get : Side → EdgeSyncConfigResource → Except ApiError (Unstructured J)
  list : Side → EdgeSyncConfigResource → Except ApiError (List (Unstructured J))
  write : Call J → Option ApiError

structure Exchange (J : Type) where
  call : Call J
  read : List (Unstructured J)
  error : Option ApiError

def requestNs (client : Client) (resource : EdgeSyncConfigResource) : String :=
  if client.isNamespaced then resource.ns else ""

def allNamespaces (client : Client) (resource : EdgeSyncConfigResource) : Bool :=
  client.isNamespaced && resource.ns == ""

def inScope (client : Client) (resource : EdgeSyncConfigResource) (key : NamespacedName) : Bool :=
  allNamespaces client resource || key.1 == requestNs client resource

variable {resource : EdgeSyncConfigResource}

theorem inScope_iff {client : Client} {key : NamespacedName} :
    inScope client resource key = true ↔ allNamespaces client resource = true ∨ key.1 = requestNs client resource := by
  rw [inScope, Bool.or_eq_true, beq_iff_eq]

inductive Panic where
  | nilDereference
  | nilMapWrite
  | stackOverflow
deriving DecidableEq

inductive SyncError where
  | notRegistered
  | api (err : ApiError)
  | panic (problem : Panic)
deriving DecidableEq

structure Result (J : Type) where
  calls : List (Exchange J)
  error : Option SyncError

variable {J : Type}

namespace Result

def done : Result J := ⟨[], none⟩

def after (calls : List (Exchange J)) (result : Result J) : Result J := ⟨calls ++ result.calls, result.error⟩

end Result

variable {calls : List (Call J)}

def writeCalls (side : Side) (resource : EdgeSyncConfigResource) (newResources updatedResources
    deletedResources : List (Unstructured J)) : List (Call J) :=
  newResources.map (.create side resource) ++ updatedResources.map (.update side resource) ++
    deletedResources.map fun obj => .delete side resource obj.name

variable {side side' : Side} {resource' : EdgeSyncConfigResource} {new updated deleted : List (Unstructured J)}
  {obj : Unstructured J} {name : String}

@[simp] theorem create_mem_writeCalls : .create side' resource' obj ∈ writeCalls side resource new updated deleted ↔
    side' = side ∧ resource' = resource ∧ obj ∈ new := by
  simp [writeCalls, eq_comm, and_left_comm]

@[simp] theorem update_mem_writeCalls : .update side' resource' obj ∈ writeCalls side resource new updated deleted ↔
    side' = side ∧ resource' = resource ∧ obj ∈ updated := by
  simp [writeCalls, eq_comm, and_left_comm]

@[simp] theorem delete_mem_writeCalls : .delete side' resource' name ∈ writeCalls side resource new updated deleted ↔
    side' = side ∧ resource' = resource ∧ ∃ obj ∈ deleted, obj.name = name := by
  simp [writeCalls, eq_comm, and_left_comm]

variable (answers : Answers J)

def issue : List (Call J) → Result J
  | [] => .done
  | call :: calls =>
    match answers.write call with
    | some err => ⟨[⟨call, [], some err⟩], some (.api err)⟩
    | none => (issue calls).after [⟨call, [], none⟩]

theorem mem_of_issue {exchange : Exchange J} (hMem : exchange ∈ (issue answers calls).calls) :
    exchange.call ∈ calls ∧ exchange.read = [] := by
  induction calls with
  | nil => cases hMem
  | cons call calls ih =>
    rw [issue] at hMem
    split at hMem
    · obtain rfl := mem_singleton.mp hMem
      exact ⟨mem_cons_self, rfl⟩
    · rcases mem_cons.mp hMem with rfl | hMem
      · exact ⟨mem_cons_self, rfl⟩
      · exact ⟨mem_cons_of_mem _ (ih hMem).1, (ih hMem).2⟩

theorem issue_singleton_calls (call : Call J) : (issue answers [call]).calls = [⟨call, [], answers.write call⟩] := by
  rw [issue]
  split
  · rename_i hError
    rw [hError]
  · rename_i hError
    rw [hError]
    rfl

theorem issue_of_no_error (hOk : (issue answers calls).error = none) :
    issue answers calls = ⟨calls.map fun call => ⟨call, [], none⟩, none⟩ := by
  induction calls with
  | nil => rfl
  | cons call calls ih =>
    rw [issue] at hOk ⊢
    split
    · rename_i hError
      rw [hError] at hOk
      cases hOk
    · rename_i hError
      rw [hError] at hOk
      rw [ih hOk]
      rfl

theorem issue_of_all_succeed (hSucceed : ∀ exchange ∈ (issue answers calls).calls, exchange.error = none) :
    issue answers calls = ⟨calls.map fun call => ⟨call, [], none⟩, none⟩ := by
  refine issue_of_no_error answers ?_
  induction calls with
  | nil => rfl
  | cons call calls ih =>
    rw [issue] at hSucceed ⊢
    split
    · rename_i err hError
      rw [hError] at hSucceed
      cases hSucceed ⟨call, [], some err⟩ mem_cons_self
    · rename_i hError
      rw [hError] at hSucceed
      exact ih fun exchange hMem => hSucceed exchange (mem_cons_of_mem _ hMem)

theorem issue_error_eq_none_iff : (issue answers calls).error = none ↔ ∀ call ∈ calls, answers.write call = none := by
  induction calls with
  | nil => simp [issue, Result.done]
  | cons call calls ih =>
    rw [issue, forall_mem_cons]
    cases hWrite : answers.write call with
    | some err => simp
    | none => exact ih.trans (and_iff_right rfl).symm

theorem issue_accepted (hAcc : ∀ call, answers.write call = none) (calls : List (Call J)) :
    issue answers calls = ⟨calls.map fun call => ⟨call, [], none⟩, none⟩ :=
  issue_of_no_error answers ((issue_error_eq_none_iff answers).mpr fun call _ => hAcc call)

variable (clients : Clients) (resource : EdgeSyncConfigResource) (src dest : Side)
  (writes : List (Unstructured J) → List (Unstructured J) → Except Panic (List (Call J)))

def listDestination (srcList : List (Unstructured J)) : Result J :=
  match answers.list dest resource with
  | .error err => ⟨[⟨.list dest resource, [], some err⟩], some (.api err)⟩
  | .ok destList =>
    match writes srcList destList with
    | .error problem => ⟨[⟨.list dest resource, destList, none⟩], some (.panic problem)⟩
    | .ok calls => (issue answers calls).after [⟨.list dest resource, destList, none⟩]

def listAndWrite : Result J :=
  match getClients clients resource with
  | none => ⟨[], some .notRegistered⟩
  | some _ =>
    match answers.list src resource with
    | .ok srcList =>
      (listDestination answers resource dest writes srcList).after [⟨.list src resource, srcList, none⟩]
    | .error .notFound =>
      (listDestination answers resource dest writes []).after [⟨.list src resource, [], some .notFound⟩]
    | .error err => ⟨[⟨.list src resource, [], some err⟩], some (.api err)⟩

theorem listAndWrite_of_all_succeed {pair : Client × Client} (hClients : getClients clients resource = some pair)
    {srcList destList : List (Unstructured J)} (hSrc : answers.list src resource = .ok srcList)
    (hDest : answers.list dest resource = .ok destList) (hCalls : writes srcList destList = .ok calls)
    (hSucceed : ∀ exchange ∈ (listAndWrite answers clients resource src dest writes).calls, exchange.error = none) :
    listAndWrite answers clients resource src dest writes =
      ⟨⟨.list src resource, srcList, none⟩ :: ⟨.list dest resource, destList, none⟩ ::
        calls.map fun call => ⟨call, [], none⟩, none⟩ ∧ ∀ call ∈ calls, answers.write call = none := by
  have hRun : listAndWrite answers clients resource src dest writes = ((issue answers calls).after
      [⟨.list dest resource, destList, none⟩]).after [⟨.list src resource, srcList, none⟩] := by
    simp only [listAndWrite, hClients, hSrc, listDestination, hDest, hCalls]
  rw [hRun] at hSucceed ⊢
  have hIssue := issue_of_all_succeed answers fun exchange hMem =>
    hSucceed exchange (mem_cons_of_mem _ (mem_cons_of_mem _ hMem))
  refine ⟨?_, (issue_error_eq_none_iff answers).mp (congrArg Result.error hIssue)⟩
  rw [hIssue]
  rfl

end KubeStellar.Syncer
