import KubeStellar.Syncer.Diff

/-! # Upsync

`UpSyncer` of `pkg/syncer/syncers/upsyncer.go`, between a cluster downstream that stays as it is and one upstream that
the calls change. A cluster holds its objects by group and kind, each under its own namespace and name. Any call may be
refused.
-/

namespace KubeStellar.Syncer

structure Cluster (J : Type) where
  objects : GroupKind → GoMap NamespacedName (Unstructured J)
  keyed : ∀ gk key obj, (objects gk).get key = some obj → objectKey obj = key

namespace Cluster

variable {J : Type} {obj : Unstructured J} {cluster : Cluster J} {gk : GroupKind}

theorem keyed_empty : ∀ (_ : GroupKind) (key : NamespacedName) (obj : Unstructured J),
    (∅ : GoMap NamespacedName (Unstructured J)).get key = some obj → objectKey obj = key := by
  intro _ key obj hGet
  rw [GoMap.get_empty] at hGet
  cases hGet

def empty : Cluster J := ⟨fun _ => ∅, keyed_empty⟩

abbrev find (cluster : Cluster J) (gk : GroupKind) (key : NamespacedName) : Option (Unstructured J) :=
  (cluster.objects gk).get key

def list (ord : RangeOrder) (cluster : Cluster J) (client : Client) (resource : EdgeSyncConfigResource) :
    List (Unstructured J) :=
  ((ord.visit (cluster.objects resource.groupKind)).map Prod.snd).filter fun obj =>
    inScope client resource (objectKey obj)

def get (cluster : Cluster J) (client : Client) (resource : EdgeSyncConfigResource) : Option (Unstructured J) :=
  (cluster.objects resource.groupKind).get (requestNs client resource, resource.name)

theorem keyed_put :
    ∀ gk' key obj', ((if gk' = gk then (cluster.objects gk).put (objectKey obj) obj else cluster.objects gk').get key =
      some obj') → objectKey obj' = key := by
  intro gk' key obj' hGet
  split at hGet
  · exact GoMap.forall_get_put (cluster.keyed gk) rfl key obj' hGet
  · exact cluster.keyed gk' key obj' hGet

theorem keyed_delete {deleted : NamespacedName} :
    ∀ gk' key obj', ((if gk' = gk then (cluster.objects gk).delete deleted else cluster.objects gk').get key =
      some obj') → objectKey obj' = key := by
  intro gk' key obj' hGet
  split at hGet
  · exact cluster.keyed gk key obj' (GoMap.get_of_get_delete hGet).2
  · exact cluster.keyed gk' key obj' hGet

def put (cluster : Cluster J) (gk : GroupKind) (obj : Unstructured J) : Cluster J where
  objects gk' := if gk' = gk then (cluster.objects gk).put (objectKey obj) obj else cluster.objects gk'
  keyed := keyed_put

def delete (cluster : Cluster J) (gk : GroupKind) (key : NamespacedName) : Cluster J where
  objects gk' := if gk' = gk then (cluster.objects gk).delete key else cluster.objects gk'
  keyed := keyed_delete

theorem get_put (cluster : Cluster J) (gk : GroupKind) (obj : Unstructured J) (key : NamespacedName) :
    ((cluster.put gk obj).objects gk).get key =
      if key = objectKey obj then some obj else (cluster.objects gk).get key := by
  rw [put]
  simp only [if_true, GoMap.get_put]

theorem get_delete (cluster : Cluster J) (gk : GroupKind) (key key' : NamespacedName) :
    ((cluster.delete gk key).objects gk).get key' = if key' = key then none else (cluster.objects gk).get key' := by
  rw [delete]
  simp only [if_true, GoMap.get_delete]

theorem eq_of_find_put_empty {obj' : Unstructured J} {key : NamespacedName}
    (hFind : (empty.put gk obj).find gk key = some obj') : key = objectKey obj ∧ obj' = obj := by
  rw [find, get_put] at hFind
  split at hFind
  · rename_i hKey
    cases hFind
    exact ⟨hKey, rfl⟩
  · cases (GoMap.get_empty key).symm.trans hFind

theorem mem_list_iff {ord : RangeOrder} {client : Client} {resource : EdgeSyncConfigResource} :
    obj ∈ cluster.list ord client resource ↔
      (cluster.objects resource.groupKind).get (objectKey obj) = some obj ∧
        inScope client resource (objectKey obj) = true := by
  rw [list, List.mem_filter, List.mem_map]
  refine and_congr_left fun _ => ?_
  constructor
  · rintro ⟨⟨key, obj'⟩, hVisit, rfl⟩
    have hGet := (ord.mem_visit_iff _ key obj').mp hVisit
    rwa [cluster.keyed _ key obj' hGet]
  · intro hGet
    exact ⟨(objectKey obj, obj), (ord.mem_visit_iff _ _ _).mpr hGet, rfl⟩

theorem list_keys_nodup (ord : RangeOrder) (cluster : Cluster J) (client : Client) (resource : EdgeSyncConfigResource) :
    ((cluster.list ord client resource).map objectKey).Nodup := by
  refine List.Nodup.sublist (List.Sublist.map _ List.filter_sublist) ?_
  rw [ord.visit_values_keys _ objectKey (cluster.keyed resource.groupKind)]
  exact ord.visit_nodup _

end Cluster

variable {J : Type}

namespace UpSyncer

variable (clients : Clients) (answers : Answers J) (resource : EdgeSyncConfigResource)

/-- `SyncOne` from where it looks upstream. There is no object downstream if it has been deleted there. -/
def syncUpstream (downstreamResource : Option (Unstructured J)) : Result J :=
  match answers.get .upstream resource with
  | .error .notFound =>
    (match downstreamResource with
      | some obj => issue answers [.create .upstream resource <| setUpsyncAnnotation (original obj)]
      | none => .done).after [⟨.get .upstream resource, [], some .notFound⟩]
  | .error err => ⟨[⟨.get .upstream resource, [], some err⟩], some (.api err)⟩
  | .ok upstreamResource =>
    (if hasUpsyncAnnotation upstreamResource then
      match downstreamResource with
      | some obj => issue answers [.update .upstream resource <| setUpsyncAnnotation
          { obj with resourceVersion := upstreamResource.resourceVersion, uid := upstreamResource.uid }]
      | none => issue answers [.delete .upstream resource resource.name]
    else .done).after [⟨.get .upstream resource, [upstreamResource], none⟩]

def syncOne : Result J :=
  match getClients clients resource with
  | none => ⟨[], some .notRegistered⟩
  | some _ =>
    match answers.get .downstream resource with
    | .ok obj => (syncUpstream answers resource (some obj)).after [⟨.get .downstream resource, [obj], none⟩]
    | .error .notFound =>
      (syncUpstream answers resource none).after [⟨.get .downstream resource, [], some .notFound⟩]
    | .error err => ⟨[⟨.get .downstream resource, [], some err⟩], some (.api err)⟩

def writes (downstreamResourceList upstreamResourceList : List (Unstructured J)) : List (Call J) :=
  let changes := diff downstreamResourceList upstreamResourceList setUpsyncAnnotation hasUpsyncAnnotation
  writeCalls .upstream resource changes.newResources changes.updatedResources changes.deletedResources

/-- The `syncMany` that is not exported. -/
def syncManyIn : Result J :=
  listAndWrite answers clients resource .downstream .upstream fun down up => .ok (writes resource down up)

def nsResource : EdgeSyncConfigResource := ⟨"Namespace", "", "v1", "", ""⟩

def getNamespaces : List (Exchange J) × Except SyncError (List String) :=
  match getClients clients nsResource with
  | none => ([], .error .notRegistered)
  | some _ =>
    match answers.list .downstream nsResource with
    | .error err => ([⟨.list .downstream nsResource, [], some err⟩], .error (.api err))
    | .ok namespaces =>
      ([⟨.list .downstream nsResource, namespaces, none⟩], .ok (namespaces.map fun obj => obj.name))

end UpSyncer

structure World (J : Type) where
  clients : Clients
  ord : RangeOrder
  downstream : Cluster J
  refuses : Call J → Option ApiError

structure Outcome (J : Type) where
  upstream : Cluster J
  result : Result J

def Outcome.after (calls : List (Exchange J)) (outcome : Outcome J) : Outcome J :=
  ⟨outcome.upstream, outcome.result.after calls⟩

namespace World

variable (w : World J) (upstream : Cluster J)

def cluster : Side → Cluster J
  | .upstream => upstream
  | .downstream => w.downstream

/-- Only clients that are registered are asked. -/
def client (side : Side) (resource : EdgeSyncConfigResource) : Client :=
  match side with
  | .upstream => (w.clients.upstream.get resource.groupKind).getD ⟨false⟩
  | .downstream => (w.clients.downstream.get resource.groupKind).getD ⟨false⟩

def answers : Answers J where
  get side resource :=
    match w.refuses (.get side resource) with
    | some err => .error err
    | none =>
      match (w.cluster upstream side).get (w.client side resource) resource with
      | some obj => .ok obj
      | none => .error .notFound
  list side resource :=
    match w.refuses (.list side resource) with
    | some err => .error err
    | none => .ok ((w.cluster upstream side).list w.ord (w.client side resource) resource)
  write := w.refuses

def perform : Call J → Cluster J
  | .create .upstream resource obj => upstream.put resource.groupKind obj
  | .update .upstream resource obj => upstream.put resource.groupKind obj
  | .delete .upstream resource name =>
    upstream.delete resource.groupKind (requestNs (w.client .upstream resource) resource, name)
  | _ => upstream

def apply (exchange : Exchange J) : Cluster J :=
  match exchange.error with
  | some _ => upstream
  | none => w.perform upstream exchange.call

def run (sync : Answers J → Result J) (upstream : Cluster J) : Outcome J :=
  ⟨(sync (w.answers upstream)).calls.foldl w.apply upstream, sync (w.answers upstream)⟩

end World

namespace UpSyncer

def forNamespaces (syncFunc : EdgeSyncConfigResource → Cluster J → Outcome J) (resource : EdgeSyncConfigResource) :
    List String → Cluster J → Outcome J
  | [], upstream => ⟨upstream, .done⟩
  | ns :: namespaces, upstream =>
    match (syncFunc { resource with ns := ns } upstream).result.error with
    | some _ => syncFunc { resource with ns := ns } upstream
    | none => (forNamespaces syncFunc resource namespaces (syncFunc { resource with ns := ns } upstream).upstream).after
        (syncFunc { resource with ns := ns } upstream).result.calls

variable (w : World J)

def syncAllNamespaces (syncFunc : EdgeSyncConfigResource → Cluster J → Outcome J) (resource : EdgeSyncConfigResource)
    (upstream : Cluster J) : Outcome J :=
  match (getNamespaces w.clients (w.answers upstream)).2 with
  | .error err => ⟨upstream, ⟨(getNamespaces w.clients (w.answers upstream)).1, some err⟩⟩
  | .ok namespaces => (forNamespaces syncFunc resource namespaces upstream).after
      (getNamespaces w.clients (w.answers upstream)).1

/-- `SyncMany` calls itself for each namespace, to the depth that the stack allows. -/
def syncMany : Nat → EdgeSyncConfigResource → Cluster J → Outcome J
  | 0, _, upstream => ⟨upstream, ⟨[], some (.panic .stackOverflow)⟩⟩
  | depth + 1, resource, upstream =>
    if resource.name = "*" ∧ resource.ns ≠ "*" then
      w.run (fun answers => syncManyIn w.clients answers resource) upstream
    else if resource.name ≠ "*" ∧ resource.ns = "*" then
      syncAllNamespaces w (fun r => w.run fun answers => syncOne w.clients answers r) resource upstream
    else if resource.name = "*" ∧ resource.ns = "*" then
      syncAllNamespaces w (syncMany depth) resource upstream
    else w.run (fun answers => syncManyIn w.clients answers resource) upstream

end UpSyncer

end KubeStellar.Syncer
