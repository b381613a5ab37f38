import KubeStellar.Syncer.UpSyncer

/-! # What upsync changes upstream

Every call of the upsyncer is a read, a write of an object that it marks and that is downstream, or a delete.
So an object upstream is left as it was, or it is in the namespace that was synced and is marked and downstream.
-/

namespace KubeStellar.Syncer

open List

variable {J : Type}

def Call.IsRead (call : Call J) : Prop := ∃ side resource, call = .get side resource ∨ call = .list side resource

variable {side : Side} {resource : EdgeSyncConfigResource}

namespace World

variable (w : World J)

def Registered (resource : EdgeSyncConfigResource) : Prop := getClients w.clients resource ≠ none

def SameScopes : Prop := ∀ resource, w.Registered resource → w.client .upstream resource = w.client .downstream resource

abbrev listed (cluster : Cluster J) (side : Side) (resource : EdgeSyncConfigResource) : List (Unstructured J) :=
  cluster.list w.ord (w.client side resource) resource

variable {w}

theorem list_of_refused {err : ApiError} (hRefused : w.refuses (.list side resource) = some err)
    (upstream : Cluster J) : (w.answers upstream).list side resource = .error err := by
  simp only [answers, hRefused]

theorem list_of_accepted (hAcc : w.refuses (.list side resource) = none) (upstream : Cluster J) :
    (w.answers upstream).list side resource = .ok (w.listed (w.cluster upstream side) side resource) := by
  simp only [answers, hAcc]

end World

variable {upstream : Cluster J} {obj : Unstructured J} {call : Call J} {exchanges : List (Exchange J)}

namespace UpSyncer

variable (w : World J) (resource : EdgeSyncConfigResource)

inductive Planned : Call J → Prop where
  | read (call : Call J) (hRead : call.IsRead) : Planned call
  | create (obj : Unstructured J) (hScope : inScope (w.client .upstream resource) resource (objectKey obj) = true)
      (hMarked : hasUpsyncAnnotation obj = true)
      (hDown : (w.downstream.find resource.groupKind (objectKey obj)).isSome = true) :
        Planned (.create .upstream resource obj)
  | update (obj : Unstructured J) (hScope : inScope (w.client .upstream resource) resource (objectKey obj) = true)
      (hMarked : hasUpsyncAnnotation obj = true)
      (hDown : (w.downstream.find resource.groupKind (objectKey obj)).isSome = true) :
        Planned (.update .upstream resource obj)
  | delete (name : String) : Planned (.delete .upstream resource name)

def Upsynced (before after : Cluster J) : Prop :=
  ∀ key, after.find resource.groupKind key = before.find resource.groupKind key ∨
    (inScope (w.client .upstream resource) resource key = true ∧
      ∀ obj, after.find resource.groupKind key = some obj →
        hasUpsyncAnnotation obj = true ∧ (w.downstream.find resource.groupKind key).isSome = true)

variable {w resource}

theorem Upsynced.refl (upstream : Cluster J) : Upsynced w resource upstream upstream := fun _ => .inl rfl

theorem Upsynced.trans {first second third : Cluster J} (h : Upsynced w resource first second)
    (h' : Upsynced w resource second third) : Upsynced w resource first third := by
  intro key
  rcases h' key with hSame | hChanged
  · rcases h key with hSame' | ⟨hScope, hObj⟩
    · exact .inl (hSame.trans hSame')
    · exact .inr ⟨hScope, fun obj hFind => hObj obj (hSame ▸ hFind)⟩
  · exact .inr hChanged

open Cluster

theorem Upsynced.put (hScope : inScope (w.client .upstream resource) resource (objectKey obj) = true)
    (hMarked : hasUpsyncAnnotation obj = true)
    (hDown : (w.downstream.find resource.groupKind (objectKey obj)).isSome = true) :
    Upsynced w resource upstream (upstream.put resource.groupKind obj) := by
  intro key
  rw [find, get_put]
  split
  · rename_i hKey
    subst hKey
    refine .inr ⟨hScope, fun obj' hObj => ?_⟩
    cases hObj
    exact ⟨hMarked, hDown⟩
  · exact .inl rfl

theorem requestNs_inScope (client : Client) (resource : EdgeSyncConfigResource) (name : String) :
    inScope client resource (requestNs client resource, name) = true := inScope_iff.mpr (.inr rfl)

theorem Planned.upsynced (hPlanned : Planned w resource call) (upstream : Cluster J) :
    Upsynced w resource upstream (w.perform upstream call) := by
  cases hPlanned with
  | read call hRead =>
    obtain ⟨side, r, rfl | rfl⟩ := hRead <;> exact .refl upstream
  | create obj hScope hMarked hDown => exact .put hScope hMarked hDown
  | update obj hScope hMarked hDown => exact .put hScope hMarked hDown
  | delete name =>
    intro key
    rw [World.perform, find, get_delete]
    split
    · rename_i hKey
      subst hKey
      exact .inr ⟨requestNs_inScope _ _ _, fun obj hObj => by cases hObj⟩
    · exact .inl rfl

theorem upsynced_foldl (hPlanned : ∀ e ∈ exchanges, Planned w resource e.call) (upstream : Cluster J) :
    Upsynced w resource upstream (exchanges.foldl w.apply upstream) := by
  induction exchanges generalizing upstream with
  | nil => exact .refl upstream
  | cons e exchanges ih =>
    refine Upsynced.trans ?_ (ih (fun e' hMem => hPlanned e' (mem_cons_of_mem _ hMem)) (w.apply upstream e))
    rw [World.apply]
    split
    · exact .refl upstream
    · exact (hPlanned e mem_cons_self).upsynced upstream

theorem planned_of_mem_writes (hClients : w.client .upstream resource = w.client .downstream resource)
    {down up : List (Unstructured J)} (hDown : ∀ d ∈ down, d ∈ w.listed w.downstream .downstream resource)
    (hCall : call ∈ writes resource down up) : Planned w resource call := by
  have hMarked : ∀ obj : Unstructured J, hasUpsyncAnnotation (obj |> setUpsyncAnnotation) = true :=
    hasMark_setMark upsyncKey
  have hListed : ∀ d ∈ down, inScope (w.client .upstream resource) resource (objectKey d) = true ∧
      (w.downstream.find resource.groupKind (objectKey d)).isSome = true := by
    intro d hd
    obtain ⟨hGet, hScope⟩ := mem_list_iff.mp (hDown d hd)
    exact ⟨hClients ▸ hScope, Option.isSome_iff_exists.mpr ⟨d, hGet⟩⟩
  simp only [writes, writeCalls, mem_append, mem_map] at hCall
  rcases hCall with (⟨obj, hObj, rfl⟩ | ⟨obj, hObj, rfl⟩) | ⟨obj, hObj, rfl⟩
  · obtain ⟨d, hd, -, rfl⟩ := mem_newResources_iff.mp hObj
    exact .create _ (hListed d hd).1 (hMarked _) (hListed d hd).2
  · simp only [diff, mem_filterMap, Option.map_eq_some_iff] at hObj
    obtain ⟨d, hd, o, -, rfl⟩ := hObj
    have hKey : objectKey (replacement d o |> setUpsyncAnnotation) = objectKey d := objectKey_replacement d o
    refine .update _ ?_ (hMarked _) ?_
    · rw [hKey]
      exact (hListed d hd).1
    · rw [hKey]
      exact (hListed d hd).2
  · exact .delete obj.name

/-- What has been done and why it stopped, once the lists have been taken. -/
abbrev written (w : World J) (resource : EdgeSyncConfigResource) (upstream : Cluster J) (first : Exchange J)
    (down : List (Unstructured J)) : Result J :=
  ⟨first :: ⟨.list .upstream resource, w.listed upstream .upstream resource, none⟩ ::
    (issue (w.answers upstream) (writes resource down (w.listed upstream .upstream resource))).calls,
    (issue (w.answers upstream) (writes resource down (w.listed upstream .upstream resource))).error⟩

theorem isRead_list (side : Side) (resource : EdgeSyncConfigResource) : (Call.list side resource : Call J).IsRead :=
  ⟨side, resource, .inr rfl⟩

theorem listDestination_cases (w : World J) (resource : EdgeSyncConfigResource) (upstream : Cluster J)
    {first : Exchange J} (hFirst : first.call = .list .downstream resource) (down : List (Unstructured J)) :
    ((∀ e ∈ ((listDestination (w.answers upstream) resource .upstream (fun down up => .ok (writes resource down up))
        down).after [first]).calls, e.call.IsRead) ∧
      ((listDestination (w.answers upstream) resource .upstream (fun down up => .ok (writes resource down up))
        down).after [first]).error ≠ none) ∨
    (listDestination (w.answers upstream) resource .upstream (fun down up => .ok (writes resource down up))
        down).after [first] = written w resource upstream first down := by
  rw [listDestination]
  cases hRefused : w.refuses (.list .upstream resource) with
  | some err =>
    rw [World.list_of_refused hRefused]
    refine .inl ⟨fun e hMem => ?_, by simp [Result.after]⟩
    simp only [Result.after, cons_append, nil_append, mem_cons, not_mem_nil, or_false] at hMem
    rcases hMem with rfl | rfl
    · rw [hFirst]
      exact isRead_list .downstream resource
    · exact isRead_list .upstream resource
  | none =>
    rw [World.list_of_accepted hRefused]
    exact .inr rfl

theorem syncManyIn_cases (w : World J) (resource : EdgeSyncConfigResource) (upstream : Cluster J) :
    ((∀ e ∈ (syncManyIn w.clients (w.answers upstream) resource).calls, e.call.IsRead) ∧
      (syncManyIn w.clients (w.answers upstream) resource).error ≠ none) ∨
    (w.Registered resource ∧ ∃ first down, first.call = .list .downstream resource ∧
      (∀ d ∈ down, d ∈ w.listed w.downstream .downstream resource) ∧
      syncManyIn w.clients (w.answers upstream) resource = written w resource upstream first down) := by
  rw [syncManyIn, listAndWrite]
  cases hClients : getClients w.clients resource with
  | none => exact .inl ⟨by simp, by simp⟩
  | some pair =>
    have hReg : w.Registered resource := by simp [World.Registered, hClients]
    cases hRefused : w.refuses (.list .downstream resource) with
    | none =>
      rw [World.list_of_accepted hRefused]
      exact (listDestination_cases w resource upstream rfl _).imp_right fun h =>
        ⟨hReg, _, _, rfl, fun _ hd => hd, h⟩
    | some err =>
      rw [World.list_of_refused hRefused]
      cases err with
      | notFound =>
        exact (listDestination_cases w resource upstream rfl []).imp_right fun h =>
          ⟨hReg, _, [], rfl, by simp, h⟩
      | alreadyExists | other =>
        refine .inl ⟨fun e hMem => ?_, by simp⟩
        rw [mem_singleton.mp hMem]
        exact isRead_list .downstream resource

theorem planned_syncManyIn (hScopes : w.SameScopes) (upstream : Cluster J) :
    ∀ e ∈ (syncManyIn w.clients (w.answers upstream) resource).calls, Planned w resource e.call := by
  intro e hMem
  rcases syncManyIn_cases w resource upstream with ⟨hReads, -⟩ | ⟨hReg, first, down, hFirst, hDown, hRun⟩
  · exact .read _ (hReads e hMem)
  · rw [hRun] at hMem
    rcases mem_cons.mp hMem with rfl | hMem
    · exact .read _ ⟨.downstream, resource, .inr hFirst⟩
    · rcases mem_cons.mp hMem with rfl | hMem
      · exact .read _ (isRead_list .upstream resource)
      · exact planned_of_mem_writes (hScopes resource hReg) hDown (mem_of_issue _ hMem).1

theorem upsynced_syncManyIn (hScopes : w.SameScopes) (upstream : Cluster J) :
    Upsynced w resource upstream (w.run (fun answers => syncManyIn w.clients answers resource) upstream).upstream :=
  upsynced_foldl (planned_syncManyIn hScopes upstream) upstream

theorem find_foldl_of_deleted (hPlanned : ∀ e ∈ exchanges, Planned w resource e.call) {name : String}
    (hDelete : (⟨.delete .upstream resource name, [], none⟩ : Exchange J) ∈ exchanges)
    (hDown : w.downstream.find resource.groupKind (requestNs (w.client .upstream resource) resource, name) = none)
    (upstream : Cluster J) : (exchanges.foldl w.apply upstream).find resource.groupKind
      (requestNs (w.client .upstream resource) resource, name) = none := by
  obtain ⟨earlier, later, rfl⟩ := append_of_mem hDelete
  rw [foldl_append, foldl_cons]
  have hLater := upsynced_foldl (fun e hMem => hPlanned e (mem_append_right _ (mem_cons_of_mem _ hMem)))
    (w.apply (earlier.foldl w.apply upstream) ⟨.delete .upstream resource name, [], none⟩)
    (requestNs (w.client .upstream resource) resource, name)
  rcases hLater with hSame | ⟨-, hObj⟩
  · rw [hSame]
    exact (get_delete _ _ _ _).trans (if_pos rfl)
  · refine Option.eq_none_iff_forall_ne_some.mpr fun obj hFind => ?_
    rw [hDown] at hObj
    cases (hObj obj hFind).2

theorem downstream_of_syncManyIn (hScopes : w.SameScopes)
    (hOne : allNamespaces (w.client .upstream resource) resource = false)
    (hOk : (syncManyIn w.clients (w.answers upstream) resource).error = none) {key : NamespacedName}
    (hScope : inScope (w.client .upstream resource) resource key = true)
    (hFind : (w.run (fun answers => syncManyIn w.clients answers resource) upstream).upstream.find
      resource.groupKind key = some obj)
    (hMarked : hasUpsyncAnnotation obj = true) : (w.downstream.find resource.groupKind key).isSome = true := by
  rcases upsynced_syncManyIn hScopes upstream key with hSame | ⟨-, hObj⟩
  swap
  · exact (hObj obj hFind).2
  rcases syncManyIn_cases w resource upstream with ⟨-, hError⟩ | ⟨-, first, down, -, hDown, hRun⟩
  · exact absurd hOk hError
  -- otherwise it was there before, was listed, and has been deleted
  by_contra hAbsent
  rw [Option.not_isSome_iff_eq_none] at hAbsent
  rw [hSame] at hFind
  obtain rfl : objectKey obj = key := upstream.keyed _ _ _ hFind
  have hKey : objectKey obj = (requestNs (w.client .upstream resource) resource, obj.name) := by
    refine Prod.ext ((inScope_iff.mp hScope).resolve_left ?_) rfl
    rw [hOne]
    exact Bool.false_ne_true
  have hDeleted : obj ∈ (diff down (w.listed upstream .upstream resource) setUpsyncAnnotation
      hasUpsyncAnnotation).deletedResources := by
    refine mem_deletedResources_iff.mpr ⟨mem_list_iff.mpr ⟨hFind, hScope⟩, fun d hd hSameKey => ?_, hMarked⟩
    have hGet := (mem_list_iff.mp (hDown d hd)).1
    rw [hSameKey] at hGet
    rw [find, hGet] at hAbsent
    cases hAbsent
  have hIssue := issue_of_no_error (w.answers upstream) ((congrArg Result.error hRun).symm.trans hOk)
  have hCall : (⟨.delete .upstream resource obj.name, [], none⟩ : Exchange J) ∈
      (syncManyIn w.clients (w.answers upstream) resource).calls := by
    rw [hRun, written, hIssue]
    refine mem_cons_of_mem _ (mem_cons_of_mem _ (mem_map.mpr ⟨_, ?_, rfl⟩))
    rw [writes, delete_mem_writeCalls]
    exact ⟨rfl, rfl, obj, hDeleted, rfl⟩
  have hGone := find_foldl_of_deleted (planned_syncManyIn hScopes upstream) hCall (hKey ▸ hAbsent) upstream
  rw [← hKey] at hGone
  exact Option.some_ne_none obj (hFind.symm.trans (hSame.symm.trans hGone))

end UpSyncer

def EdgeSyncConfigResource.inNamespace (resource : EdgeSyncConfigResource) (ns : String) : EdgeSyncConfigResource :=
  { resource with ns := ns }

namespace World

variable (w : World J)

def namespaces : List String := (w.listed w.downstream .downstream UpSyncer.nsResource).map fun obj => obj.name

def ValidNamespaces : Prop := ∀ ns ∈ w.namespaces, ns ≠ "*" ∧ ns ≠ ""

end World

variable {f : EdgeSyncConfigResource → Cluster J → Outcome J}

namespace UpSyncer

variable (w : World J) (upstream : Cluster J)

theorem getNamespaces_cases :
    (∀ e ∈ (getNamespaces w.clients (w.answers upstream)).1, ∃ r, e.call = .list .downstream r) ∧
      ((∃ err, (getNamespaces w.clients (w.answers upstream)).2 = .error err) ∨
        (w.Registered nsResource ∧ (getNamespaces w.clients (w.answers upstream)).2 = .ok w.namespaces)) := by
  rw [getNamespaces]
  cases hClients : getClients w.clients nsResource with
  | none => exact ⟨by simp, .inl ⟨_, rfl⟩⟩
  | some pair =>
    cases hRefused : w.refuses (.list .downstream nsResource) with
    | some err =>
      rw [World.list_of_refused hRefused]
      exact ⟨by simp, .inl ⟨_, rfl⟩⟩
    | none =>
      rw [World.list_of_accepted hRefused]
      exact ⟨by simp, .inr ⟨by simp [World.Registered, hClients], rfl⟩⟩

theorem getNamespaces_of_accepted (hReg : w.Registered nsResource) (hAcc : ∀ call, w.refuses call = none) :
    (getNamespaces w.clients (w.answers upstream)).2 = .ok w.namespaces := by
  obtain ⟨pair, hClients⟩ := Option.ne_none_iff_exists'.mp hReg
  simp only [getNamespaces, hClients, World.list_of_accepted (hAcc _)]
  rfl

abbrev runMany (resource : EdgeSyncConfigResource) (upstream : Cluster J) : Outcome J :=
  w.run (fun answers => syncManyIn w.clients answers resource) upstream

abbrev runOne (resource : EdgeSyncConfigResource) (upstream : Cluster J) : Outcome J :=
  w.run (fun answers => syncOne w.clients answers resource) upstream

theorem syncMany_of_ns (hNs : resource.ns ≠ "*") (depth : Nat) (upstream : Cluster J) :
    syncMany w (depth + 1) resource upstream = runMany w resource upstream := by
  simp only [syncMany, hNs, ne_eq, not_false_eq_true, and_true, and_false, if_false, ite_self]

theorem syncMany_of_name (hName : resource.name ≠ "*") (hNs : resource.ns = "*") (depth : Nat) (upstream : Cluster J) :
    syncMany w (depth + 1) resource upstream = syncAllNamespaces w (runOne w) resource upstream := by
  rw [syncMany, if_neg fun h => hName h.1, if_pos ⟨hName, hNs⟩]

theorem forNamespaces_congr {g : EdgeSyncConfigResource → Cluster J → Outcome J} {namespaces : List String}
    (hSame : ∀ ns ∈ namespaces, f (resource.inNamespace ns) = g (resource.inNamespace ns)) (upstream : Cluster J) :
    forNamespaces f resource namespaces upstream = forNamespaces g resource namespaces upstream := by
  induction namespaces generalizing upstream with
  | nil => rfl
  | cons ns namespaces ih =>
    have hHead : f { resource with ns := ns } = g { resource with ns := ns } := hSame ns List.mem_cons_self
    rw [forNamespaces, forNamespaces, hHead, ih fun ns' hMem => hSame ns' (List.mem_cons_of_mem _ hMem)]

theorem syncMany_of_all (hNames : w.ValidNamespaces) (hName : resource.name = "*") (hNs : resource.ns = "*")
    (depth : Nat) (upstream : Cluster J) :
    syncMany w (depth + 2) resource upstream = syncAllNamespaces w (runMany w) resource upstream := by
  rw [syncMany, if_neg fun h => h.2 hNs, if_neg fun h => h.1 hName, if_pos ⟨hName, hNs⟩]
  rw [syncAllNamespaces, syncAllNamespaces]
  rcases (getNamespaces_cases w upstream).2 with ⟨err, hError⟩ | ⟨-, hOk⟩
  · rw [hError]
  · rw [hOk]
    refine congrArg (Outcome.after _) (forNamespaces_congr (fun ns hMem => ?_) upstream)
    funext upstream'
    exact syncMany_of_ns w (hNames ns hMem).1 depth upstream'

theorem syncAllNamespaces_of_no_error {upstream : Cluster J}
    (hOk : (syncAllNamespaces w f resource upstream).result.error = none) :
    (syncAllNamespaces w f resource upstream).upstream = (forNamespaces f resource w.namespaces upstream).upstream ∧
      (forNamespaces f resource w.namespaces upstream).result.error = none := by
  rw [syncAllNamespaces] at hOk ⊢
  rcases (getNamespaces_cases w upstream).2 with ⟨err, hError⟩ | ⟨-, hNss⟩
  · rw [hError] at hOk
    cases hOk
  · rw [hNss] at hOk ⊢
    exact ⟨rfl, hOk⟩

def configMapKind : GroupKind := ⟨"", "ConfigMap"⟩

def sampleClients : GoMap GroupKind Client := GoMap.ofList [(configMapKind, ⟨true⟩), (⟨"", "Namespace"⟩, ⟨false⟩)]

def allConfigMaps : EdgeSyncConfigResource := ⟨"ConfigMap", "", "v1", "*", "*"⟩

variable (configMaps : List (Unstructured Unit))

/-- Every call succeeds, and the only namespace downstream is `apps`. -/
def sampleWorld : World Unit where
  clients := ⟨sampleClients, sampleClients⟩
  ord := .insertion
  downstream := configMaps.foldl (fun cluster obj => cluster.put configMapKind obj)
    (Cluster.empty.put ⟨"", "Namespace"⟩ (sampleObject "Namespace" "" "apps" []))
  refuses _ := none

theorem sampleWorld_sameScopes : (sampleWorld configMaps).SameScopes :=
  fun _ _ => rfl

end UpSyncer

end KubeStellar.Syncer
