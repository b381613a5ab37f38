import KubeStellar.Syncer.UpsyncEffects

/-! # Whose objects upsync writes to

An update or a delete is allowed if its object carried its own mark when it was last read. `SyncOne` looks at the
mark, and so does `SyncMany` before it deletes, but not before it updates.
-/

namespace KubeStellar.Syncer

open List

variable {J : Type}

def World.refusing (w : World J) (refuses : Call J → Option ApiError) : World J := { w with refuses := refuses }

variable {exchanges : List (Exchange J)} {f : EdgeSyncConfigResource → Cluster J → Outcome J}
  {down up : List (Unstructured J)} {ns' : String} {before after : Cluster J} {call : Call J}

namespace UpSyncer

variable (client : EdgeSyncConfigResource → Client) (read : List (Unstructured J))

def seen (exchange : Exchange J) : List (Unstructured J) :=
  match exchange.call with
  | .get .upstream _ | .list .upstream _ => exchange.read
  | _ => read

def Allowed : Call J → Prop
  | .update .upstream _ obj => ∃ o ∈ read, objectKey o = objectKey obj ∧ hasUpsyncAnnotation o = true
  | .delete .upstream resource name => ∃ o ∈ read, o.name = name ∧
      inScope (client resource) resource (objectKey o) = true ∧ hasUpsyncAnnotation o = true
  | _ => True

def Respects : List (Unstructured J) → List (Exchange J) → Prop
  | _, [] => True
  | read, exchange :: exchanges => Allowed client read exchange.call ∧ Respects (seen read exchange) exchanges

variable {client} {resource : EdgeSyncConfigResource} {namespaces : List String}

theorem allowed_of_isRead (hRead : call.IsRead) (read : List (Unstructured J)) : Allowed client read call := by
  obtain ⟨side, resource, rfl | rfl⟩ := hRead <;> trivial

theorem seen_of_not_isRead {exchange : Exchange J} (hWrite : ¬ exchange.call.IsRead) (read : List (Unstructured J)) :
    seen read exchange = read := by
  rw [seen]
  split
  · rename_i resource hCall
    exact absurd ⟨.upstream, resource, .inl hCall⟩ hWrite
  · rename_i resource hCall
    exact absurd ⟨.upstream, resource, .inr hCall⟩ hWrite
  · rfl

theorem respects_append {first second : List (Exchange J)} {read : List (Unstructured J)} :
    Respects client read (first ++ second) ↔
      Respects client read first ∧ Respects client (first.foldl seen read) second := by
  induction first generalizing read with
  | nil => simp [Respects]
  | cons exchange first ih =>
    rw [cons_append, Respects, Respects, ih, foldl_cons, and_assoc]

theorem respects_of_isRead (hReads : ∀ e ∈ exchanges, e.call.IsRead) (read : List (Unstructured J)) :
    Respects client read exchanges := by
  induction exchanges generalizing read with
  | nil => trivial
  | cons exchange exchanges ih =>
    exact ⟨allowed_of_isRead (hReads exchange mem_cons_self) read,
      ih (fun e hMem => hReads e (mem_cons_of_mem _ hMem)) _⟩

theorem respects_of_not_isRead (hWrites : ∀ e ∈ exchanges, ¬ e.call.IsRead) {read : List (Unstructured J)} :
    Respects client read exchanges ↔ ∀ e ∈ exchanges, Allowed client read e.call := by
  induction exchanges with
  | nil => simp [Respects]
  | cons exchange exchanges ih =>
    rw [Respects, seen_of_not_isRead (hWrites exchange mem_cons_self),
      ih fun e hMem => hWrites e (mem_cons_of_mem _ hMem), forall_mem_cons]

theorem respects_forNamespaces {p : Cluster J → Prop}
    (hStep : ∀ ns ∈ namespaces, ∀ upstream, p upstream → p (f (resource.inNamespace ns) upstream).upstream ∧
      ∀ read, Respects client read (f (resource.inNamespace ns) upstream).result.calls)
    {upstream : Cluster J} (hp : p upstream) (read : List (Unstructured J)) :
    Respects client read (forNamespaces f resource namespaces upstream).result.calls := by
  induction namespaces generalizing upstream read with
  | nil => trivial
  | cons ns namespaces ih =>
    obtain ⟨hNext, hHere⟩ := hStep ns mem_cons_self upstream hp
    rw [forNamespaces]
    split
    · exact hHere read
    · exact respects_append.mpr ⟨hHere read, ih (fun ns' hMem => hStep ns' (mem_cons_of_mem _ hMem)) hNext _⟩

theorem respects_syncAllNamespaces {w : World J} {upstream : Cluster J}
    (hRun : w.Registered nsResource → ∀ read,
      Respects client read (forNamespaces f resource w.namespaces upstream).result.calls)
    (read : List (Unstructured J)) : Respects client read (syncAllNamespaces w f resource upstream).result.calls := by
  obtain ⟨hCalls, hCases⟩ := getNamespaces_cases w upstream
  have hReads : ∀ e ∈ (getNamespaces w.clients (w.answers upstream)).1, e.call.IsRead := by
    intro e hMem
    obtain ⟨r, hCall⟩ := hCalls e hMem
    exact ⟨.downstream, r, .inr hCall⟩
  rw [syncAllNamespaces]
  rcases hCases with ⟨err, hError⟩ | ⟨hReg, hOk⟩
  · rw [hError]
    exact respects_of_isRead hReads read
  · rw [hOk]
    exact respects_append.mpr ⟨respects_of_isRead hReads read, hRun hReg _⟩

variable {w : World J} {resource : EdgeSyncConfigResource} {ns : String}

def OwnedIn (w : World J) (resource : EdgeSyncConfigResource) (upstream : Cluster J) : Prop :=
  ∀ o ∈ w.listed upstream .upstream resource, ∀ d ∈ w.listed w.downstream .downstream resource,
    objectKey d = objectKey o → hasUpsyncAnnotation o = true

theorem not_isRead_of_mem_writes (hCall : call ∈ writes resource down up) : ¬ call.IsRead := by
  rintro ⟨side, r, rfl | rfl⟩ <;> simp [writes, writeCalls] at hCall

theorem respects_issue_iff {answers : Answers J} {client : EdgeSyncConfigResource → Client}
    {read : List (Unstructured J)} : Respects client read (issue answers (writes resource down up)).calls ↔
      ∀ e ∈ (issue answers (writes resource down up)).calls, Allowed client read e.call :=
  respects_of_not_isRead fun _ hMem => not_isRead_of_mem_writes (mem_of_issue answers hMem).1

open Cluster

theorem respects_syncManyIn {upstream : Cluster J} (hOwned : w.Registered resource → OwnedIn w resource upstream)
    (read : List (Unstructured J)) :
    Respects (w.client .upstream) read (syncManyIn w.clients (w.answers upstream) resource).calls := by
  rcases syncManyIn_cases w resource upstream with ⟨hReads, -⟩ | ⟨hReg, first, down, hFirst, hDown, hRun⟩
  · exact respects_of_isRead hReads read
  · rw [hRun]
    refine ⟨allowed_of_isRead ⟨.downstream, resource, .inr hFirst⟩ _, trivial, respects_issue_iff.mpr fun e hMem => ?_⟩
    have hCall := (mem_of_issue _ hMem).1
    simp only [writes, writeCalls, mem_append, mem_map] at hCall
    rcases hCall with (⟨obj, -, hCall⟩ | ⟨obj, hObj, hCall⟩) | ⟨obj, hObj, hCall⟩ <;> rw [← hCall]
    · trivial
    · obtain ⟨d, hd, o, ho, hKey, rfl⟩ := (mem_updatedResources_iff (list_keys_nodup _ _ _ _)).mp hObj
      exact ⟨o, ho, hKey.trans (objectKey_replacement d o).symm, hOwned hReg o ho d (hDown d hd) hKey.symm⟩
    · obtain ⟨ho, -, hMarked⟩ := mem_deletedResources_iff.mp hObj
      exact ⟨obj, ho, rfl, (mem_list_iff.mp ho).2, hMarked⟩

theorem syncManyIn_accepted (hReg : w.Registered resource) (hAcc : ∀ call, w.refuses call = none)
    (upstream : Cluster J) : syncManyIn w.clients (w.answers upstream) resource =
      ⟨⟨.list .downstream resource, w.listed w.downstream .downstream resource, none⟩ ::
        ⟨.list .upstream resource, w.listed upstream .upstream resource, none⟩ ::
        (writes resource (w.listed w.downstream .downstream resource) (w.listed upstream .upstream resource)).map
          fun call => ⟨call, [], none⟩, none⟩ := by
  obtain ⟨pair, hClients⟩ := Option.ne_none_iff_exists'.mp hReg
  rw [syncManyIn, listAndWrite, hClients]
  simp only [World.list_of_accepted (hAcc _), listDestination, issue_accepted (w.answers upstream) hAcc]
  rfl

theorem ownedIn_of_respects (hReg : w.Registered resource) (hAcc : ∀ call, w.refuses call = none)
    {upstream : Cluster J} {read : List (Unstructured J)}
    (hResp : Respects (w.client .upstream) read (syncManyIn w.clients (w.answers upstream) resource).calls) :
    OwnedIn w resource upstream := by
  intro o ho d hd hKey
  rw [syncManyIn_accepted hReg hAcc] at hResp
  have hWrites := (respects_of_not_isRead (fun e hMem => by
    obtain ⟨call, hCall, rfl⟩ := mem_map.mp hMem
    exact not_isRead_of_mem_writes hCall)).mp hResp.2.2
  have hUpdate : .update .upstream resource (replacement d o |> setUpsyncAnnotation) ∈
      writes resource (w.listed w.downstream .downstream resource) (w.listed upstream .upstream resource) := by
    rw [writes, update_mem_writeCalls]
    exact ⟨rfl, rfl, (mem_updatedResources_iff (list_keys_nodup _ _ _ _)).mpr ⟨d, hd, o, ho, hKey.symm, rfl⟩⟩
  obtain ⟨o', ho', hKey', hMarked⟩ := hWrites _ (mem_map.mpr ⟨_, hUpdate, rfl⟩)
  have hSame : objectKey o' = objectKey o := hKey'.trans ((objectKey_replacement d o).trans hKey)
  exact inj_on_of_nodup_map (list_keys_nodup _ _ _ _) ho' ho hSame ▸ hMarked

theorem objectKey_of_get {upstream : Cluster J} {side : Side} {obj : Unstructured J}
    (hGet : (w.answers upstream).get side resource = .ok obj) :
    objectKey obj = (requestNs (w.client side resource) resource, resource.name) := by
  simp only [World.answers] at hGet
  split at hGet
  · cases hGet
  · split at hGet
    · rename_i hFound
      cases hGet
      exact (w.cluster upstream side).keyed _ _ _ hFound
    · cases hGet

theorem respects_syncUpstream {upstream : Cluster J} {downstreamResource : Option (Unstructured J)}
    (hKey : ∀ d, downstreamResource = some d →
      objectKey d = (requestNs (w.client .upstream resource) resource, resource.name)) (read : List (Unstructured J)) :
    Respects (w.client .upstream) read (syncUpstream (w.answers upstream) resource downstreamResource).calls := by
  rw [syncUpstream.eq_def]
  cases hGet : (w.answers upstream).get .upstream resource with
  | error err =>
    cases err with
    | notFound =>
      cases downstreamResource with
      | none => exact ⟨trivial, trivial⟩
      | some d =>
        simp only [Result.after, issue_singleton_calls]
        exact ⟨trivial, trivial, trivial⟩
    | alreadyExists | other => exact ⟨trivial, trivial⟩
  | ok o =>
    have hObject := objectKey_of_get hGet
    by_cases hMarked : hasUpsyncAnnotation o = true
    · simp only [hMarked, if_true]
      cases downstreamResource with
      | none =>
        simp only [Result.after, issue_singleton_calls]
        refine ⟨trivial, ⟨o, mem_singleton_self o, (Prod.mk.inj hObject).2, ?_, hMarked⟩, trivial⟩
        rw [hObject]
        exact requestNs_inScope _ _ _
      | some d =>
        simp only [Result.after, issue_singleton_calls]
        exact ⟨trivial, ⟨o, mem_singleton_self o, hObject.trans (hKey d rfl).symm, hMarked⟩, trivial⟩
    · simp only [hMarked]
      exact ⟨trivial, trivial⟩

theorem respects_syncOne (hScopes : w.SameScopes) (upstream : Cluster J) (read : List (Unstructured J)) :
    Respects (w.client .upstream) read (syncOne w.clients (w.answers upstream) resource).calls := by
  rw [syncOne]
  cases hClients : getClients w.clients resource with
  | none => trivial
  | some pair =>
    have hSame := hScopes resource (by simp [World.Registered, hClients])
    cases hGet : (w.answers upstream).get .downstream resource with
    | ok d =>
      refine ⟨trivial, respects_syncUpstream (fun d' hd' => ?_) _⟩
      cases hd'
      rw [hSame]
      exact objectKey_of_get hGet
    | error err =>
      cases err with
      | notFound => exact ⟨trivial, respects_syncUpstream (fun d hd => by cases hd) _⟩
      | alreadyExists | other => exact ⟨trivial, trivial⟩

theorem OwnedIn.upsynced (hOwned : OwnedIn w (resource.inNamespace ns') before)
    (hUpsynced : Upsynced w (resource.inNamespace ns) before after) : OwnedIn w (resource.inNamespace ns') after := by
  intro o ho d hd hKey
  obtain ⟨hFind, hScope⟩ := mem_list_iff.mp ho
  rcases hUpsynced (objectKey o) with hSame | ⟨-, hObj⟩
  · exact hOwned o (mem_list_iff.mpr ⟨hSame.symm.trans hFind, hScope⟩) d hd hKey
  · exact (hObj o hFind).1

theorem OwnedIn.of_upsynced (hClients : w.client .upstream resource = w.client .downstream resource)
    (hHere : OwnedIn w (resource.inNamespace ns) before) (hOwned : OwnedIn w (resource.inNamespace ns') after)
    (hUpsynced : Upsynced w (resource.inNamespace ns) before after) : OwnedIn w (resource.inNamespace ns') before := by
  intro o ho d hd hKey
  obtain ⟨hFind, hScope⟩ := mem_list_iff.mp ho
  rcases hUpsynced (objectKey o) with hSame | ⟨hIn, -⟩
  · exact hOwned o (mem_list_iff.mpr ⟨hSame.trans hFind, hScope⟩) d hd hKey
  · refine hHere o (mem_list_iff.mpr ⟨hFind, hIn⟩) d (mem_list_iff.mpr ⟨(mem_list_iff.mp hd).1, ?_⟩) hKey
    rw [hKey]
    exact (congrArg (fun c => inScope c (resource.inNamespace ns) (objectKey o)) hClients).symm.trans hIn

theorem ownedIn_of_respects_forNamespaces (hScopes : w.SameScopes) (hReg : w.Registered resource)
    (hAcc : ∀ call, w.refuses call = none) {upstream : Cluster J}
    {read : List (Unstructured J)}
    (hResp : Respects (w.client .upstream) read (forNamespaces (runMany w) resource namespaces upstream).result.calls) :
    ∀ ns ∈ namespaces, OwnedIn w (resource.inNamespace ns) upstream := by
  induction namespaces generalizing upstream read with
  | nil => simp
  | cons ns namespaces ih =>
    have hNoError : (runMany w (resource.inNamespace ns) upstream).result.error = none :=
      congrArg Result.error (@syncManyIn_accepted _ w (resource.inNamespace ns) hReg hAcc upstream)
    rw [forNamespaces] at hResp
    have hSplit : Respects (w.client .upstream) read ((runMany w (resource.inNamespace ns) upstream).result.calls ++
        (forNamespaces (runMany w) resource namespaces
          (runMany w (resource.inNamespace ns) upstream).upstream).result.calls) := by
      split at hResp
      · rename_i hError
        cases hNoError.symm.trans hError
      · exact hResp
    obtain ⟨hFirst, hRest⟩ := respects_append.mp hSplit
    have hHere := @ownedIn_of_respects _ w (resource.inNamespace ns) hReg hAcc upstream read hFirst
    intro ns' hMem
    rcases mem_cons.mp hMem with rfl | hMem
    · exact hHere
    · exact .of_upsynced (hScopes resource hReg) hHere (ih hRest ns' hMem) (upsynced_syncManyIn hScopes upstream)

/-- What `SyncMany` updates carries its own mark: the objects on both sides that it lists, in the namespace that it
is given or in all namespaces downstream. -/
def OwnedWhereListed (w : World J) (resource : EdgeSyncConfigResource) (upstream : Cluster J) : Prop :=
  w.Registered resource → (resource.ns ≠ "*" → OwnedIn w resource upstream) ∧
    (resource.ns = "*" → resource.name = "*" → w.Registered nsResource →
      ∀ ns ∈ w.namespaces, OwnedIn w (resource.inNamespace ns) upstream)

theorem respects_syncMany (hScopes : w.SameScopes) (hNames : w.ValidNamespaces) {upstream : Cluster J}
    (hOwned : OwnedWhereListed w resource upstream) (depth : Nat) (read : List (Unstructured J)) :
    Respects (w.client .upstream) read (syncMany w (depth + 2) resource upstream).result.calls := by
  by_cases hNs : resource.ns = "*"
  swap
  · rw [syncMany_of_ns w hNs]
    exact respects_syncManyIn (fun hReg => (hOwned hReg).1 hNs) read
  by_cases hName : resource.name = "*"
  swap
  · rw [syncMany_of_name w hName hNs]
    refine respects_syncAllNamespaces
      (fun _ => respects_forNamespaces (p := fun _ => True) (fun ns _ upstream' _ => ?_) trivial) read
    exact ⟨trivial, respects_syncOne hScopes upstream'⟩
  rw [syncMany_of_all w hNames hName hNs]
  refine respects_syncAllNamespaces (fun hNss => ?_) read
  -- every namespace keeps what is owned in all of them
  refine @respects_forNamespaces _ _ _ resource w.namespaces (fun upstream => w.Registered resource →
    ∀ ns ∈ w.namespaces, OwnedIn w (resource.inNamespace ns) upstream) (fun ns hMem upstream' hAll => ?_) upstream
    fun hReg => (hOwned hReg).2 hNs hName hNss
  refine ⟨fun hReg ns' hMem' => ?_, respects_syncManyIn fun hReg => hAll hReg ns hMem⟩
  exact (hAll hReg ns' hMem').upsynced (upsynced_syncManyIn hScopes upstream')

theorem ownedWhereListed_of_respects (hScopes : w.SameScopes) (hNames : w.ValidNamespaces)
    (hAcc : ∀ call, w.refuses call = none) {upstream : Cluster J} {depth : Nat} {read : List (Unstructured J)}
    (hResp : Respects (w.client .upstream) read (syncMany w (depth + 2) resource upstream).result.calls) :
    OwnedWhereListed w resource upstream := by
  refine fun hReg => ⟨fun hNs => ?_, fun hNs hName hNss => ?_⟩
  · rw [syncMany_of_ns w hNs] at hResp
    exact ownedIn_of_respects hReg hAcc hResp
  · rw [syncMany_of_all w hNames hName hNs, syncAllNamespaces, getNamespaces_of_accepted w upstream hNss hAcc] at hResp
    exact ownedIn_of_respects_forNamespaces hScopes hReg hAcc (respects_append.mp hResp).2

/-- Whichever calls are refused, `SyncOne` and `SyncMany` only update and delete objects that carried their own marks
when they were read, if and only if the objects that `SyncMany` lists on both sides do. -/
theorem ownership_iff (hScopes : w.SameScopes) (hNames : w.ValidNamespaces) (upstream : Cluster J) (depth : Nat) :
    (∀ refuses, Respects (w.client .upstream) [] (runOne (w.refusing refuses) resource upstream).result.calls ∧
      Respects (w.client .upstream) [] (syncMany (w.refusing refuses) (depth + 2) resource upstream).result.calls) ↔
        OwnedWhereListed w resource upstream := by
  constructor
  · intro hRespects
    exact @ownedWhereListed_of_respects _ (w.refusing fun _ => none) resource hScopes hNames
      (fun _ => rfl) upstream depth []
      (hRespects fun _ => none).2
  · intro hOwned refuses
    exact ⟨@respects_syncOne _ (w.refusing refuses) resource hScopes upstream [],
      @respects_syncMany _ (w.refusing refuses) resource hScopes hNames upstream hOwned depth []⟩

/-- There is an object of the same name on both sides. -/
def sharedWorld : World Unit := sampleWorld [sampleObject "ConfigMap" "apps" "shared" []]

def sharedUpstream (annotations : List (String × String)) : Cluster Unit :=
  Cluster.empty.put configMapKind (sampleObject "ConfigMap" "apps" "shared" annotations)

theorem sharedWorld_validNamespaces : sharedWorld.ValidNamespaces := by
  unfold World.ValidNamespaces
  decide +kernel

theorem ownership_iff_marked :
    OwnedWhereListed sharedWorld allConfigMaps (sharedUpstream [(upsyncKey, "ConfigMap/apps/shared")]) ∧
      ∀ refuses, Respects (sharedWorld.client .upstream) [] (runOne (sharedWorld.refusing refuses) allConfigMaps
            (sharedUpstream [(upsyncKey, "ConfigMap/apps/shared")])).result.calls ∧
        Respects (sharedWorld.client .upstream) [] (syncMany (sharedWorld.refusing refuses) 2 allConfigMaps
            (sharedUpstream [(upsyncKey, "ConfigMap/apps/shared")])).result.calls := by
  have hOwned : OwnedWhereListed sharedWorld allConfigMaps (sharedUpstream [(upsyncKey, "ConfigMap/apps/shared")]) := by
    refine fun _ => ⟨fun hNs => absurd rfl hNs, fun _ _ _ ns _ o ho _ _ _ => ?_⟩
    rw [(Cluster.eq_of_find_put_empty (Cluster.mem_list_iff.mp ho).1).2]
    decide +kernel
  exact ⟨hOwned, (ownership_iff (sampleWorld_sameScopes _) sharedWorld_validNamespaces _ 0).mpr hOwned⟩

/-- An object upstream that upsync did not make is updated. -/
theorem ownership_fails_unmarked : (syncMany sharedWorld 2 allConfigMaps (sharedUpstream [])).result.error = none ∧
    ¬ Respects (sharedWorld.client .upstream) []
      (syncMany sharedWorld 2 allConfigMaps (sharedUpstream [])).result.calls := by
  refine ⟨by decide +kernel, fun hRespects => ?_⟩
  have hOwned := (@ownedWhereListed_of_respects _ sharedWorld allConfigMaps (sampleWorld_sameScopes _)
    sharedWorld_validNamespaces (fun _ => rfl) (sharedUpstream []) 0 [] hRespects (by
      exact Option.some_ne_none _)).2 rfl rfl (by
        exact Option.some_ne_none _) "apps" (by decide +kernel)
  have hMarked := hOwned (sampleObject "ConfigMap" "apps" "shared" [])
    (Cluster.mem_list_iff.mpr ⟨rfl, by decide +kernel⟩)
    (sampleObject "ConfigMap" "apps" "shared" []) (Cluster.mem_list_iff.mpr ⟨rfl, by decide +kernel⟩) rfl
  exact absurd hMarked (by decide +kernel)

end UpSyncer

end KubeStellar.Syncer
