import KubeStellar.Syncer.UpsyncEffects

/-! # What disappeared downstream

Upsync of all objects of a namespaced kind removes the marked objects upstream that are no longer downstream, but
only from the namespaces that are still there downstream.
-/

namespace KubeStellar.Syncer.UpSyncer

open List

variable {J : Type} (w : World J) {resource : EdgeSyncConfigResource}

def NothingLeftOver (gk : GroupKind) (upstream : Cluster J) : Prop :=
  ∀ key obj, upstream.find gk key = some obj → hasUpsyncAnnotation obj = true → (w.downstream.find gk key).isSome = true

variable {w} {client : Client}

theorem allNamespaces_inNamespace {ns : String} (hNs : ns ≠ "") :
    allNamespaces client (resource.inNamespace ns) = false := by
  simp [allNamespaces, EdgeSyncConfigResource.inNamespace, hNs]

theorem inScope_inNamespace (hNsd : client.isNamespaced = true) {ns : String} (hNs : ns ≠ "")
    {key : NamespacedName} : inScope client (resource.inNamespace ns) key = true ↔ key.1 = ns := by
  rw [inScope_iff, allNamespaces_inNamespace hNs, requestNs, if_pos hNsd]
  simp [EdgeSyncConfigResource.inNamespace]

theorem forNamespaces_clears (hScopes : w.SameScopes) (hNsd : (w.client .upstream resource).isNamespaced = true)
    {namespaces : List String} (hNames : ∀ ns ∈ namespaces, ns ≠ "") {upstream : Cluster J}
    (hOk : (forNamespaces (runMany w) resource namespaces upstream).result.error = none) (key : NamespacedName) :
    (key.1 ∉ namespaces →
      (forNamespaces (runMany w) resource namespaces upstream).upstream.find resource.groupKind key =
      upstream.find resource.groupKind key) ∧
    (key.1 ∈ namespaces → ∀ obj,
      (forNamespaces (runMany w) resource namespaces upstream).upstream.find resource.groupKind key = some obj →
        hasUpsyncAnnotation obj = true → (w.downstream.find resource.groupKind key).isSome = true) := by
  induction namespaces generalizing upstream with
  | nil => exact ⟨fun _ => rfl, fun hMem => absurd hMem not_mem_nil⟩
  | cons ns namespaces ih =>
    have hNs := hNames ns mem_cons_self
    have hScope := @inScope_inNamespace resource (w.client .upstream resource) hNsd ns hNs key
    rw [forNamespaces] at hOk ⊢
    cases hHead : (runMany w { resource with ns := ns } upstream).result.error with
    | some err =>
      simp only [hHead] at hOk
      cases hOk
    | none =>
      simp only [hHead] at hOk ⊢
      obtain ⟨hOthers, hCleared⟩ := ih (fun ns' hMem => hNames ns' (mem_cons_of_mem _ hMem)) hOk
      constructor
      · intro hNotMem
        obtain ⟨hNe, hRest⟩ := not_or.mp (fun h => hNotMem (mem_cons.mpr h))
        refine (hOthers hRest).trans ?_
        rcases @upsynced_syncManyIn _ w (resource.inNamespace ns) hScopes upstream key with hSame | ⟨hIn, -⟩
        · exact hSame
        · exact absurd (hScope.mp hIn) hNe
      · intro hMem obj hFind hMarked
        by_cases hRest : key.1 ∈ namespaces
        · exact hCleared hRest obj hFind hMarked
        · have hHere : key.1 = ns := (mem_cons.mp hMem).resolve_right hRest
          exact downstream_of_syncManyIn hScopes (allNamespaces_inNamespace hNs) hHead (hScope.mpr hHere)
            ((hOthers hRest).symm.trans hFind) hMarked

/-- `SyncMany` of everything leaves nothing over upstream if and only if what was left over before was in namespaces
that are downstream. -/
theorem nothingLeftOver_iff (hScopes : w.SameScopes) (hNames : w.ValidNamespaces) (hName : resource.name = "*")
    (hNs : resource.ns = "*") (hNamespaced : (w.client .upstream resource).isNamespaced = true) (depth : Nat)
    {upstream : Cluster J} (hOk : (syncMany w (depth + 2) resource upstream).result.error = none) :
    NothingLeftOver w resource.groupKind (syncMany w (depth + 2) resource upstream).upstream ↔
      ∀ key obj, upstream.find resource.groupKind key = some obj → hasUpsyncAnnotation obj = true →
        w.downstream.find resource.groupKind key = none → key.1 ∈ w.namespaces := by
  rw [syncMany_of_all w hNames hName hNs] at hOk ⊢
  obtain ⟨hUpstream, hRun⟩ := syncAllNamespaces_of_no_error w hOk
  have hClears := forNamespaces_clears hScopes hNamespaced (fun ns hMem => (hNames ns hMem).2) hRun
  rw [hUpstream]
  constructor
  · intro hNothing key obj hFind hMarked hAbsent
    by_contra hNotMem
    have hSome := hNothing key obj (((hClears key).1 hNotMem).trans hFind) hMarked
    rw [hAbsent] at hSome
    cases hSome
  · intro hCondition key obj hFind hMarked
    by_cases hMem : key.1 ∈ w.namespaces
    · exact (hClears key).2 hMem obj hFind hMarked
    · rw [(hClears key).1 hMem] at hFind
      by_contra hAbsent
      rw [Option.not_isSome_iff_eq_none] at hAbsent
      exact hMem (hCondition key obj hFind hMarked hAbsent)

/-- Upstream, there is one object that was made by upsync, in the given namespace. -/
def formerlyUpsynced (ns : String) : Cluster Unit :=
  Cluster.empty.put configMapKind (sampleObject "ConfigMap" ns "old" [(upsyncKey, ownedValue "ConfigMap" ns "old")])

theorem nothingLeftOver_iff_apps :
    (syncMany (sampleWorld []) 2 allConfigMaps (formerlyUpsynced "apps")).result.error = none ∧
    NothingLeftOver (sampleWorld []) configMapKind
      (syncMany (sampleWorld []) 2 allConfigMaps (formerlyUpsynced "apps")).upstream := by
  have hOk : (syncMany (sampleWorld []) 2 allConfigMaps (formerlyUpsynced "apps")).result.error = none := by
    decide +kernel
  refine ⟨hOk, (nothingLeftOver_iff (sampleWorld_sameScopes [])
    (by unfold World.ValidNamespaces; decide +kernel) rfl rfl
    rfl 0 hOk).mpr ?_⟩
  intro key obj hFind _ _
  rw [(Cluster.eq_of_find_put_empty hFind).1]
  decide +kernel

/-- The namespace has gone downstream, and what was upsynced from it stays. -/
theorem nothingLeftOver_fails_gone :
    (syncMany (sampleWorld []) 2 allConfigMaps (formerlyUpsynced "gone")).result.error = none ∧
      ¬ NothingLeftOver (sampleWorld []) configMapKind
        (syncMany (sampleWorld []) 2 allConfigMaps (formerlyUpsynced "gone")).upstream := by
  refine ⟨by decide +kernel, fun hNothing => ?_⟩
  have hSome := hNothing ("gone", "old")
    (sampleObject "ConfigMap" "gone" "old" [(upsyncKey, ownedValue "ConfigMap" "gone" "old")]) rfl (by decide +kernel)
  exact absurd hSome (by decide +kernel)

end KubeStellar.Syncer.UpSyncer
