import KubeStellar.SetBinder.Aggregation

/-! # What the organizer holds for the tuples it is told

The organizer holds the tuples whose resources go to the mailbox. The deletion of a namespaced tuple also reaches the
cluster-scoped twin, so a stream of tuples keeps this only when no twin of a deleted tuple is to stay.
-/

namespace KubeStellar.SetBinder

open List MapWrite

def namespacedWhole (key : NamespacedDistributionTuple × ObjectName) : NamespacedWhatWhereFullKey :=
  (⟨key.1.2.1, key.2⟩, (key.1.1.groupResource, key.1.2.2.1, key.1.2.2.2), key.1.1.destination)

variable (key : NonNamespacedDistributionTuple × ObjectName)

def clusterWhole : NamespacedWhatWhereFullKey :=
  (⟨key.1.2.cluster, key.2⟩, (key.1.1.groupResource, "", key.1.2.name), key.1.1.destination)

variable (tup : NamespacedWhatWhereFullKey)

def twin : NamespacedWhatWhereFullKey :=
  (tup.1, (tup.2.1.1, "", tup.2.1.2.2), tup.2.2)

theorem factorNamespaced_eq_iff (key : NamespacedDistributionTuple × ObjectName) :
    factorNamespacedWhatWhereFullKey tup = key ↔ tup = namespacedWhole key := by
  constructor <;> rintro rfl <;> rfl

theorem clusterWhole_factorCluster : clusterWhole (factorClusterWhatWhereFullKey (clusterKey tup)) = twin tup := rfl

theorem factorCluster_clusterWhole : factorClusterWhatWhereFullKey (clusterKey (clusterWhole key)) = key := rfl

theorem twin_of_cluster {tup : NamespacedWhatWhereFullKey} (hNS : tup.2.1.2.1 = "") : twin tup = tup := by
  obtain ⟨ep, ⟨gr, ns, name⟩, destination⟩ := tup
  cases hNS
  rfl

variable (modes : ResourceModes) (join : NamespacedWhatWhereFullKey → Option WorkloadPartDetails)

def namespacedContent (key : NamespacedDistributionTuple × ObjectName) : Option WorkloadPartDetails :=
  if (modes key.1.1.groupResource).toMailbox = true ∧ key.1.2.2.1 ≠ "" then join (namespacedWhole key)
  else none

def clusterContent (key : NonNamespacedDistributionTuple × ObjectName) : Option WorkloadPartDetails :=
  if (modes key.1.1.groupResource).toMailbox = true then join (clusterWhole key) else none

variable (w : MapWrite NamespacedWhatWhereFullKey WorkloadPartDetails)

def namespacedWrites : List (MapWrite (NamespacedDistributionTuple × ObjectName) WorkloadPartDetails) :=
  if (modes w.key.2.1.1).toMailbox = true ∧ w.key.2.1.2.1 ≠ "" then
    [w.mapKey factorNamespacedWhatWhereFullKey]
  else []

def clusterWrites : List (MapWrite (NonNamespacedDistributionTuple × ObjectName) WorkloadPartDetails) :=
  if (modes w.key.2.1.1).toMailbox = true ∧ (w.key.2.1.2.1 = "" ∨ w.after = none) then
    [w.mapKey fun tup => factorClusterWhatWhereFullKey (clusterKey tup)]
  else []

structure Known (sbo : Organizer) : Prop where
  namespaced : ∀ key, sbo.perSourceCluster.has key.1.2.1 = false → sbo.namespaced.whatWhereFull.content key = none
  cluster : ∀ key, sbo.perSourceCluster.has key.1.2.cluster = false → sbo.cluster.whatWhereFull.content key = none

structure Written (sbo sbo' : Organizer) (w : MapWrite NamespacedWhatWhereFullKey WorkloadPartDetails) : Prop where
  namespaced : sbo'.namespaced.whatWhereFull.content =
    MapWrite.replay sbo.namespaced.whatWhereFull.content (namespacedWrites modes w)
  cluster : sbo'.cluster.whatWhereFull.content =
    MapWrite.replay sbo.cluster.whatWhereFull.content (clusterWrites modes w)
  upsyncsFull : sbo'.upsyncsFull = sbo.upsyncsFull
  known : Known sbo'

theorem has_add_of_false {E : Type} [DecidableEq E] {set : MapSet E} {elt e : E} (hHas : (set.add elt).has e = false) :
    e ≠ elt ∧ set.has e = false := by
  rw [GoMap.has, MapSet.add, GoMap.get_put] at hHas
  by_cases hEq : e = elt
  · rw [if_pos hEq] at hHas
    cases hHas
  · rw [if_neg hEq] at hHas
    exact ⟨hEq, hHas⟩

variable {env : Env} {sbo : Organizer} {ws : List (MapWrite NamespacedWhatWhereFullKey WorkloadPartDetails)}

open ScopeIndex

theorem put_written (hKnown : Known sbo) (tup : NamespacedWhatWhereFullKey) (val : WorkloadPartDetails) :
    Written env.resourceModes sbo (sbo.put env tup val).1 (.put tup val) := by
  rw [Organizer.put]
  by_cases hMode : (env.resourceModes tup.2.1.1).toMailbox = true
  · rw [if_neg (by simp [hMode])]
    by_cases hNS : tup.2.1.2.1 ≠ ""
    · rw [if_pos hNS]
      refine ⟨?_, ?_, rfl, ?_, ?_⟩
      · rw [namespacedWrites, if_pos ⟨hMode, hNS⟩]
        exact write_content env.ord _ _
      · rw [clusterWrites, if_neg (by simp [MapWrite.key, MapWrite.after, hNS])]
        rfl
      · intro key hHas
        obtain ⟨hNe, hHas⟩ := has_add_of_false hHas
        refine (congrFun (write_content env.ord _ _) key).trans ?_
        rw [MapWrite.on, if_neg, hKnown.namespaced key hHas]
        rintro rfl
        exact hNe rfl
      · intro key hHas
        exact hKnown.cluster key (has_add_of_false hHas).2
    · rw [if_neg hNS]
      rw [not_ne_iff] at hNS
      refine ⟨?_, ?_, rfl, ?_, ?_⟩
      · rw [namespacedWrites, if_neg (by simp [MapWrite.key, hNS])]
        rfl
      · rw [clusterWrites, if_pos ⟨hMode, .inl hNS⟩]
        exact write_content env.ord _ _
      · intro key hHas
        exact hKnown.namespaced key (has_add_of_false hHas).2
      · intro key hHas
        obtain ⟨hNe, hHas⟩ := has_add_of_false hHas
        refine (congrFun (write_content env.ord _ _) key).trans ?_
        rw [MapWrite.on, if_neg, hKnown.cluster key hHas]
        rintro rfl
        exact hNe rfl
  · rw [if_pos (by simpa using hMode)]
    refine ⟨?_, ?_, rfl, hKnown⟩
    · rw [namespacedWrites, if_neg fun h => hMode h.1]
      rfl
    · rw [clusterWrites, if_neg fun h => hMode h.1]
      rfl

theorem content_delete_eq_none {K V : Type} [DecidableEq K] {f : K → Option V} {k k' : K} (hNone : f k = none) :
    on f (.delete k') k = none := by
  rw [on]
  split
  · rfl
  · exact hNone

theorem delete_written (hKnown : Known sbo) (tup : NamespacedWhatWhereFullKey) :
    Written env.resourceModes sbo (sbo.delete env tup).1 (.delete tup) := by
  rw [Organizer.delete]
  by_cases hMode : (env.resourceModes tup.2.1.1).toMailbox = true
  · rw [if_neg (by simp [hMode])]
    have hCluster : clusterWrites env.resourceModes (.delete tup : MapWrite _ WorkloadPartDetails) =
        [.delete (factorClusterWhatWhereFullKey (clusterKey tup))] := if_pos ⟨hMode, .inr rfl⟩
    by_cases hSource : sbo.perSourceCluster.has tup.1.cluster = true
    · rw [if_neg (by simp [hSource])]
      by_cases hNS : tup.2.1.2.1 ≠ ""
      · have hNsd : namespacedWrites env.resourceModes (.delete tup : MapWrite _ WorkloadPartDetails) =
            [.delete (factorNamespacedWhatWhereFullKey tup)] := if_pos ⟨hMode, hNS⟩
        rw [if_pos hNS]
        refine ⟨?_, ?_, rfl, ?_, ?_⟩
        · rw [hNsd]
          exact write_content env.ord _ _
        · rw [hCluster]
          exact write_content env.ord _ _
        · intro key hHas
          refine (congrFun (write_content env.ord _ _) key).trans ?_
          exact content_delete_eq_none (hKnown.namespaced key hHas)
        · intro key hHas
          refine (congrFun (write_content env.ord _ _) key).trans ?_
          exact content_delete_eq_none (hKnown.cluster key hHas)
      · rw [if_neg hNS]
        refine ⟨?_, ?_, rfl, hKnown.namespaced, ?_⟩
        · rw [namespacedWrites, if_neg fun h => hNS h.2]
          rfl
        · rw [hCluster]
          exact write_content env.ord _ _
        · intro key hHas
          refine (congrFun (write_content env.ord _ _) key).trans ?_
          exact content_delete_eq_none (hKnown.cluster key hHas)
    · -- nothing is held for a source that is not known, so there is nothing to delete
      rw [if_pos (by simpa using hSource)]
      rw [Bool.not_eq_true] at hSource
      refine ⟨?_, ?_, rfl, hKnown⟩
      · rw [namespacedWrites]
        split
        · exact (on_eq_self (hKnown.namespaced _ hSource)).symm
        · rfl
      · rw [hCluster]
        exact (on_eq_self (hKnown.cluster _ hSource)).symm
  · rw [if_pos (by simpa using hMode)]
    refine ⟨?_, ?_, rfl, hKnown⟩
    · rw [namespacedWrites, if_neg fun h => hMode h.1]
      rfl
    · rw [clusterWrites, if_neg fun h => hMode h.1]
      rfl

theorem write_written (hKnown : Known sbo) (w : MapWrite NamespacedWhatWhereFullKey WorkloadPartDetails) :
    Written env.resourceModes sbo (sbo.write env w).1 w := by
  cases w with
  | put tup val => exact put_written hKnown tup val
  | delete tup => exact delete_written hKnown tup

structure Streamed (modes : ResourceModes) (sbo sbo' : Organizer)
    (ws : List (MapWrite NamespacedWhatWhereFullKey WorkloadPartDetails)) : Prop where
  namespaced : sbo'.namespaced.whatWhereFull.content =
    MapWrite.replay sbo.namespaced.whatWhereFull.content (ws.flatMap (namespacedWrites modes))
  cluster : sbo'.cluster.whatWhereFull.content =
    MapWrite.replay sbo.cluster.whatWhereFull.content (ws.flatMap (clusterWrites modes))
  upsyncsFull : sbo'.upsyncsFull = sbo.upsyncsFull
  known : Known sbo'

theorem emitAll_streamed (hKnown : Known sbo) (ws : List (MapWrite NamespacedWhatWhereFullKey WorkloadPartDetails)) :
    Streamed env.resourceModes sbo (emitAll (Organizer.write env) sbo ws).1 ws := by
  induction ws generalizing sbo with
  | nil => exact ⟨rfl, rfl, rfl, hKnown⟩
  | cons w ws ih =>
    have hWritten : Written env.resourceModes sbo (sbo.write env w).1 w := write_written hKnown w
    have hRest := ih hWritten.known
    rw [emitAll]
    refine ⟨?_, ?_, hRest.upsyncsFull.trans hWritten.upsyncsFull, hRest.known⟩
    · rw [hRest.namespaced, hWritten.namespaced, flatMap_cons, replay_append]
    · rw [hRest.cluster, hWritten.cluster, flatMap_cons, replay_append]

structure HoldsJoin (modes : ResourceModes) (join : NamespacedWhatWhereFullKey → Option WorkloadPartDetails)
    (sbo : Organizer) :
    Prop where
  namespaced : sbo.namespaced.whatWhereFull.content = namespacedContent modes join
  cluster : sbo.cluster.whatWhereFull.content = clusterContent modes join

structure Settles (modes : ResourceModes) (join join' : NamespacedWhatWhereFullKey → Option WorkloadPartDetails)
    (ws : List (MapWrite NamespacedWhatWhereFullKey WorkloadPartDetails)) : Prop where
  accounts : join' = MapWrite.replay join ws
  final : ∀ w ∈ ws, w.after = join' w.key
  twins : ∀ w ∈ ws, w.after = none → (modes w.key.2.1.1).toMailbox = true → join' (twin w.key) = none

theorem HoldsJoin.namespaced_stream {modes : ResourceModes}
    {join join' : NamespacedWhatWhereFullKey → Option WorkloadPartDetails}
    (hSettles : Settles modes join join' ws) :
    replay (namespacedContent modes join) (ws.flatMap (namespacedWrites modes)) = namespacedContent modes join' := by
  funext key
  refine replay_eq_of_agree ?_ ?_
  · intro u hFlat hKey
    obtain ⟨w, hMem, hWrite⟩ := mem_flatMap.mp hFlat
    rw [namespacedWrites] at hWrite
    split at hWrite
    · rename_i hCond
      rw [mem_singleton] at hWrite
      subst hWrite
      rw [key_mapKey, factorNamespaced_eq_iff] at hKey
      rw [after_mapKey, hSettles.final w hMem, hKey, namespacedContent, if_pos]
      rwa [hKey] at hCond
    · cases hWrite
  · intro hNone
    rw [namespacedContent, namespacedContent]
    by_cases hCond : (modes key.1.1.groupResource).toMailbox = true ∧ key.1.2.2.1 ≠ ""
    · rw [if_pos hCond, if_pos hCond, hSettles.accounts, replay_of_forall_ne]
      intro w hMem hKey
      refine hNone (w.mapKey factorNamespacedWhatWhereFullKey) (mem_flatMap.mpr ⟨w, hMem, ?_⟩) ?_
      · rw [namespacedWrites, if_pos (by rw [hKey]; exact hCond)]
        exact mem_singleton_self _
      · rw [key_mapKey, factorNamespaced_eq_iff, hKey]
    · rw [if_neg hCond, if_neg hCond]

theorem HoldsJoin.cluster_stream {modes : ResourceModes}
    {join join' : NamespacedWhatWhereFullKey → Option WorkloadPartDetails}
    (hSettles : Settles modes join join' ws) :
    replay (clusterContent modes join) (ws.flatMap (clusterWrites modes)) = clusterContent modes join' := by
  funext key
  refine replay_eq_of_agree ?_ ?_
  · intro u hFlat hKey
    obtain ⟨w, hMem, hWrite⟩ := mem_flatMap.mp hFlat
    rw [clusterWrites] at hWrite
    split at hWrite
    · rename_i hCond
      rw [mem_singleton] at hWrite
      subst hWrite
      rw [key_mapKey] at hKey
      rw [after_mapKey, ← hKey, clusterContent, clusterWhole_factorCluster]
      refine Eq.trans ?_ (if_pos hCond.1).symm
      rcases hCond.2 with hNS | hDelete
      · rw [twin_of_cluster hNS, hSettles.final w hMem]
      · rw [hDelete, hSettles.twins w hMem hDelete hCond.1]
    · cases hWrite
  · intro hNone
    rw [clusterContent, clusterContent]
    by_cases hCond : (modes key.1.1.groupResource).toMailbox = true
    · rw [if_pos hCond, if_pos hCond, hSettles.accounts, replay_of_forall_ne]
      intro w hMem hKey
      refine hNone (w.mapKey fun tup => factorClusterWhatWhereFullKey (clusterKey tup))
        (mem_flatMap.mpr ⟨w, hMem, ?_⟩) ?_
      · rw [clusterWrites, if_pos (by rw [hKey]; exact ⟨hCond, .inl rfl⟩)]
        exact mem_singleton_self _
      · rw [key_mapKey, hKey, factorCluster_clusterWhole]
    · rw [if_neg hCond, if_neg hCond]

theorem HoldsJoin.stream {join join' : NamespacedWhatWhereFullKey → Option WorkloadPartDetails}
    (hHolds : HoldsJoin env.resourceModes join sbo) (hKnown : Known sbo)
    (hSettles : Settles env.resourceModes join join' ws) :
    HoldsJoin env.resourceModes join' (emitAll (Organizer.write env) sbo ws).1 := by
  have hStream : Streamed env.resourceModes sbo _ ws := emitAll_streamed hKnown ws
  constructor
  · rw [hStream.namespaced, hHolds.namespaced, HoldsJoin.namespaced_stream hSettles]
  · rw [hStream.cluster, hHolds.cluster, HoldsJoin.cluster_stream hSettles]

structure Follows (sbo : Organizer) (sections : Sections) : Prop where
  namespaced : Tracks sbo.namespaced.whatWhereFull.index sbo.namespaced.aggregate sections.namespaced
  nonNamespaced : Tracks sbo.cluster.whatWhereFull.index sbo.cluster.aggregate sections.nonNamespaced
  upsyncs : sections.upsyncs.get = outerKeys sbo.upsyncsFull

open Sections

theorem foldl_apply_namespaced (writes : List (ScopeWrite ExternalNamespacedName)) (sections : Sections) :
    (writes.map toNamespacedSections).foldl apply sections =
      { sections with namespaced := writes.foldl ScopeSections.apply sections.namespaced } := by
  induction writes generalizing sections with
  | nil => rfl
  | cons write writes ih => cases write <;> exact ih _

theorem foldl_apply_nonNamespaced (writes : List (ScopeWrite ExternalName)) (sections : Sections) :
    (writes.map toNonNamespacedSections).foldl apply sections =
      { sections with nonNamespaced := writes.foldl ScopeSections.apply sections.nonNamespaced } := by
  induction writes generalizing sections with
  | nil => rfl
  | cons write writes ih => cases write <;> exact ih _

theorem foldl_apply_upsyncs (writes : List (SetWrite (SinglePlacement × UpsyncSet))) (sections : Sections) :
    (writes.map SectionWrite.upsyncs).foldl apply sections =
      { sections with upsyncs := (writes.map SetWrite.asMapWrite).foldl GoMap.write sections.upsyncs } := by
  induction writes generalizing sections with
  | nil => rfl
  | cons write writes ih => exact ih _

section Follows

variable {sections : Sections} (hFollows : Follows sbo sections)

include hFollows

theorem Follows.writeNamespaced (w : MapWrite (NamespacedDistributionTuple × ObjectName) WorkloadPartDetails) :
    Follows (sbo.writeNamespaced env w).1 ((sbo.writeNamespaced env w).2.foldl apply sections) := by
  rw [Organizer.writeNamespaced, foldl_apply_namespaced]
  exact ⟨hFollows.namespaced.write env.ord w, hFollows.nonNamespaced, hFollows.upsyncs⟩

theorem Follows.writeCluster (w : MapWrite (NonNamespacedDistributionTuple × ObjectName) WorkloadPartDetails) :
    Follows (sbo.writeCluster env w).1 ((sbo.writeCluster env w).2.foldl apply sections) := by
  rw [Organizer.writeCluster, foldl_apply_nonNamespaced]
  exact ⟨hFollows.namespaced, hFollows.nonNamespaced.write env.ord w, hFollows.upsyncs⟩

variable (tup : NamespacedWhatWhereFullKey)

theorem Follows.put (val : WorkloadPartDetails) :
    Follows (sbo.put env tup val).1 ((sbo.put env tup val).2.foldl apply sections) := by
  have hKnowing : Follows { sbo with perSourceCluster := sbo.perSourceCluster.add tup.1.cluster } sections :=
    ⟨hFollows.namespaced, hFollows.nonNamespaced, hFollows.upsyncs⟩
  rw [Organizer.put]
  split
  · exact hFollows
  · split
    · exact hKnowing.writeNamespaced _
    · exact hKnowing.writeCluster _

theorem Follows.delete : Follows (sbo.delete env tup).1 ((sbo.delete env tup).2.foldl apply sections) := by
  rw [Organizer.delete]
  split
  · exact hFollows
  · split
    · exact hFollows
    · split
      · rw [foldl_append]
        exact (hFollows.writeNamespaced _).writeCluster _
      · exact hFollows.writeCluster _

theorem Follows.stream (ws : List (MapWrite NamespacedWhatWhereFullKey WorkloadPartDetails)) :
    Follows (emitAll (Organizer.write env) sbo ws).1
      ((emitAll (Organizer.write env) sbo ws).2.foldl apply sections) := by
  induction ws generalizing sbo sections with
  | nil => exact hFollows
  | cons w ws ih =>
    rw [emitAll, foldl_append]
    refine ih ?_
    cases w with
    | put tup val => exact hFollows.put tup val
    | delete tup => exact hFollows.delete tup

theorem Follows.receiveUpsyncChange (w : SetWrite (ExternalName × UpsyncSet × SinglePlacement)) :
    Follows (sbo.receiveUpsyncChange w).1 ((sbo.receiveUpsyncChange w).2.foldl apply sections) := by
  rw [Organizer.receiveUpsyncChange, foldl_apply_upsyncs]
  refine ⟨hFollows.namespaced, hFollows.nonNamespaced, ?_⟩
  rw [get_foldl_write, hFollows.upsyncs, setChangeProjector_accounts]
  rfl

theorem Follows.upsyncStream (ws : List (SetWrite (ExternalName × UpsyncSet × SinglePlacement))) :
    Follows (emitAll Organizer.receiveUpsyncChange sbo ws).1
      ((emitAll Organizer.receiveUpsyncChange sbo ws).2.foldl apply sections) := by
  induction ws generalizing sbo sections with
  | nil => exact hFollows
  | cons w ws ih =>
    rw [emitAll, foldl_append]
    exact ih (hFollows.receiveUpsyncChange w)

end Follows

def upsyncWhole (key : (SinglePlacement × UpsyncSet) × ExternalName) : ExternalName × UpsyncSet × SinglePlacement :=
  (key.2, key.1.2, key.1.1)

structure UpsyncStreamed (sbo sbo' : Organizer) (ws : List (SetWrite (ExternalName × UpsyncSet × SinglePlacement))) :
    Prop where
  upsyncsFull : ∀ whole, sbo'.upsyncsFull.content (factorUpsyncTuple whole) =
    SetWrite.replay (fun whole => sbo.upsyncsFull.content (factorUpsyncTuple whole)) ws whole
  namespaced : sbo'.namespaced = sbo.namespaced
  cluster : sbo'.cluster = sbo.cluster
  perSourceCluster : sbo'.perSourceCluster = sbo.perSourceCluster

theorem emitAll_upsyncStreamed (sbo : Organizer) (ws : List (SetWrite (ExternalName × UpsyncSet × SinglePlacement))) :
    UpsyncStreamed sbo (emitAll Organizer.receiveUpsyncChange sbo ws).1 ws := by
  induction ws generalizing sbo with
  | nil => exact ⟨fun _ => rfl, rfl, rfl, rfl⟩
  | cons w ws ih =>
    have hRest := ih (sbo.receiveUpsyncChange w).1
    have hOne : (fun whole => (sbo.receiveUpsyncChange w).1.upsyncsFull.content (factorUpsyncTuple whole)) =
        on (fun whole => sbo.upsyncsFull.content (factorUpsyncTuple whole)) w.asMapWrite := by
      funext whole
      have hInj : factorUpsyncTuple whole = factorUpsyncTuple w.elt ↔ whole = w.elt :=
        ⟨fun h => congrArg upsyncWhole h, congrArg factorUpsyncTuple⟩
      rw [Organizer.receiveUpsyncChange, setChangeProjector_fst, FactoredMap.content_write,
        SetWrite.asMapWrite_mapElt, on, on, key_mapKey, after_mapKey,
        SetWrite.key_asMapWrite]
      exact if_congr hInj rfl rfl
    rw [emitAll]
    refine ⟨fun whole => ?_, hRest.namespaced, hRest.cluster, hRest.perSourceCluster⟩
    rw [hRest.upsyncsFull, hOne]
    rfl

end KubeStellar.SetBinder
