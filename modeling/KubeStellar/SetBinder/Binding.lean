import KubeStellar.SetBinder.Tuples

/-! # Organized states of the set binder

The organizer holds the tuples of the joins and the sections follow it. Each input of a join keeps this, if no
cluster-scoped part stays whose namespaced twin goes.
-/

namespace KubeStellar.SetBinder

open List MapWrite DynamicJoin12VWith13

/-- The organizer has what the joins have, and the sections follow it. -/
structure Organized (modes : ResourceModes) (sb : State) (sections : Sections) : Prop where
  holds : HoldsJoin modes sb.downsyncJoin.join sb.organizer
  known : Known sb.organizer
  upsyncs : ∀ whole, sb.organizer.upsyncsFull.content (factorUpsyncTuple whole) = sb.upsyncJoin.keyed.join whole
  follows : Follows sb.organizer sections

variable {X Y Z V : Type} [DecidableEq X] [DecidableEq Y] [DecidableEq Z] (ord : RangeOrder)
  (dj : DynamicJoin12VWith13 X Y Z V) (ws : List (MapWrite (X × Y) V))

omit [DecidableEq Z] in
theorem emitAll_left_xzReln : (emitAll (left ord) dj ws).1.xzReln = dj.xzReln := by
  induction ws generalizing dj with
  | nil => rfl
  | cons w ws ih => rw [emitAll, ih, left_xzReln]

omit [DecidableEq Z] in
theorem emitAll_left_content : (emitAll (left ord) dj ws).1.xyvReln.content = replay dj.xyvReln.content ws :=
  emitAll_view (fun dj => dj.xyvReln.content) on (left_content ord) dj ws

theorem emitAll_left_accounts :
    (emitAll (left ord) dj ws).1.join =
      replay dj.join (emitAll (left ord) dj ws).2 :=
  emitAll_accounts DynamicJoin12VWith13.join on (left_accounts ord) dj ws

theorem mem_emitAll_left {dj : DynamicJoin12VWith13 X Y Z V} {ws : List (MapWrite (X × Y) V)}
    {u : MapWrite (X × Y × Z) V} (hMem : u ∈ (emitAll (left ord) dj ws).2) :
    ∃ w ∈ ws, ∃ z, dj.xzReln.get w.key.1 z = some () ∧ u.key = (w.key.1, w.key.2, z) ∧ u.after = w.after := by
  induction ws generalizing dj with
  | nil => cases hMem
  | cons w ws ih =>
    rw [emitAll, mem_append] at hMem
    rcases hMem with hNow | hLater
    · exact ⟨w, mem_cons_self, mem_left hNow⟩
    · obtain ⟨w', hMem, z, hRight, hKey, hAfter⟩ := ih hLater
      rw [left_xzReln] at hRight
      exact ⟨w', mem_cons_of_mem _ hMem, z, hRight, hKey, hAfter⟩

variable {env : Env} {sb : State} {sections : Sections}
  {ws : List (MapWrite (ExternalName × WorkloadPartID) WorkloadPartDetails)}

structure Departs (modes : ResourceModes) (sb : State)
    (ws : List (MapWrite (ExternalName × WorkloadPartID) WorkloadPartDetails)) : Prop where
  final : ∀ w ∈ ws, w.after = MapWrite.replay sb.downsyncJoin.xyvReln.content ws w.key
  twins : ∀ w ∈ ws, w.after = none → (modes w.key.2.1).toMailbox = true →
    ∀ z, sb.downsyncJoin.xzReln.get w.key.1 z = some () →
      MapWrite.replay sb.downsyncJoin.xyvReln.content ws (w.key.1, (w.key.2.1, "", w.key.2.2.2)) = none

theorem downsync_settles (hDeparts : Departs env.resourceModes sb ws) : Settles env.resourceModes sb.downsyncJoin.join
      (emitAll (left env.ord) sb.downsyncJoin ws).1.join
      (emitAll (left env.ord) sb.downsyncJoin ws).2 := by
  have hJoin : ∀ tup : NamespacedWhatWhereFullKey, (emitAll (left env.ord) sb.downsyncJoin ws).1.join tup =
      (sb.downsyncJoin.xzReln.get tup.1 tup.2.2).bind fun _ =>
        replay sb.downsyncJoin.xyvReln.content ws (tup.1, tup.2.1) := by
    intro tup
    rw [← emitAll_left_content env.ord sb.downsyncJoin ws, ← emitAll_left_xzReln env.ord sb.downsyncJoin ws]
    rfl
  refine ⟨emitAll_left_accounts env.ord sb.downsyncJoin ws, ?_, ?_⟩
  · intro u hMem
    obtain ⟨w, hMem, z, hRight, hKey, hAfter⟩ := mem_emitAll_left env.ord hMem
    rw [hAfter, hJoin, hKey, hRight, Option.bind_some]
    exact hDeparts.final w hMem
  · intro u hMem hNone hMode
    obtain ⟨w, hMem, z, hRight, hKey, hAfter⟩ := mem_emitAll_left env.ord hMem
    rw [hKey] at hMode ⊢
    rw [hJoin]
    show (sb.downsyncJoin.xzReln.get w.key.1 z).bind _ = none
    rw [hRight, Option.bind_some]
    exact hDeparts.twins w hMem (hAfter ▸ hNone) hMode z hRight

theorem Organized.downsyncJoinLeftInput (hOrg : Organized env.resourceModes sb sections)
    (hDeparts : Departs env.resourceModes sb ws) :
    Organized env.resourceModes (sb.downsyncJoinLeftInput env ws).1
      ((sb.downsyncJoinLeftInput env ws).2.foldl Sections.apply sections) := by
  have hStream : Streamed env.resourceModes sb.organizer _ _ :=
    emitAll_streamed hOrg.known (emitAll (left env.ord) sb.downsyncJoin ws).2
  refine ⟨hOrg.holds.stream hOrg.known (downsync_settles hDeparts), hStream.known, ?_, hOrg.follows.stream _⟩
  intro whole
  show FactoredMap.content _ _ = sb.upsyncJoin.keyed.join whole
  rw [← hOrg.upsyncs whole, ← hStream.upsyncsFull]
  rfl

theorem Organized.upsyncStream (hOrg : Organized env.resourceModes sb sections)
    {upsyncJoin : DynamicJoin12With13 ExternalName UpsyncSet SinglePlacement}
    {ws : List (SetWrite (ExternalName × UpsyncSet × SinglePlacement))}
    (hAccounts : upsyncJoin.keyed.join = SetWrite.replay sb.upsyncJoin.keyed.join ws) :
    Organized env.resourceModes { sb with
      upsyncJoin := upsyncJoin
      organizer := (emitAll Organizer.receiveUpsyncChange sb.organizer ws).1 }
      ((emitAll Organizer.receiveUpsyncChange sb.organizer ws).2.foldl Sections.apply sections) := by
  have hStream := emitAll_upsyncStreamed sb.organizer ws
  refine ⟨⟨?_, ?_⟩, ⟨?_, ?_⟩, ?_, hOrg.follows.upsyncStream ws⟩
  · rw [hStream.namespaced, hOrg.holds.namespaced]
  · rw [hStream.cluster, hOrg.holds.cluster]
  · rw [hStream.perSourceCluster, hStream.namespaced]
    exact hOrg.known.namespaced
  · rw [hStream.perSourceCluster, hStream.cluster]
    exact hOrg.known.cluster
  · intro whole
    rw [hStream.upsyncsFull, hAccounts, funext hOrg.upsyncs]

theorem replay_flatten (join : ExternalName × UpsyncSet × SinglePlacement → Option Unit)
    (ws : List (SetWrite (ExternalName × UpsyncSet × SinglePlacement))) :
    SetWrite.replay join ws = ws.foldl (fun join w => on join w.asMapWrite) join := by
  rw [SetWrite.replay, replay, foldl_map]

theorem Organized.upsyncJoinLeftInput (hOrg : Organized env.resourceModes sb sections)
    (ws : List (SetWrite (ExternalName × UpsyncSet))) :
    Organized env.resourceModes (sb.upsyncJoinLeftInput env ws).1
      ((sb.upsyncJoinLeftInput env ws).2.foldl Sections.apply sections) := by
  have hAccounts := emitAll_accounts (fun dj => dj.keyed.join)
    (fun join (w : SetWrite (ExternalName × UpsyncSet × SinglePlacement)) => on join w.asMapWrite)
    (fun dj w => (DynamicJoin12With13.left_accounts env.ord dj w).trans (replay_flatten _ _)) sb.upsyncJoin ws
  exact hOrg.upsyncStream (hAccounts.trans (replay_flatten _ _).symm)

theorem right_settles (w : SetWrite (ExternalName × SinglePlacement)) :
    Settles env.resourceModes sb.downsyncJoin.join (sb.downsyncJoin.right env.ord w).1.join
      (sb.downsyncJoin.right env.ord w).2 := by
  refine ⟨right_accounts env.ord sb.downsyncJoin w, ?_, ?_⟩
  · intro u hMem
    exact (mem_right hMem).2
  · -- a destination that goes takes all the parts with it, the twins included
    intro u hMem hNone _
    obtain ⟨hElt, hAfter⟩ := mem_right hMem
    rw [join_right] at hAfter ⊢
    have hKeys : (u.key.1, u.key.2.2) = w.asMapWrite.key := by rw [SetWrite.key_asMapWrite, hElt]
    show (on _ _ (u.key.1, u.key.2.2)).bind _ = none
    rw [on, if_pos hKeys]
    cases w with
    | add elt =>
      exfalso
      obtain ⟨val, hVal⟩ := after_of_mem_right_add hMem
      rw [hVal] at hNone
      cases hNone
    | remove elt => rfl

theorem Organized.bothJoinRightInput (hOrg : Organized env.resourceModes sb sections)
    (w : SetWrite (ExternalName × SinglePlacement)) :
    Organized env.resourceModes (sb.bothJoinRightInput env w).1
      ((sb.bothJoinRightInput env w).2.foldl Sections.apply sections) := by
  have hStream : Streamed env.resourceModes sb.organizer _ _ :=
    emitAll_streamed hOrg.known (sb.downsyncJoin.right env.ord w).2
  have hDownsync : Organized env.resourceModes { sb with
      downsyncJoin := (sb.downsyncJoin.right env.ord w).1
      organizer := (emitAll (Organizer.write env) sb.organizer (sb.downsyncJoin.right env.ord w).2).1 }
      ((emitAll (Organizer.write env) sb.organizer (sb.downsyncJoin.right env.ord w).2).2.foldl
        Sections.apply sections) := by
    refine ⟨hOrg.holds.stream hOrg.known (right_settles w), hStream.known, ?_, hOrg.follows.stream _⟩
    intro whole
    rw [← hOrg.upsyncs whole, ← hStream.upsyncsFull]
  rw [State.bothJoinRightInput, foldl_append]
  exact hDownsync.upsyncStream (DynamicJoin12With13.right_accounts env.ord sb.upsyncJoin w)

end KubeStellar.SetBinder
