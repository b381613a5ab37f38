import KubeStellar.Syncer.DownSyncer

/-! # Downsync of one object, and objects that are only created

`DownSyncer.SyncOne` of `pkg/syncer/syncers/downsyncer.go`. An object with the overwrite annotation "false" is copied
once; from then on only that annotation is written downstream, which panics if nothing is annotated there.
-/

namespace KubeStellar.Syncer

open List Option

variable {J : Type} {obj u d : Unstructured J}

namespace DownSyncer

variable (clients : Clients) (answers : Answers J) (resource : EdgeSyncConfigResource)

/-- What `SyncOne` prepares to be pushed. -/
def preparedOne (upstreamResource downstreamResource : Unstructured J) : Unstructured J :=
  setDownsyncAnnotation { upstreamResource with
    resourceVersion := downstreamResource.resourceVersion, uid := downstreamResource.uid }

def pushOne (prepared downstreamResource : Unstructured J) : Result J :=
  match computeUpdatedResource prepared (some downstreamResource) with
  | .error problem => ⟨[], some (.panic problem)⟩
  | .ok (updatedResource, noDiff) =>
    if noDiff then .done else issue answers [.update .downstream resource updatedResource]

def updateOne (upstreamResource downstreamResource : Unstructured J) : Result J :=
  pushOne answers resource (preparedOne upstreamResource downstreamResource) downstreamResource

/-- `SyncOne` from where it looks downstream. There is no object upstream if it has been deleted there. -/
def syncDownstream (upstreamResource : Option (Unstructured J)) : Result J :=
  match answers.get .downstream resource with
  | .error .notFound =>
    (match upstreamResource with
      | some obj => issue answers [.create .downstream resource <| setDownsyncAnnotation (original obj)]
      | none => .done).after [⟨.get .downstream resource, [], some .notFound⟩]
  | .error err => ⟨[⟨.get .downstream resource, [], some err⟩], some (.api err)⟩
  | .ok downstreamResource =>
    -- an object downstream is updated whether it is marked or not
    (match upstreamResource with
      | some obj => updateOne answers resource obj downstreamResource
      | none =>
        if hasDownsyncAnnotation downstreamResource then
          if checkDeletable downstreamResource then
            issue answers [.delete .downstream resource resource.name]
          else .done
        else .done).after [⟨.get .downstream resource, [downstreamResource], none⟩]

def syncOne : Result J :=
  match getClients clients resource with
  | none => ⟨[], some .notRegistered⟩
  | some _ =>
    match answers.get .upstream resource with
    | .ok obj => (syncDownstream answers resource (some obj)).after [⟨.get .upstream resource, [obj], none⟩]
    | .error .notFound =>
      (syncDownstream answers resource none).after [⟨.get .upstream resource, [], some .notFound⟩]
    | .error err => ⟨[⟨.get .upstream resource, [], some err⟩], some (.api err)⟩

def PanicFree (result : Result J) : Prop := ∀ problem, result.error ≠ some (.panic problem)

structure SameButOverwrite (downstreamResource obj : Unstructured J) : Prop where
  fields : { obj with annotations := downstreamResource.annotations } = downstreamResource
  annotations : ∀ key, key ≠ DownsyncOverwriteKey →
    (obj.annotations.getD ∅).get key = (downstreamResource.annotations.getD ∅).get key

theorem sameButOverwrite_annotate (obj : Unstructured J) (value : String) :
    SameButOverwrite obj (obj.annotate DownsyncOverwriteKey value) := by
  refine ⟨rfl, fun key hKey => ?_⟩
  rw [Unstructured.annotate, getD_some, GoMap.get_put, if_neg hKey]

theorem issue_panicFree (answers : Answers J) (calls : List (Call J)) : PanicFree (issue answers calls) := by
  intro problem
  induction calls with
  | nil => exact fun h => some_ne_none _ h.symm
  | cons call calls ih =>
    rw [issue]
    split
    · exact fun h => SyncError.noConfusion (Option.some.inj h)
    · exact ih

theorem not_frozen_of_bare (hBare : obj.annotations = none) : ¬ Frozen obj := by
  rw [Frozen, Unstructured.annotationFor, hBare]
  exact of_decide_eq_true rfl

theorem computeUpdatedResource_bare (hFrozen : Frozen u) (hBare : d.annotations = none) :
    computeUpdatedResource u (some d) = .error .nilMapWrite := by
  rw [computeUpdatedResource, isDownsyncOverwrite_eq, if_pos (by simp [hFrozen])]
  exact (if_neg (not_frozen_of_bare hBare)).trans (by rw [hBare])

theorem computeUpdatedResources_bare {down updated : List (Unstructured J)} (hu : u ∈ updated)
    (hFind : findWithObject u down = some d) (hFrozen : Frozen u) (hBare : d.annotations = none) :
    ∃ problem, computeUpdatedResources down updated = .error problem := by
  induction updated with
  | nil => cases hu
  | cons x updated ih =>
    rw [computeUpdatedResources]
    cases hHead : computeUpdatedResource x (findWithObject x down) with
    | error problem => exact ⟨problem, rfl⟩
    | ok computed =>
      rcases mem_cons.mp hu with rfl | hu
      · rw [hFind, computeUpdatedResource_bare hFrozen hBare] at hHead
        cases hHead
      · obtain ⟨problem, hRest⟩ := ih hu
        exact ⟨problem, by rw [hRest]; rfl⟩

theorem frozen_preparedOne_iff (u d : Unstructured J) : Frozen (preparedOne u d) ↔ Frozen u := by
  rw [Frozen, Frozen, preparedOne, setDownsyncAnnotation, annotationFor_setMark_of_ne (by decide)]
  rfl

theorem updateOne_of_annotated (hAnn : Frozen u → d.annotations ≠ none) :
    PanicFree (updateOne answers resource u d) ∧ (Frozen u → ∀ exchange ∈ (updateOne answers resource u d).calls,
      ∀ side r obj, exchange.call = .update side r obj → SameButOverwrite d obj) := by
  have hMarked := frozen_preparedOne_iff u d
  obtain ⟨updated, noDiff, hCompute, -, hPushed⟩ := computeUpdatedResource_spec (hAnn ∘ hMarked.mp)
  rw [updateOne, pushOne, hCompute]
  cases noDiff with
  | true => exact ⟨fun _ h => some_ne_none _ h.symm, fun _ exchange hMem => absurd hMem not_mem_nil⟩
  | false =>
    refine ⟨issue_panicFree answers _, fun hFrozen exchange hMem side r obj hUpdate => ?_⟩
    have hCall := (mem_of_issue answers hMem).1
    rw [hUpdate, mem_singleton, Call.update.injEq] at hCall
    rw [hCall.2.2, hPushed rfl, pushed, if_pos (hMarked.mpr hFrozen)]
    exact sameButOverwrite_annotate d "false"

theorem updateOne_bare (hFrozen : Frozen u) (hBare : d.annotations = none) :
    updateOne answers resource u d = ⟨[], some (.panic .nilMapWrite)⟩ := by
  rw [updateOne, pushOne, computeUpdatedResource_bare ((frozen_preparedOne_iff u d).mpr hFrozen) hBare]

/-- The two objects of a `SyncOne`. -/
def MeetOne (u d : Unstructured J) : Prop :=
  getClients clients resource ≠ none ∧ answers.get .upstream resource = .ok u ∧ answers.get .downstream resource = .ok d

/-- Two objects with the same key, in the two lists of a `SyncMany`. -/
def MeetMany (u d : Unstructured J) : Prop :=
  getClients clients resource ≠ none ∧ ∃ up down, answers.list .upstream resource = .ok up ∧
    answers.list .downstream resource = .ok down ∧ u ∈ up ∧ d ∈ down ∧ objectKey d = objectKey u

variable {clients answers resource}

theorem syncOne_of_meet (hMeet : MeetOne clients answers resource u d) :
    syncOne clients answers resource = (updateOne answers resource u d).after
      [⟨.get .upstream resource, [u], none⟩, ⟨.get .downstream resource, [d], none⟩] := by
  obtain ⟨hClients, hUp, hDown⟩ := hMeet
  obtain ⟨pair, hPair⟩ := ne_none_iff_exists'.mp hClients
  simp only [syncOne, hPair, hUp, syncDownstream, hDown]
  rfl

theorem syncOne_panicFree_of_not_meet (hNone : ∀ u d, ¬ MeetOne clients answers resource u d) :
    PanicFree (syncOne clients answers resource) := by
  have hDone : PanicFree (Result.done : Result J) := fun _ h => some_ne_none _ h.symm
  have hApi : ∀ (exchange : Exchange J) err, PanicFree ⟨[exchange], some (.api err)⟩ :=
    fun _ _ _ h => SyncError.noConfusion (Option.some.inj h)
  have hDown : ∀ up : Option (Unstructured J), (∀ u d, up = some u → answers.get .downstream resource ≠ .ok d) →
      PanicFree (syncDownstream answers resource up) := by
    intro up hMissing
    rw [syncDownstream.eq_def]
    cases hGet : answers.get .downstream resource with
    | error err =>
      cases err with
      | notFound =>
        cases up with
        | none => exact hDone
        | some obj => exact issue_panicFree answers _
      | _ => exact hApi _ _
    | ok d =>
      cases up with
      | some obj => exact absurd hGet (hMissing obj d rfl)
      | none =>
        dsimp only
        split
        · split
          · exact issue_panicFree answers _
          · exact hDone
        · exact hDone
  rw [syncOne]
  cases hPair : getClients clients resource with
  | none => exact fun _ h => SyncError.noConfusion (Option.some.inj h)
  | some pair =>
    cases hGet : answers.get .upstream resource with
    | ok obj =>
      refine hDown (some obj) fun u d hu hd => hNone u d ⟨by rw [hPair]; exact some_ne_none _, ?_, hd⟩
      rw [hGet, Option.some.inj hu]
    | error err =>
      cases err with
      | notFound => exact hDown none fun u d hu => absurd hu (some_ne_none u).symm
      | _ => exact hApi _ _

theorem listDestination_panicFree {srcList : List (Unstructured J)} {dest : Side}
    {writes : List (Unstructured J) → List (Unstructured J) → Except Panic (List (Call J))}
    (hWrites : ∀ destList, answers.list dest resource = .ok destList → ∃ calls, writes srcList destList = .ok calls) :
    PanicFree (listDestination answers resource dest writes srcList) := by
  rw [listDestination]
  cases hList : answers.list dest resource with
  | error err => exact fun _ h => SyncError.noConfusion (Option.some.inj h)
  | ok destList =>
    obtain ⟨calls, hCalls⟩ := hWrites destList hList
    simp only [hCalls]
    exact issue_panicFree answers calls

section Many

variable (hKeys : ∀ side objs, answers.list side resource = .ok objs → (objs.map objectKey).Nodup)
  (hAnn : ∀ u d, MeetMany clients answers resource u d → Frozen u → d.annotations ≠ none)

include hKeys hAnn

theorem syncMany_panicFree : PanicFree (syncMany clients answers resource) := by
  rw [syncMany, listAndWrite]
  cases hPair : getClients clients resource with
  | none => exact fun _ h => SyncError.noConfusion (Option.some.inj h)
  | some pair =>
    have hClients : getClients clients resource ≠ none := by
      rw [hPair]
      exact some_ne_none _
    cases hUp : answers.list .upstream resource with
    | ok up =>
      refine listDestination_panicFree fun down hDown => ?_
      obtain ⟨calls, hCalls, -⟩ := writes_spec resource (hKeys .downstream down hDown) fun u hu d hd hKey =>
        hAnn u d ⟨hClients, up, down, hUp, hDown, hu, hd, hKey⟩
      exact ⟨calls, hCalls⟩
    | error err =>
      cases err with
      | notFound => exact listDestination_panicFree fun down _ => ⟨_, rfl⟩
      | _ => exact fun _ h => SyncError.noConfusion (Option.some.inj h)

theorem syncMany_keeps (hMeet : MeetMany clients answers resource u d) (hFrozen : Frozen u) {exchange : Exchange J}
    (hMem : exchange ∈ (syncMany clients answers resource).calls) {side : Side} {r : EdgeSyncConfigResource}
    (hUpdate : exchange.call = .update side r obj) (hSame : objectKey obj = objectKey u) : SameButOverwrite d obj := by
  obtain ⟨hClients, up, down, hUp, hDown, hu, hd, hKey⟩ := hMeet
  obtain ⟨pair, hPair⟩ := ne_none_iff_exists'.mp hClients
  obtain ⟨calls, hCalls, hWritten⟩ := writes_spec resource (hKeys .downstream down hDown) fun u hu d hd hKey =>
    hAnn u d ⟨hClients, up, down, hUp, hDown, hu, hd, hKey⟩
  simp only [syncMany, listAndWrite, hPair, hUp, listDestination, hDown, hCalls, Result.after, cons_append,
    nil_append, mem_cons] at hMem
  have hCall : Call.update side r obj ∈ calls := by
    rcases hMem with rfl | rfl | hMem
    · cases hUpdate
    · cases hUpdate
    · exact hUpdate ▸ (mem_of_issue answers hMem).1
  obtain ⟨rfl, rfl⟩ := hWritten.only _ hCall side r (.inl ⟨obj, .inr rfl⟩)
  obtain ⟨u', hu', d', hd', hKey', -, rfl⟩ := (hWritten.updated obj).mp hCall
  -- the object is written in the place of the one that the list shows under its key
  have hUp' : objectKey u' = objectKey u := by
    refine Eq.trans ?_ hSame
    split
    · exact hKey'.symm
    · exact ((objectKey_setMark _ _).trans (objectKey_replacement u' d')).symm
  cases inj_on_of_nodup_map (hKeys .upstream up hUp) hu' hu hUp'
  cases inj_on_of_nodup_map (hKeys .downstream down hDown) hd' hd (hKey'.trans hKey.symm)
  rw [if_pos hFrozen]
  exact sameButOverwrite_annotate d "false"

end Many

theorem syncMany_bare (hKeys : ∀ objs, answers.list .downstream resource = .ok objs → (objs.map objectKey).Nodup)
    (hMeet : MeetMany clients answers resource u d) (hFrozen : Frozen u) (hBare : d.annotations = none) :
    ¬ PanicFree (syncMany clients answers resource) := by
  obtain ⟨hClients, up, down, hUp, hDown, hu, hd, hKey⟩ := hMeet
  obtain ⟨pair, hPair⟩ := ne_none_iff_exists'.mp hClients
  have hUpdated := (@mem_updatedResources_iff _ up down setDownsyncAnnotation hasDownsyncAnnotation _
    (hKeys down hDown)).mpr ⟨u, hu, d, hd, hKey, rfl⟩
  have hFind : findWithObject (replacement u d |> setDownsyncAnnotation) down = some d :=
    (findWithObject_eq_some_iff (hKeys down hDown)).mpr
      ⟨hd, by rw [hKey, setDownsyncAnnotation, objectKey_setMark, objectKey_replacement]⟩
  obtain ⟨problem, hProblem⟩ := computeUpdatedResources_bare hUpdated hFind ((frozen_marked_iff u d).mpr hFrozen) hBare
  have hWrites : writes resource up down = .error problem := by
    rw [writes, hProblem]
    rfl
  intro hFree
  refine hFree problem ?_
  simp only [syncMany, listAndWrite, hPair, hUp, listDestination, hDown, hWrites]
  rfl

/-- Neither entry point panics, and what is written for an object that is only created keeps what is downstream: so
long as no such object meets one without annotations. A list has one object under each key. -/
theorem downsync_safe_iff (clients : Clients) (answers : Answers J) (resource : EdgeSyncConfigResource)
    (hKeys : ∀ side objs, answers.list side resource = .ok objs → (objs.map objectKey).Nodup) :
    ((PanicFree (syncOne clients answers resource) ∧ ∀ u d, MeetOne clients answers resource u d → Frozen u →
        ∀ exchange ∈ (syncOne clients answers resource).calls, ∀ side r obj, exchange.call = .update side r obj →
          SameButOverwrite d obj) ∧
      (PanicFree (syncMany clients answers resource) ∧ ∀ u d, MeetMany clients answers resource u d → Frozen u →
        ∀ exchange ∈ (syncMany clients answers resource).calls, ∀ side r obj, exchange.call = .update side r obj →
          objectKey obj = objectKey u → SameButOverwrite d obj)) ↔
    ∀ u d, MeetOne clients answers resource u d ∨ MeetMany clients answers resource u d → Frozen u →
      d.annotations ≠ none := by
  constructor
  · rintro ⟨⟨hOne, -⟩, hMany, -⟩ u d (hMeet | hMeet) hFrozen hBare
    · refine hOne .nilMapWrite ?_
      rw [syncOne_of_meet hMeet, updateOne_bare answers resource hFrozen hBare]
      rfl
    · exact syncMany_bare (fun objs => hKeys .downstream objs) hMeet hFrozen hBare hMany
  · intro hAnnotated
    have hMany : ∀ u d, MeetMany clients answers resource u d → Frozen u → d.annotations ≠ none :=
      fun u d hMeet => hAnnotated u d (.inr hMeet)
    refine ⟨⟨?_, fun u d hMeet hFrozen exchange hMem side r obj hUpdate => ?_⟩, syncMany_panicFree hKeys hMany,
      fun u d hMeet hFrozen exchange hMem side r obj => syncMany_keeps hKeys hMany hMeet hFrozen hMem⟩
    · by_cases hMeet : ∃ u d, MeetOne clients answers resource u d
      · obtain ⟨u, d, hMeet⟩ := hMeet
        rw [syncOne_of_meet hMeet]
        exact (updateOne_of_annotated answers resource (hAnnotated u d (.inl hMeet))).1
      · exact syncOne_panicFree_of_not_meet fun u d h => hMeet ⟨u, d, h⟩
    · rw [syncOne_of_meet hMeet] at hMem
      have hKept := (updateOne_of_annotated answers resource (hAnnotated u d (.inl hMeet))).2 hFrozen
      simp only [Result.after, cons_append, nil_append, mem_cons] at hMem
      rcases hMem with rfl | rfl | hMem
      · cases hUpdate
      · cases hUpdate
      · exact hKept exchange hMem side r obj hUpdate

/-- One object upstream that is only created, and the one downstream. -/
def oneAnswers (downstreamResource : Unstructured Unit) : Answers Unit where
  get side _ := match side with
    | .upstream => .ok (configMap "settings" [(DownsyncOverwriteKey, "false")])
    | .downstream => .ok downstreamResource
  list side _ := match side with
    | .upstream => .ok [configMap "settings" [(DownsyncOverwriteKey, "false")]]
    | .downstream => .ok [downstreamResource]
  write _ := none

theorem oneAnswers_keys (obj : Unstructured Unit) (side : Side) (objs : List (Unstructured Unit))
    (hList : (oneAnswers obj).list side configMaps = .ok objs) : (objs.map objectKey).Nodup := by
  cases side <;>
  · cases hList
    exact nodup_singleton _

/-- The mark is written to the nil map of the annotations. -/
theorem downsync_panics_without_annotations :
    (syncOne configMapClients (oneAnswers { configMap "settings" [] with annotations := none }) configMaps).error =
        some (.panic .nilMapWrite) ∧
      (syncMany configMapClients (oneAnswers { configMap "settings" [] with annotations := none }) configMaps).error =
        some (.panic .nilMapWrite) := by
  decide

theorem downsync_safe_iff_annotated :
    PanicFree (syncOne configMapClients (oneAnswers (configMap "settings" [])) configMaps) ∧
      PanicFree (syncMany configMapClients (oneAnswers (configMap "settings" [])) configMaps) := by
  have hSafe := (downsync_safe_iff configMapClients (oneAnswers (configMap "settings" [])) configMaps
    (oneAnswers_keys _)).mpr (by
      rintro u d (⟨-, -, hDown⟩ | ⟨-, up, down, -, hDown, -, hd, -⟩) - <;> cases hDown
      · exact some_ne_none _
      · cases mem_singleton.mp hd
        exact some_ne_none _)
  exact ⟨hSafe.1.1, hSafe.2.1⟩

end DownSyncer

end KubeStellar.Syncer
