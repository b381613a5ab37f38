import KubeStellar.MailboxController.Controller

/-! # The index of the SyncTargets by mailbox name

The index function reads the relation between spaces and kube-bind ids when the informer stores a SyncTarget. One that
was added before the relation knew its space is under no name, and if the index skips updates that change nothing,
storing it again does not help: the old object then has the same name as the new one.
-/

namespace KubeStellar.MailboxController

open List GoMap

open Kbuser

variable {ix : Indexer} {reln : KubeBindSpaceRelation} {st : SyncTarget} {mbsName : String}

theorem eq_of_append_cons {α : Type} {x : α} {l l' r r' : List α} (hEq : l ++ x :: r = l' ++ x :: r') (hRight : x ∉ r)
    (hRight' : x ∉ r') : r = r' := by
  rcases append_eq_append_iff.mp hEq with ⟨mid, -, hMid⟩ | ⟨mid, -, hMid⟩
  · cases mid with
    | nil => exact (List.cons.inj hMid).2
    | cons y mid =>
      obtain ⟨-, rfl⟩ := List.cons.inj hMid
      exact absurd (mem_append_right _ mem_cons_self) hRight
  · cases mid with
    | nil => exact (List.cons.inj hMid).2.symm
    | cons y mid =>
      obtain ⟨-, rfl⟩ := List.cons.inj hMid
      exact absurd (mem_append_right _ mem_cons_self) hRight'

theorem UID.not_mem (uid : UID) : 'm' ∉ uid.text.toList :=
  fun hMem => absurd (all_eq_true.mp uid.chars 'm' hMem) (by decide)

theorem uid_of_mbsName {spaceID spaceID' : String} {uid uid' : UID}
    (hEq : spaceID ++ mbsNameSep ++ uid.text = spaceID' ++ mbsNameSep ++ uid'.text) : uid = uid' := by
  have hChars := congrArg String.toList hEq
  simp only [String.toList_append, show mbsNameSep.toList = ['-', 'm', 'b', '-'] from rfl] at hChars
  have hSplit : (spaceID.toList ++ ['-']) ++ 'm' :: 'b' :: '-' :: uid.text.toList =
      (spaceID'.toList ++ ['-']) ++ 'm' :: 'b' :: '-' :: uid'.text.toList := by simpa using hChars
  have hText := eq_of_append_cons hSplit (by simp [uid.not_mem]) (by simp [uid'.not_mem])
  obtain ⟨text, chars⟩ := uid
  obtain ⟨text', chars'⟩ := uid'
  have hSame : text = text' := String.toList_inj.mp (List.cons.inj (List.cons.inj hText).2).2
  subst hSame
  rfl

theorem mbsNameOfSynctarget_ok (hName : mbsNameOfSynctarget reln st = .ok mbsName) :
    ∃ spaceID, mbsName = spaceID ++ mbsNameSep ++ st.uid.text := by
  unfold mbsNameOfSynctarget at hName
  split at hName
  · dsimp only at hName
    split at hName
    · cases hName
    · exact ⟨_, (Except.ok.inj hName).symm⟩
  · cases hName
  · cases hName

theorem mem_mbsNameOfObj_iff : mbsName ∈ mbsNameOfObj reln st ↔ mbsNameOfSynctarget reln st = .ok mbsName := by
  unfold mbsNameOfObj
  split
  · rename_i name hName
    rw [hName, mem_singleton, Except.ok.injEq]
    exact eq_comm
  · rename_i err hName
    rw [hName]
    exact ⟨fun hMem => absurd hMem not_mem_nil, fun hEq => by cases hEq⟩

/-- The name under which the event stores or removes a SyncTarget. -/
def Event.touched : Event → Option String
  | .storeSyncTarget st => some st.objectMeta.name
  | .removeSyncTarget name _ => some name
  | .storeSpace _ | .removeSpace _ _ | .relation _ | .process _ _ _ => none

def Event.store (ctl : MbCtl ix) : Event → GoMap String SyncTarget
  | .storeSyncTarget st => ctl.syncTargets.put st.objectMeta.name st
  | .removeSyncTarget name _ => ctl.syncTargets.delete name
  | .storeSpace _ | .removeSpace _ _ | .relation _ | .process _ _ _ => ctl.syncTargets

variable {name : String} {ctl ctl' : MbCtl ix} {events : List Event} (event : Event)

namespace MbCtl

theorem add_eq (ctl : MbCtl ix) (ref : Ref) : ctl.add ref = { ctl with queue := (ctl.add ref).queue } := by
  unfold add
  split <;> rfl

theorem enqueue_eq (ctl : MbCtl ix) (obj : Obj) : ctl.enqueue obj = { ctl with queue := (ctl.enqueue obj).queue } := by
  cases obj with
  | space space => exact add_eq ctl _
  | syncTarget st => exact add_eq ctl _
  | deletedFinalStateUnknown key obj => rfl

theorem foldl_add_eq (ctl : MbCtl ix) (refs : List Ref) :
    refs.foldl add ctl = { ctl with queue := (refs.foldl add ctl).queue } := by
  induction refs generalizing ctl with
  | nil => rfl
  | cons ref refs ih =>
    rw [foldl_cons, ih, add_eq]

theorem sync1_eq (ctl : MbCtl ix) (ord : RangeOrder) (api : Api) (ref : Ref) :
    ctl.sync1 ord api ref = { ctl with queue := (ctl.sync1 ord api ref).queue } := by
  unfold sync1
  dsimp only
  split
  · rw [add_eq, foldl_add_eq]
  · rw [foldl_add_eq]

theorem step_syncTargets (ctl : MbCtl ix) (event : Event) : (ctl.step event).syncTargets = event.store ctl := by
  cases event with
  | storeSyncTarget st => rw [step, enqueue_eq, Event.store]
  | removeSyncTarget name told =>
    rw [step, Event.store]
    cases hGet : ctl.syncTargets.get name with
    | none => exact (delete_of_not_has (by rw [GoMap.has, hGet]; rfl)).symm
    | some st =>
      dsimp only
      rw [enqueue_eq]
  | storeSpace space => rw [step, enqueue_eq, Event.store]
  | removeSpace name told =>
    rw [step, Event.store]
    cases ctl.spaces.get name with
    | none => rfl
    | some space =>
      dsimp only
      rw [enqueue_eq]
  | relation event => rfl
  | process ref ord api =>
    rw [step, Event.store]
    split
    · rw [sync1_eq]
    · rfl

theorem get_step_of_not_touched (ctl : MbCtl ix) {event : Event} (hNot : event.touched ≠ some name) :
    (ctl.step event).syncTargets.get name = ctl.syncTargets.get name := by
  rw [step_syncTargets]
  cases event with
  | storeSyncTarget st => exact (get_put _ _ _ _).trans (if_neg fun hEq => hNot (congrArg some hEq.symm))
  | removeSyncTarget name' told => exact (get_delete _ _ _).trans (if_neg fun hEq => hNot (congrArg some hEq.symm))
  | storeSpace space => rfl
  | removeSpace name' told => rfl
  | relation event => rfl
  | process ref ord api => rfl

/-- The relation now gives the name to the SyncTarget in the store. -/
def Named (ctl : MbCtl ix) (name mbsName : String) : Prop :=
  ∃ st, ctl.syncTargets.get name = some st ∧ mbsNameOfSynctarget ctl.kbSpaceRelation st = .ok mbsName

/-- The event puts the SyncTarget of that name under `mbsName`. -/
def Indexes (ctl : MbCtl ix) (name mbsName : String) (event : Event) : Prop :=
  ∃ st, event = .storeSyncTarget st ∧ st.objectMeta.name = name ∧
    mbsNameOfSynctarget ctl.kbSpaceRelation st = .ok mbsName ∧ ¬ (ix.skipsSame = true ∧ ctl.Named name mbsName)

/-- The event takes the SyncTarget of that name from under `mbsName`, which takes a relation that gives this to the old
object. -/
def Unindexes (ctl : MbCtl ix) (name mbsName : String) (event : Event) : Prop :=
  event.touched = some name ∧ ctl.Named name mbsName ∧
    ∀ st, event = .storeSyncTarget st → mbsNameOfSynctarget ctl.kbSpaceRelation st ≠ .ok mbsName

theorem mem_indexValues_iff (ctl : MbCtl ix) (obj : Option SyncTarget) :
    mbsName ∈ ctl.indexValues obj ↔ ∃ st, obj = some st ∧ mbsNameOfSynctarget ctl.kbSpaceRelation st = .ok mbsName := by
  cases obj with
  | none => simp [indexValues]
  | some st => simp [indexValues, mem_mbsNameOfObj_iff]

theorem indexValues_of_mem {obj : Option SyncTarget} (hMem : mbsName ∈ ctl.indexValues obj) :
    ctl.indexValues obj = [mbsName] := by
  obtain ⟨st, rfl, hName⟩ := (ctl.mem_indexValues_iff obj).mp hMem
  simp [indexValues, mbsNameOfObj, hName]

theorem has_updateIndices_iff (hLawful : ix.Lawful) (ctl : MbCtl ix) (obj : Option SyncTarget) (name mbsName : String) :
    (ix.keys (ctl.updateIndices obj name) mbsName).has name = true ↔
      (mbsName ∈ ctl.indexValues obj ∧ ¬ (ix.skipsSame = true ∧ ctl.Named name mbsName)) ∨
        ¬ (ctl.Named name mbsName ∧ mbsName ∉ ctl.indexValues obj) ∧ (ix.keys ctl.index mbsName).has name = true := by
  have hNamed : mbsName ∈ ctl.indexValues (ctl.syncTargets.get name) ↔ ctl.Named name mbsName :=
    mem_indexValues_iff ctl _
  rw [updateIndices, ← hNamed]
  by_cases hSkips : ix.Skips (ctl.indexValues (ctl.syncTargets.get name)) (ctl.indexValues obj)
  · rw [hLawful.skipped _ _ _ _ _ hSkips]
    obtain ⟨hSame, value, hOld, hNew⟩ := hSkips
    simp [hOld, hNew, hSame]
  · rw [hLawful.updated _ _ _ _ _ hSkips]
    have hBoth : ix.skipsSame = true → mbsName ∈ ctl.indexValues (ctl.syncTargets.get name) →
        mbsName ∉ ctl.indexValues obj :=
      fun hSame hOld hNew => hSkips ⟨hSame, mbsName, indexValues_of_mem hOld, indexValues_of_mem hNew⟩
    tauto

/-- What an event does to the index. -/
theorem has_index_step_iff (hLawful : ix.Lawful) (name mbsName : String) (ctl : MbCtl ix) (event : Event) :
    (ix.keys (ctl.step event).index mbsName).has name = true ↔
      ctl.Indexes name mbsName event ∨
        ¬ ctl.Unindexes name mbsName event ∧ (ix.keys ctl.index mbsName).has name = true := by
  have hUntouched : event.touched ≠ some name → (ix.keys (ctl.step event).index mbsName).has name =
      (ix.keys ctl.index mbsName).has name → ((ix.keys (ctl.step event).index mbsName).has name = true ↔
        ctl.Indexes name mbsName event ∨
          ¬ ctl.Unindexes name mbsName event ∧ (ix.keys ctl.index mbsName).has name = true) := by
    intro hNot hSame
    have hIndexes : ¬ ctl.Indexes name mbsName event := by
      rintro ⟨st, rfl, rfl, -⟩
      exact hNot rfl
    rw [hSame, or_iff_right hIndexes, and_iff_right fun hUnindexes => hNot hUnindexes.1]
  cases event with
  | storeSyncTarget st =>
    have hIndex : (ctl.step (.storeSyncTarget st)).index = ctl.updateIndices (some st) st.objectMeta.name := by
      rw [step, enqueue_eq]
    by_cases hName : st.objectMeta.name = name
    · subst hName
      rw [hIndex, has_updateIndices_iff hLawful, mem_indexValues_iff]
      simp [Indexes, Unindexes, Event.touched]
    · exact hUntouched (fun hEq => hName (Option.some.inj hEq))
        (by rw [hIndex, updateIndices, hLawful.other _ _ _ _ _ _ (Ne.symm hName)])
  | removeSyncTarget name' told =>
    cases hGet : ctl.syncTargets.get name' with
    | none =>
      have hStep : ctl.step (.removeSyncTarget name' told) = ctl := by rw [step, hGet]
      have hIndexes : ¬ ctl.Indexes name mbsName (.removeSyncTarget name' told) := fun ⟨_, hEq, _⟩ => by cases hEq
      have hUnindexes : ¬ ctl.Unindexes name mbsName (.removeSyncTarget name' told) := by
        rintro ⟨hTouched, ⟨st, hStored, -⟩, -⟩
        obtain rfl := Option.some.inj hTouched
        exact absurd (hGet.symm.trans hStored) (by simp)
      rw [hStep, or_iff_right hIndexes, and_iff_right hUnindexes]
    | some st =>
      have hIndex : (ctl.step (.removeSyncTarget name' told)).index = ctl.updateIndices none name' := by
        rw [step, hGet]
        dsimp only
        rw [enqueue_eq]
      by_cases hName : name' = name
      · subst hName
        rw [hIndex, has_updateIndices_iff hLawful]
        simp [Indexes, Unindexes, Event.touched, indexValues]
      · exact hUntouched (fun hEq => hName (Option.some.inj hEq))
          (by rw [hIndex, updateIndices, hLawful.other _ _ _ _ _ _ (Ne.symm hName)])
  | storeSpace space =>
    refine hUntouched (by simp [Event.touched]) ?_
    rw [step, enqueue_eq]
  | removeSpace name' told =>
    refine hUntouched (by simp [Event.touched]) ?_
    rw [step]
    cases ctl.spaces.get name' with
    | none => rfl
    | some space =>
      dsimp only
      rw [enqueue_eq]
  | relation event => exact hUntouched (by simp [Event.touched]) rfl
  | process ref ord api =>
    refine hUntouched (by simp [Event.touched]) ?_
    rw [step]
    split
    · rw [sync1_eq]
    · rfl

/-- No other SyncTarget in the store or in its index has the UID of one that is being stored: UIDs are not used
twice. -/
def FreshUID (ctl : MbCtl ix) (event : Event) : Prop :=
  ∀ st, event = .storeSyncTarget st →
    (∀ name st', ctl.syncTargets.get name = some st' → name ≠ st.objectMeta.name → st'.uid ≠ st.uid) ∧
      ∀ spaceID name, (ix.keys ctl.index (spaceID ++ mbsNameSep ++ st.uid.text)).has name = true →
        name = st.objectMeta.name

structure Sound (ctl : MbCtl ix) : Prop where
  name_eq : ∀ {name st}, ctl.syncTargets.get name = some st → st.objectMeta.name = name
  uid_inj : ∀ {name name' st st'}, ctl.syncTargets.get name = some st → ctl.syncTargets.get name' = some st' →
    st.uid = st'.uid → name = name'
  index_eq : ∀ {name st spaceID name'}, ctl.syncTargets.get name = some st →
    (ix.keys ctl.index (spaceID ++ mbsNameSep ++ st.uid.text)).has name' = true → name' = name

theorem sound_new (spaceProvider : String) : (new ix spaceProvider).Sound where
  name_eq hGet := absurd hGet (by simp [new])
  uid_inj hGet := absurd hGet (by simp [new])
  index_eq hGet := absurd hGet (by simp [new])

variable (hLawful : ix.Lawful) (hSound : ctl.Sound)

include hLawful hSound

theorem Sound.of_store {event : Event} (hStore : ∀ name st, (ctl.step event).syncTargets.get name = some st →
      ctl.syncTargets.get name = some st) (hEvent : ∀ st, event ≠ .storeSyncTarget st) : (ctl.step event).Sound where
  name_eq hGet := hSound.name_eq (hStore _ _ hGet)
  uid_inj hGet hGet' := hSound.uid_inj (hStore _ _ hGet) (hStore _ _ hGet')
  index_eq hGet hHas := by
    rcases (has_index_step_iff hLawful _ _ ctl event).mp hHas with ⟨st, hEq, -⟩ | ⟨-, hOld⟩
    · exact absurd hEq (hEvent st)
    · exact hSound.index_eq (hStore _ _ hGet) hOld

theorem Sound.storeSyncTarget (hFresh : ctl.FreshUID (.storeSyncTarget st)) :
    (ctl.step (.storeSyncTarget st)).Sound := by
  obtain ⟨hOthers, hIndex⟩ := hFresh st rfl
  have hGet : ∀ name st', (ctl.step (.storeSyncTarget st)).syncTargets.get name = some st' →
      name = st.objectMeta.name ∧ st' = st ∨ name ≠ st.objectMeta.name ∧ ctl.syncTargets.get name = some st' := by
    intro name st' hGet
    rw [step_syncTargets, Event.store, get_put] at hGet
    split at hGet
    · rename_i hName
      exact .inl ⟨hName, (Option.some.inj hGet).symm⟩
    · rename_i hName
      exact .inr ⟨hName, hGet⟩
  constructor
  · intro name st' hStored
    rcases hGet _ _ hStored with ⟨rfl, rfl⟩ | ⟨-, hOld⟩
    · rfl
    · exact hSound.name_eq hOld
  · intro name name' st₁ st₂ hStored hStored' hUID
    rcases hGet _ _ hStored with ⟨rfl, rfl⟩ | ⟨hName, hOld⟩
    · rcases hGet _ _ hStored' with ⟨rfl, rfl⟩ | ⟨hName', hOld'⟩
      · rfl
      · exact absurd hUID.symm (hOthers _ _ hOld' hName')
    · rcases hGet _ _ hStored' with ⟨rfl, rfl⟩ | ⟨hName', hOld'⟩
      · exact absurd hUID (hOthers _ _ hOld hName)
      · exact hSound.uid_inj hOld hOld' hUID
  · intro name st' spaceID name' hStored hHas
    rcases (has_index_step_iff hLawful _ _ ctl _).mp hHas with ⟨_, hEq, rfl, hName, -⟩ | ⟨-, hWas⟩
    · cases hEq
      obtain ⟨spaceID', hEq⟩ := mbsNameOfSynctarget_ok hName
      rcases hGet _ _ hStored with ⟨rfl, rfl⟩ | ⟨hNe, hOld⟩
      · rfl
      · exact absurd (uid_of_mbsName hEq) (hOthers _ _ hOld hNe)
    · rcases hGet _ _ hStored with ⟨rfl, rfl⟩ | ⟨-, hOld⟩
      · exact hIndex _ _ hWas
      · exact hSound.index_eq hOld hWas

theorem Sound.step (hFresh : ctl.FreshUID event) : (ctl.step event).Sound := by
  have hStore := ctl.step_syncTargets event
  have hSame : (∀ st, event ≠ .storeSyncTarget st) → (ctl.step event).syncTargets = ctl.syncTargets →
      (ctl.step event).Sound := fun hEvent hSame => hSound.of_store hLawful (fun _ _ hGet => hSame ▸ hGet) hEvent
  cases event with
  | storeSyncTarget st => exact hSound.storeSyncTarget hLawful hFresh
  | removeSyncTarget name told =>
    refine hSound.of_store hLawful (fun name' st hGet => ?_) (by simp)
    rw [hStore] at hGet
    exact (get_of_get_delete hGet).2
  | storeSpace space => exact hSame (by simp) hStore
  | removeSpace name told => exact hSame (by simp) hStore
  | relation event => exact hSame (by simp) hStore
  | process ref ord api => exact hSame (by simp) hStore

theorem Sound.run (hFresh : Run.Guarded MbCtl.step FreshUID ctl events) : (ctl.run events).Sound :=
  Run.invariant (fun _ event hSound hFresh => hSound.step event hLawful hFresh) hSound hFresh

omit hLawful

/-- The index has nothing but the SyncTarget itself under a name that the relation gives to it. -/
theorem Sound.mem_byIndex_iff (hStored : ctl.syncTargets.get name = some st)
    (hName : mbsNameOfSynctarget reln st = .ok mbsName) (ord : RangeOrder) (obj : Option SyncTarget) :
    obj ∈ ctl.byIndex ord mbsName ↔ obj = some st ∧ (ix.keys ctl.index mbsName).has name = true := by
  obtain ⟨spaceID, rfl⟩ := mbsNameOfSynctarget_ok hName
  constructor
  · intro hMem
    obtain ⟨⟨name', ⟨⟩⟩, hVisit, rfl⟩ := mem_map.mp hMem
    have hHas := (MapSet.has_iff_get _ _).mpr ((ord.mem_visit_iff _ _ _).mp hVisit)
    obtain rfl := hSound.index_eq hStored hHas
    exact ⟨hStored, hHas⟩
  · rintro ⟨rfl, hHas⟩
    exact mem_map.mpr ⟨(name, ()), (ord.mem_visit_iff _ _ _).mpr ((MapSet.has_iff_get _ _).mp hHas), hStored⟩

end MbCtl

/-- Sync deleted the space, or did nothing, because it found no SyncTarget. -/
def Verdict.absent : Verdict → Bool
  | nothingToDo | deletedUnwanted | failedToDelete => true
  | _ => false

namespace MbCtl

theorem syncUnwanted_absent (ctl : MbCtl ix) (api : Api) (mbsName : String) :
    (ctl.syncUnwanted api mbsName).verdict.absent = true := by
  unfold syncUnwanted
  split
  · rfl
  · split
    · rfl
    · split <;> rfl

/-- What the processing of a wanted Space never does. -/
structure Keeps (outcome : Outcome) : Prop where
  not_absent : outcome.verdict.absent = false
  recognised : outcome.verdict ≠ .notMailboxName
  added : outcome.added = []
  kept : ∀ name uid, .deleteSpace name uid ∉ outcome.calls

theorem bindResources_keeps (api : Api) (spacename : String) (resources : List String) :
    Keeps (bindResources api spacename resources) := by
  induction resources with
  | nil => exact ⟨rfl, Verdict.noConfusion, rfl, fun _ _ => not_mem_nil⟩
  | cons resource resources ih =>
    rw [bindResources]
    split
    · exact { ih with
        kept := fun name uid hMem => (mem_cons.mp hMem).elim (fun hEq => by cases hEq) (ih.kept name uid) }
    · exact ⟨rfl, Verdict.noConfusion, rfl, fun _ _ hMem => by cases mem_singleton.mp hMem⟩

theorem syncWanted_keeps (ctl : MbCtl ix) (api : Api) (mbsName : String) (st : SyncTarget) :
    Keeps (ctl.syncWanted api mbsName st) := by
  unfold syncWanted
  split
  · split
    · dsimp only
      split <;> exact ⟨rfl, Verdict.noConfusion, rfl, fun _ _ hMem => by cases mem_singleton.mp hMem⟩
    · exact ⟨rfl, Verdict.noConfusion, rfl, fun _ _ => not_mem_nil⟩
  · split
    · exact ⟨rfl, Verdict.noConfusion, rfl, fun _ _ => not_mem_nil⟩
    · split
      · exact ⟨rfl, Verdict.noConfusion, rfl, fun _ _ => not_mem_nil⟩
      · exact bindResources_keeps api _ _

theorem Sound.sync_not_absent_iff {ctl : MbCtl ix} (hSound : ctl.Sound) {name : String} {st : SyncTarget}
    (hStored : ctl.syncTargets.get name = some st) (hLive : st.deleting = false) {mbsName : String}
    {reln : KubeBindSpaceRelation} (hName : mbsNameOfSynctarget reln st = .ok mbsName) (ord : RangeOrder) (api : Api) :
    (ctl.sync ord api (.space mbsName)).verdict.absent = false ↔
      (Strings.split mbsName mbsNameSep).length ≠ 2 ∨ (ix.keys ctl.index mbsName).has name = true := by
  have hIndex := hSound.mem_byIndex_iff hStored hName ord
  rw [sync, syncSpace]
  split
  · rename_i hParts
    exact ⟨fun _ => .inl hParts, fun _ => rfl⟩
  · rename_i hParts
    rw [or_iff_right hParts]
    cases hHead : (ctl.byIndex ord mbsName).head? with
    | none =>
      rw [syncUnwanted_absent]
      refine ⟨fun hEq => (by cases hEq), fun hHas => ?_⟩
      have hMem := (hIndex _).mpr ⟨rfl, hHas⟩
      rw [List.head?_eq_none_iff.mp hHead] at hMem
      exact absurd hMem List.not_mem_nil
    | some obj =>
      obtain ⟨rfl, hHas⟩ := (hIndex obj).mp (List.mem_of_head? hHead)
      dsimp only
      rw [hLive, if_neg Bool.false_ne_true, (ctl.syncWanted_keeps api mbsName _).not_absent]
      exact iff_of_true rfl hHas

end MbCtl

/-- In every interleaving, sync does not take a live SyncTarget for absent exactly if an event put it under its mailbox
name in the index and none took it from there since. -/
theorem live_syncTarget_not_absent_iff (hLawful : ix.Lawful) (spaceProvider : String) (events : List Event)
    (hUIDs : Run.Guarded MbCtl.step MbCtl.FreshUID (MbCtl.new ix spaceProvider) events) (name : String)
    (st : SyncTarget) (hStored : ((MbCtl.new ix spaceProvider).run events).syncTargets.get name = some st)
    (hLive : st.deleting = false) (mbsName : String) (hName : mbsNameOfSynctarget
      ((MbCtl.new ix spaceProvider).run events).kbSpaceRelation st = .ok mbsName) (ord : RangeOrder) (api : Api) :
    (((MbCtl.new ix spaceProvider).run events).sync ord api (.space mbsName)).verdict.absent = false ↔
      (Strings.split mbsName mbsNameSep).length ≠ 2 ∨
        Run.Since (fun (ctl, event) => ctl.Indexes name mbsName event)
          (fun (ctl, event) => ctl.Unindexes name mbsName event)
          (Run.trace MbCtl.step (.new ix spaceProvider) events) := by
  have hSound := (MbCtl.sound_new spaceProvider).run hLawful hUIDs
  rw [hSound.sync_not_absent_iff hStored hLive hName ord api, MbCtl.run]
  have hNew : ¬ (ix.keys (MbCtl.new ix spaceProvider).index mbsName).has name = true := by simp [MbCtl.new, hLawful.new]
  exact or_congr_right (Run.iff_since_trace (fun ctl : MbCtl ix => (ix.keys ctl.index mbsName).has name = true)
    (MbCtl.has_index_step_iff hLawful name mbsName) hNew events)

/-- The index of client-go 0.24. -/
def threadSafeMap : Indexer where
  Index := String → MapSet String
  new := fun _ => ∅
  updateIndices index oldIndexValues indexValues key := fun value =>
    if indexValues.length = 1 ∧ oldIndexValues = indexValues then index value
    else
      let keys := if value ∈ oldIndexValues then (index value).delete key else index value
      if value ∈ indexValues then MapSet.add keys key else keys
  keys index := index
  skipsSame := true

theorem threadSafeMap_lawful : threadSafeMap.Lawful where
  new _ _ := rfl
  other index oldValues values key value other hNe := by
    by_cases hSame : values.length = 1 ∧ oldValues = values
    · simp only [threadSafeMap, if_pos hSame]
    · simp only [threadSafeMap, if_neg hSame]
      split <;> split <;> simp [GoMap.has, MapSet.add, hNe]
  skipped index oldValues values key value hSkips := by
    obtain ⟨-, value', rfl, rfl⟩ := hSkips
    simp [threadSafeMap]
  updated index oldValues values key value hSkips := by
    have hNot : ¬ (values.length = 1 ∧ oldValues = values) := by
      rintro ⟨hLength, rfl⟩
      obtain ⟨value', rfl⟩ := length_eq_one_iff.mp hLength
      exact hSkips ⟨rfl, value', rfl, rfl⟩
    simp only [threadSafeMap, if_neg hNot]
    split <;> split <;> simp_all [GoMap.has, MapSet.add]

def edgeTarget : SyncTarget :=
  ⟨⟨"kb1-edge", "", (∅ : GoMap String String).put clusterNamespaceAnnotation "kb1", ∅⟩, ⟨"12ab", by decide⟩, false⟩

def edgeMailbox : Space := ⟨"imw1-mb-12ab", "34cd", false, true⟩

def edgeRelation : Event := .relation (.add (mappingOf "imw1" "kb1"))

def succeeds : Api := ⟨fun _ => .ok (), fun _ => .ok (), fun _ _ => true⟩

theorem edgeTarget_guarded (hEvent : event.touched = none) :
    Run.Guarded MbCtl.step MbCtl.FreshUID (.new threadSafeMap "provider") [event, .storeSyncTarget edgeTarget] := by
  refine ⟨fun st hEq => ?_, fun st _ => ⟨fun name st' hGet => ?_, fun spaceID name hHas => ?_⟩, trivial⟩
  · subst hEq
    cases hEvent
  · rw [MbCtl.get_step_of_not_touched _ (by simp [hEvent])] at hGet
    exact absurd hGet (by simp [MbCtl.new])
  · rcases (MbCtl.has_index_step_iff threadSafeMap_lawful _ _ _ _).mp hHas with ⟨st', rfl, -⟩ | ⟨-, hHas⟩
    · cases hEvent
    · cases hHas

theorem live_syncTarget_not_absent_iff_edge :
    Run.Guarded MbCtl.step MbCtl.FreshUID (.new threadSafeMap "provider") [edgeRelation, .storeSyncTarget edgeTarget] ∧
      ((((MbCtl.new threadSafeMap "provider").run [edgeRelation, .storeSyncTarget edgeTarget]).sync .insertion succeeds
          (.space "imw1-mb-12ab")).verdict.absent = false ↔
        (Strings.split "imw1-mb-12ab" mbsNameSep).length ≠ 2 ∨
          Run.Since (fun (ctl, event) => ctl.Indexes "kb1-edge" "imw1-mb-12ab" event)
            (fun (ctl, event) => ctl.Unindexes "kb1-edge" "imw1-mb-12ab" event)
            (Run.trace MbCtl.step (.new threadSafeMap "provider") [edgeRelation, .storeSyncTarget edgeTarget])) :=
  ⟨edgeTarget_guarded edgeRelation rfl, live_syncTarget_not_absent_iff threadSafeMap_lawful "provider" _
    (edgeTarget_guarded edgeRelation rfl) "kb1-edge" edgeTarget (by rfl) rfl "imw1-mb-12ab"
      (by rfl) .insertion succeeds⟩

/-- After the events, the mailbox space of the live SyncTarget is deleted as unwanted. -/
def WantedDeleted (events : List Event) : Prop :=
  let ctl := (MbCtl.new threadSafeMap "provider").run events
  ctl.syncTargets.get "kb1-edge" = some edgeTarget ∧
    mbsNameOfSynctarget ctl.kbSpaceRelation edgeTarget = .ok "imw1-mb-12ab" ∧
      ctl.sync .insertion succeeds (.space "imw1-mb-12ab") =
        ⟨.deletedUnwanted, [], [.deleteSpace "imw1-mb-12ab" "34cd"]⟩

/-- The controller starts: the SyncTarget is stored before the relation knows its space. Storing it again does not
help. -/
theorem mailbox_of_live_syncTarget_deleted :
    WantedDeleted [.storeSyncTarget edgeTarget, edgeRelation, .storeSpace edgeMailbox] ∧
      WantedDeleted
        [.storeSyncTarget edgeTarget, edgeRelation, .storeSyncTarget edgeTarget, .storeSpace edgeMailbox] :=
  ⟨⟨by rfl, by rfl, by rfl⟩, by rfl, by rfl, by rfl⟩

end KubeStellar.MailboxController
