import KubeStellar.MailboxWatch.Snapshot

/-! # Clusters that come and go around a Watch

When the set of clusters changes, the goroutines of a watch stop what they watch and return, but the channel that the
consumer reads stays open. A change between the List and the Watch is not even noticed.
-/

namespace KubeStellar.MailboxWatch

open Strconv

/-- A call of the list-watcher: by the informer on workspaces, or by any consumer. -/
inductive Call (N V : Type) where
  | setInclusion (ws : Workspace) (included : Bool)
  | list (ord : RangeOrder) (answer : String → Option (ObjectList N V))
  | watch (ord : RangeOrder) (refuses : CrossClusterListerWatcher.Refuses) (resourceVersion : String)

variable {N V : Type} (clw : CrossClusterListerWatcher)

namespace CrossClusterListerWatcher

variable (clw : CrossClusterListerWatcher)

def step : Call N V → CrossClusterListerWatcher
  | .setInclusion ws included => clw.setInclusion ws included
  | .list ord answer => (clw.list ord answer).1
  | .watch _ _ _ => clw

/-- The state after the calls of an interleaving. -/
def run (calls : List (Call N V)) : CrossClusterListerWatcher :=
  Run.run step clw calls

theorem step_cases (call : Call N V) :
    (clw.step call).perCluster = clw.perCluster ∧ (clw.step call).reconfigChan = clw.reconfigChan ∨
      (clw.step call).reconfigChan = clw.reconfigChan + 1 := by
  cases call with
  | setInclusion ws included =>
    rw [step, setInclusion]
    generalize (if (Strings.split ws.name MBspaceNameSep).length ≠ 2 then false else included) = wanted
    split
    · exact .inl ⟨rfl, rfl⟩
    · exact .inr rfl
  | list ord answer => exact .inl ⟨rfl, rfl⟩
  | watch ord refuses resourceVersion => exact .inl ⟨rfl, rfl⟩

theorem watch_ok {clw : CrossClusterListerWatcher} {ord : RangeOrder} {refuses : Refuses} {resourceVersion : String}
    {mw : MyWatch} (hOk : clw.watch ord refuses resourceVersion = .ok mw) :
    mw.clusters = (ord.visit clw.perCluster).map Prod.fst ∧ mw.resourceVersion = resourceVersion ∧
      mw.reconfigChan = clw.reconfigChan := by
  unfold watch at hOk
  dsimp only at hOk
  split at hOk
  · cases hOk
  · cases hOk
    exact ⟨rfl, rfl, rfl⟩

end CrossClusterListerWatcher

/-- What happens around a watch: a call, or objects are written, up to a version. -/
inductive Change (N V : Type) where
  | call (call : Call N V)
  | write (version : Int)

/-- What the goroutines of a watch do, one for each of its clusters. -/
inductive Work where
  /-- Each that still runs passes the events of its cluster on, up to a version. -/
  | pass (upTo : String → Int)
  /-- Some of them receive from the closed `reconfigChan`, stop the watch of their cluster and return. -/
  | stop (who : String → Bool)

structure Surroundings where
  clw : CrossClusterListerWatcher
  /-- The version of the last write so far. -/
  now : Int

structure Watching extends Surroundings where
  /-- The version up to which the events of a cluster were passed on. -/
  passed : String → Int
  returned : String → Bool
  /-- Whether `filtered` is closed: only then does the consumer see that the watch has ended. -/
  closed : Bool

variable (around : Surroundings)

def Surroundings.step : Change N V → Surroundings
  | .call call => { around with clw := around.clw.step call }
  | .write version => { around with now := max around.now version }

variable (changes : List (Change N V))

def Surroundings.run : Surroundings := Run.run step around changes

variable (mw : MyWatch)

/-- The version from which on the watch of each cluster reports events. -/
def MyWatch.since : Int := (parseInt mw.resourceVersion).getD 0

namespace Watching

/-- A watch that has just been opened. No statement closes `filtered`. -/
def opened (clw : CrossClusterListerWatcher) (mw : MyWatch) (now : Int) : Watching :=
  ⟨⟨clw, now⟩, fun _ => mw.since, fun _ => false, false⟩

variable (w : Watching)

def step : Change N V ⊕ Work → Watching
  | .inl change => { w with toSurroundings := w.toSurroundings.step change }
  | .inr (.pass upTo) =>
    { w with passed := fun c => if w.returned c then w.passed c else max (w.passed c) (min (upTo c) w.now) }
  | .inr (.stop who) =>
    -- the channel that was current when the watch started has been closed
    if mw.reconfigChan < w.clw.reconfigChan then { w with returned := fun c => w.returned c || who c } else w

def run (actions : List (Change N V ⊕ Work)) : Watching := Run.run (step mw) w actions

/-- Every goroutine has returned or has nothing to pass on. -/
def Settled : Prop := ∀ c ∈ mw.clusters, w.returned c = true ∨ w.passed c = w.now

def Reports (objects : Objects N V) (event : History.Event Int (String × N) V) : Prop :=
  event.key.1 ∈ mw.clusters ∧ event ∈ objects.between mw.since (w.passed event.key.1)

variable {mw : MyWatch} {w : Watching}

theorem run_toSurroundings (mw : MyWatch) (w : Watching) (actions : List (Change N V ⊕ Work)) :
    (w.run mw actions).toSurroundings = w.toSurroundings.run (actions.filterMap Sum.getLeft?) := by
  induction actions generalizing w with
  | nil => rfl
  | cons action actions ih =>
    refine (ih (w.step mw action)).trans ?_
    cases action with
    | inl change => rfl
    | inr work =>
      cases work with
      | pass upTo => rfl
      | stop who =>
        rw [step]
        split <;> rfl

/-- What holds of an open watch, whatever happens: goroutines have only returned after a change of the clusters. -/
structure Sound (mw : MyWatch) (w : Watching) : Prop where
  open_ : w.closed = false
  returned : ∀ c, w.returned c = true → mw.reconfigChan < w.clw.reconfigChan

theorem Sound.step (hSound : Sound mw w) (action : Change N V ⊕ Work) : Sound mw (w.step mw action) := by
  obtain ⟨hOpen, hReturned⟩ := hSound
  cases action with
  | inl change =>
    refine ⟨hOpen, fun c hc => lt_of_lt_of_le (hReturned c hc) ?_⟩
    cases change with
    | call call =>
      rcases w.clw.step_cases call with ⟨-, hChan⟩ | hChan
      · exact hChan.ge
      · exact hChan.symm ▸ Nat.le_succ _
    | write version => exact le_rfl
  | inr work =>
    cases work with
    | pass upTo => exact ⟨hOpen, hReturned⟩
    | stop who =>
      rw [Watching.step]
      split
      · rename_i hClosed
        exact ⟨hOpen, fun _ _ => hClosed⟩
      · exact ⟨hOpen, hReturned⟩

theorem Sound.run (hSound : Sound mw w) (actions : List (Change N V ⊕ Work)) : Sound mw (w.run mw actions) := by
  induction actions generalizing w with
  | nil => exact hSound
  | cons action actions ih => exact ih (hSound.step action)

end Watching

theorem Surroundings.run_cases :
    around.now ≤ (around.run changes).now ∧ (around.clw.reconfigChan < (around.run changes).clw.reconfigChan ∨
      (around.run changes).clw.perCluster = around.clw.perCluster ∧
        (around.run changes).clw.reconfigChan = around.clw.reconfigChan) := by
  induction changes generalizing around with
  | nil => exact ⟨le_rfl, .inr ⟨rfl, rfl⟩⟩
  | cons change changes ih =>
    obtain ⟨hNow, hChan⟩ := ih (around.step change)
    cases change with
    | call call =>
      refine ⟨hNow, ?_⟩
      rcases around.clw.step_cases call with ⟨hSame, hStep⟩ | hStep
      · rw [← hSame, ← hStep]
        exact hChan
      · have hMore : around.clw.reconfigChan < (around.clw.step call).reconfigChan := hStep ▸ Nat.lt_succ_self _
        exact .inl (hMore.trans_le (hChan.elim le_of_lt fun hSame => hSame.2.ge))
    | write version => exact ⟨(le_max_left _ _).trans hNow, hChan⟩

section Schedules

variable (mw : MyWatch) (clw : CrossClusterListerWatcher) {now : Int} (later : List (Change N V))

theorem Watching.run_changes (w : Watching) (changes : List (Change N V)) (work : Work) :
    w.run mw (changes.map .inl ++ [.inr work]) =
      Watching.step (N := N) (V := V) mw ⟨w.toSurroundings.run changes, w.passed, w.returned, w.closed⟩
        (.inr work) := by
  induction changes generalizing w with
  | nil => rfl
  | cons change changes ih => exact ih (w.step mw (.inl change))

theorem filterMap_getLeft (work : Work) : (later.map Sum.inl ++ [Sum.inr work]).filterMap Sum.getLeft? = later := by
  induction later with
  | nil => rfl
  | cons change later ih => exact congrArg (change :: ·) ih

/-- The goroutines have passed everything on. -/
theorem exists_passing (hNow : mw.since ≤ now) : ∃ actions : List (Change N V ⊕ Work),
    actions.filterMap Sum.getLeft? = later ∧ ((Watching.opened clw mw now).run mw actions).Settled mw ∧
      ∀ c, ((Watching.opened clw mw now).run mw actions).passed c = (Surroundings.run ⟨clw, now⟩ later).now := by
  refine ⟨_, filterMap_getLeft later (.pass fun _ => (Surroundings.run ⟨clw, now⟩ later).now), ?_⟩
  have hPassed : max mw.since (min (Surroundings.run ⟨clw, now⟩ later).now (Surroundings.run ⟨clw, now⟩ later).now) =
      (Surroundings.run ⟨clw, now⟩ later).now := by
    rw [min_self]
    exact max_eq_right (hNow.trans (Surroundings.run_cases ⟨clw, now⟩ later).1)
  rw [Watching.run_changes]
  exact ⟨fun _ _ => .inr hPassed, fun _ => hPassed⟩

/-- After a change of the clusters, the goroutines have returned before they passed anything on. -/
theorem exists_stopping (hClosed : mw.reconfigChan < (Surroundings.run ⟨clw, now⟩ later).clw.reconfigChan) :
    ∃ actions : List (Change N V ⊕ Work), actions.filterMap Sum.getLeft? = later ∧
      ((Watching.opened clw mw now).run mw actions).Settled mw ∧
        ∀ c, ((Watching.opened clw mw now).run mw actions).passed c = mw.since := by
  refine ⟨_, filterMap_getLeft later (.stop fun _ => true), ?_⟩
  have hStep : ∀ w : Watching, mw.reconfigChan < w.clw.reconfigChan →
      Watching.step (N := N) (V := V) mw w (.inr (.stop fun _ => true)) =
        { w with returned := fun _ => true } := by
    intro w hClosed
    simp only [Watching.step, if_pos hClosed, Bool.or_true]
  rw [Watching.run_changes, hStep _ hClosed]
  exact ⟨fun _ _ => .inl rfl, fun _ => rfl⟩

end Schedules

variable [DecidableEq N] {objects : Objects N V} {clw} {ord : RangeOrder} {answer : String → Option (ObjectList N V)}

/-- The object was live at the version of the List, and was not written before its cluster was read. -/
def Listed (objects : Objects N V) (clw : CrossClusterListerWatcher) (ord : RangeOrder)
    (answer : String → Option (ObjectList N V)) (clusterName : String) (name : N) : Prop :=
  (objects.live (clw.listRV ord answer) (clusterName, name)).isSome ∧ ∃ rv, Read clw ord answer clusterName rv ∧
    ∀ event ∈ objects.between (clw.listRV ord answer) rv, event.key ≠ (clusterName, name)

theorem Snapshots.listed_iff (hSnap : Snapshots objects clw ord answer) {clusterName : String} {name : N} :
    (∃ item ∈ (clw.list ord answer).2.items, item.cluster = clusterName ∧ item.name = name) ↔
      Listed objects clw ord answer clusterName name := by
  constructor
  · rintro ⟨item, hItem, rfl, rfl⟩
    obtain ⟨⟨itemRV, -, hLive⟩, rv, hRead, hUntouched⟩ := hSnap.item_live hItem
    exact ⟨hLive ▸ rfl, rv, hRead, hUntouched⟩
  · rintro ⟨hLive, rv, hRead, hUntouched⟩
    exact hSnap.exists_item hRead hLive hUntouched

/-- The watch is ended, or every object that is live in an included cluster is in the list or was reported. -/
def NothingLost (objects : Objects N V) (items : List (Object N V)) (mw : MyWatch) (w : Watching) : Prop :=
  w.closed = true ∨ ∀ clusterName name, w.clw.perCluster.has clusterName = true →
    (objects.live w.now (clusterName, name)).isSome →
      (∃ item ∈ items, item.cluster = clusterName ∧ item.name = name) ∨
        ∃ event, w.Reports mw objects event ∧ event.key = (clusterName, name)

/-- Every object that is live in an included cluster was listed, or was written after the version of the List while the
clusters have not changed since the Watch. -/
def Covered (objects : Objects N V) (clw : CrossClusterListerWatcher) (ord : RangeOrder)
    (answer : String → Option (ObjectList N V)) (mw : MyWatch) (around : Surroundings) : Prop :=
  ∀ clusterName name written content, around.clw.perCluster.has clusterName = true →
    objects.live around.now (clusterName, name) = some (written, content) →
      Listed objects clw ord answer clusterName name ∨
        around.clw.reconfigChan = mw.reconfigChan ∧ clw.listRV ord answer < written

theorem Covered.nothingLost {mw : MyWatch} {w : Watching}
    (hCovered : Covered objects clw ord answer mw w.toSurroundings)
    (hSnapshots : Snapshots objects clw ord answer) (hSince : mw.since = clw.listRV ord answer)
    (hSound : w.Sound mw) (hSettled : w.Settled mw) (hKept : w.clw.reconfigChan = mw.reconfigChan →
      ∀ clusterName, w.clw.perCluster.has clusterName = true → clusterName ∈ mw.clusters) :
    NothingLost objects (clw.list ord answer).2.items mw w := by
  refine .inr fun clusterName name hHas hLive => ?_
  obtain ⟨⟨written, content⟩, hLive⟩ := Option.isSome_iff_exists.mp hLive
  rcases hCovered clusterName name written content hHas hLive with hListed | ⟨hSame, hWritten⟩
  · exact .inl (hSnapshots.listed_iff.mpr hListed)
  · -- the clusters are still those of the watch, whose goroutines all run
    have hMem := hKept hSame clusterName hHas
    have hPassed : w.passed clusterName = w.now := by
      refine (hSettled clusterName hMem).resolve_left fun hReturned => ?_
      exact absurd (hSound.returned clusterName hReturned) (hSame ▸ Nat.lt_irrefl _)
    obtain ⟨hEvent, hUpTo⟩ := objects.exists_event_of_live hLive
    exact .inr ⟨_, ⟨hMem, objects.mem_between_iff.mpr ⟨hEvent, hSince ▸ hWritten, hPassed ▸ hUpTo⟩⟩, rfl⟩

/-- After a List, a Watch at its version and some later changes, nothing is lost however the goroutines ran, exactly if
what is live is covered. -/
theorem nothingLost_iff (objects : Objects N V) (clw : CrossClusterListerWatcher) (ord : RangeOrder)
    (answer : String → Option (ObjectList N V)) (hSnapshots : Snapshots objects clw ord answer)
    (between : List (Call N V)) (ord' : RangeOrder) (refuses : CrossClusterListerWatcher.Refuses) (mw : MyWatch)
    (hWatch : ((clw.list ord answer).1.run between).watch ord' refuses (clw.list ord answer).2.resourceVersion = .ok mw)
    (now : Int) (hNow : clw.listRV ord answer ≤ now) (later : List (Change N V)) :
    (∀ actions, actions.filterMap Sum.getLeft? = later →
        ((Watching.opened ((clw.list ord answer).1.run between) mw now).run mw actions).Settled mw →
          NothingLost objects (clw.list ord answer).2.items mw
            ((Watching.opened ((clw.list ord answer).1.run between) mw now).run mw actions)) ↔
      Covered objects clw ord answer mw (Surroundings.run ⟨(clw.list ord answer).1.run between, now⟩ later) := by
  obtain ⟨hClusters, hVersion, hCurrent⟩ := CrossClusterListerWatcher.watch_ok hWatch
  have hSince : mw.since = clw.listRV ord answer := by
    rw [MyWatch.since, hVersion, list_resourceVersion, parseInt_formatInt inInt64_listRV, Option.getD_some]
  generalize (clw.list ord answer).1.run between = start at *
  have hOpened : Watching.Sound mw (Watching.opened start mw now) :=
    ⟨rfl, fun _ hFalse => by cases hFalse⟩
  have hChan := (Surroundings.run_cases ⟨start, now⟩ later).2
  constructor
  · intro hAll clusterName name written content hHas hLive
    have hFound : ∀ actions, actions.filterMap Sum.getLeft? = later →
        ((Watching.opened start mw now).run mw actions).Settled mw →
          Listed objects clw ord answer clusterName name ∨ ∃ event ∈ objects.between mw.since
            (((Watching.opened start mw now).run mw actions).passed event.key.1),
              event.key = (clusterName, name) := by
      intro actions hLater hSettled
      have hAround := hLater ▸ Watching.run_toSurroundings mw (Watching.opened start mw now) actions
      rcases hAll actions hLater hSettled with hClosed | hEach
      · rw [(hOpened.run actions).open_] at hClosed
        cases hClosed
      · rcases hEach clusterName name (hAround ▸ hHas) (hAround ▸ hLive ▸ rfl) with hItem | ⟨event, ⟨-, hEvent⟩, hKey⟩
        · exact .inl (hSnapshots.listed_iff.mp hItem)
        · exact .inr ⟨event, hEvent, hKey⟩
    by_cases hSame : (Surroundings.run ⟨start, now⟩ later).clw.reconfigChan = mw.reconfigChan
    · obtain ⟨actions, hLater, hSettled, hPassed⟩ := exists_passing mw start later (hSince ▸ hNow)
      refine (hFound actions hLater hSettled).imp_right ?_
      rintro ⟨event, hEvent, hKey⟩
      rw [hPassed] at hEvent
      obtain ⟨hMem, hAfter, hUpTo⟩ := objects.mem_between_iff.mp hEvent
      rw [hSince] at hAfter
      exact ⟨hSame, hAfter.trans_le (objects.version_le_of_live hLive hMem hKey hUpTo)⟩
    · have hClosed := hChan.resolve_right fun hSame' => hSame (hSame'.2.trans hCurrent.symm)
      obtain ⟨actions, hLater, hSettled, hPassed⟩ := exists_stopping mw start later (hCurrent ▸ hClosed)
      rcases hFound actions hLater hSettled with hListed | ⟨event, hEvent, -⟩
      · exact .inl hListed
      · rw [hPassed] at hEvent
        obtain ⟨-, hAfter, hUpTo⟩ := objects.mem_between_iff.mp hEvent
        exact absurd hAfter (not_lt.mpr hUpTo)
  · intro hCovered actions hLater hSettled
    have hAround := hLater ▸ Watching.run_toSurroundings mw (Watching.opened start mw now) actions
    refine Covered.nothingLost (hAround ▸ hCovered) hSnapshots hSince (hOpened.run actions) hSettled
      fun hSame c hHas => ?_
    rw [hAround] at hSame hHas
    have hKept := (hChan.resolve_left (hSame.trans hCurrent ▸ Nat.lt_irrefl _)).1
    exact hClusters ▸ (ord'.mem_visit_keys_iff _ c).mpr (hKept ▸ hHas)

def oneCluster : CrossClusterListerWatcher := ⟨⟨"", "v1", "ConfigMapList"⟩, (∅ : MapSet String).addAll ["a"], "a", 1⟩

def secondCluster : Call Nat Nat := .setInclusion ⟨"space-mb-uid", "b"⟩ true

theorem oneCluster_snapshots : Snapshots threeObjects oneCluster .insertion twoAnswers := by
  have hReads : ∀ clusterName ∈ oneCluster.listed .insertion, ∃ sublist,
      oneCluster.accept (twoAnswers clusterName) = some (sublist, twoReadings clusterName) ∧
        Exact threeObjects clusterName sublist (twoReadings clusterName) := by
    intro clusterName hListed
    rw [show oneCluster.listed .insertion = ["a"] by decide, List.mem_singleton] at hListed
    subst hListed
    exact ⟨_, rfl, exact_first⟩
  exact snapshots_of_reads hReads (by decide)

/-- The watch of the one cluster, opened right after its List. -/
def earlyWatch : MyWatch := ⟨["a"], "2", 1⟩

theorem nothingLost_iff_second :
    (∀ actions : List (Change Nat Nat ⊕ Work), actions.filterMap Sum.getLeft? = [.call secondCluster] →
        ((Watching.opened oneCluster earlyWatch 2).run earlyWatch actions).Settled earlyWatch →
          NothingLost threeObjects (oneCluster.list .insertion twoAnswers).2.items earlyWatch
            ((Watching.opened oneCluster earlyWatch 2).run earlyWatch actions)) ↔
      Covered threeObjects oneCluster .insertion twoAnswers earlyWatch
        (Surroundings.run ⟨oneCluster, 2⟩ [.call secondCluster]) :=
  nothingLost_iff threeObjects oneCluster .insertion twoAnswers oneCluster_snapshots [] .insertion (fun _ => none)
    earlyWatch (by rfl) 2 (by decide) [.call secondCluster]

/-- The watch of both clusters, opened after the second one was added. -/
def lateWatch : MyWatch := ⟨["a", "b"], "2", 2⟩

theorem lost_of_second {mw : MyWatch} {w : Watching} (hOpen : w.closed = false) (hNow : w.now = 2)
    (hHas : w.clw.perCluster.has "b" = true) (hPassed : w.passed "b" = mw.since) :
    ¬ NothingLost threeObjects (oneCluster.list .insertion twoAnswers).2.items mw w := by
  rintro (hClosed | hEach)
  · rw [hOpen] at hClosed
    cases hClosed
  · rcases hEach "b" 0 hHas (by rw [hNow]; decide) with ⟨item, hItem, hCluster, -⟩ | ⟨event, ⟨-, hEvent⟩, hKey⟩
    · rw [List.mem_singleton.mp hItem] at hCluster
      exact absurd hCluster (by decide)
    · rw [hKey, hPassed] at hEvent
      obtain ⟨-, hAfter, hUpTo⟩ := threeObjects.mem_between_iff.mp hEvent
      exact absurd hAfter (not_lt.mpr hUpTo)

/-- The second cluster is added after the List: before the Watch, which then has it, and after the Watch, whose
goroutine then returns. Its object is neither in the list nor reported, and the channel stays open. -/
theorem added_cluster_is_lost :
    threeObjects.live 2 ("b", 0) = some (2, 20) ∧
      ((oneCluster.list .insertion twoAnswers).1.run [secondCluster]).watch .insertion (fun _ => none)
          (oneCluster.list .insertion twoAnswers).2.resourceVersion = .ok lateWatch ∧
        (Watching.opened (oneCluster.run [secondCluster]) lateWatch 2).Settled lateWatch ∧
          ¬ NothingLost threeObjects (oneCluster.list .insertion twoAnswers).2.items lateWatch
            (Watching.opened (oneCluster.run [secondCluster]) lateWatch 2) ∧
      (oneCluster.list .insertion twoAnswers).1.watch .insertion (fun _ => none)
          (oneCluster.list .insertion twoAnswers).2.resourceVersion = .ok earlyWatch ∧
        ((Watching.opened oneCluster earlyWatch 2).run earlyWatch
            [.inl (.call secondCluster), .inr (.stop fun _ => true)]).Settled earlyWatch ∧
          ¬ NothingLost threeObjects (oneCluster.list .insertion twoAnswers).2.items earlyWatch
            ((Watching.opened oneCluster earlyWatch 2).run earlyWatch
              [.inl (.call secondCluster), .inr (.stop fun _ => true)]) := by
  refine ⟨by decide, by rfl, ?_, ?_, by rfl, ?_, ?_⟩
  · exact fun _ _ => .inr rfl
  · exact lost_of_second rfl rfl (by decide) rfl
  · exact fun _ _ => .inl rfl
  · exact lost_of_second rfl rfl (by decide) rfl

end KubeStellar.MailboxWatch
