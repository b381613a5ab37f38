import KubeStellar.WhereResolver.PartialFailure
import Mathlib.Logic.Relation

/-! # Changes and reconciles in any order

Each change of an object puts its key into the queue. A reconcile takes a key and reads the caches as they are at that
moment, so it may write a destination for a selection that the store does not record. If an object that has its own
reconcile pending changes again, no reconcile needs to come back to the slice.
-/

namespace KubeStellar.WhereResolver

section

variable {Sel : Type}

structure Config (Sel : Type) where
  caches : Caches Sel
  state : State
  pending : List QueueItem

inductive Change (Sel : Type) where
  | edgePlacement (key : String) (ep : EdgePlacement Sel)
  | location (key : String) (loc : Location Sel)
  | syncTarget (key : String) (st : SyncTarget)

def Change.item : Change Sel → QueueItem
  | .edgePlacement key _ => .edgePlacement key
  | .location key _ => .location key
  | .syncTarget key _ => .syncTarget key

def Caches.change (caches : Caches Sel) : Change Sel → Caches Sel
  | .edgePlacement key ep => { caches with edgePlacements := caches.edgePlacements.put key ep }
  | .location key loc => { caches with locations := caches.locations.put key loc }
  | .syncTarget key st => { caches with syncTargets := caches.syncTargets.put key st }

def Config.change (c : Config Sel) (change : Change Sel) : Config Sel :=
  ⟨c.caches.change change, c.state, change.item :: c.pending⟩

def Config.start : Config Sel := ⟨⟨∅, ∅, ∅⟩, ⟨⟨∅, ∅⟩, ∅, ∅⟩, []⟩

variable (env : Env Sel) (kbSpaceID : String) {item : QueueItem} {ep : String}

inductive Reconciled (item : QueueItem) : Config Sel → Config Sel → Prop
  | intro {c : Config Sel} {s' : State} (attempt : Attempt) (cached : GoMap String SinglePlacementSlice)
      (hExists : Exists c.caches item) (hVisible : Visible env c.caches { c.state with cached := cached })
      (hOk : process env attempt c.caches { c.state with cached := cached } item = (s', .ok ())) :
      Reconciled item c ⟨c.caches, s', c.pending.filter fun other => other ≠ item⟩

/-- One reconcile after another, with no change in between. -/
def Reconciles : Config Sel → Config Sel → Prop :=
  Relation.ReflTransGen fun c c' => ∃ item, Reconciled env item c c'

inductive Reachable : Config Sel → Prop
  | start (hSpace : env.spaceIDFromKubeBind kbSpaceID ≠ "") : Reachable Config.start
  | change {c : Config Sel} (hBefore : Reachable c) (change : Change Sel)
      (hRes : Resolvable env kbSpaceID (c.caches.change change)) : Reachable (c.change change)
  | reconcile {c c' : Config Sel} (hBefore : Reachable c) {item : QueueItem} (hReconciled : Reconciled env item c c') :
      Reachable c'

def Visits (c : Config Sel) (ep : String) (item : QueueItem) : Prop :=
  Touched c.state.store ep item ∨ Selecting env c.caches c.state.store ep item

def NamesPair (caches : Caches Sel) (sp : SinglePlacement) (l t : String) : Prop :=
  Has env caches sp (.location l) ∧ Has env caches sp (.syncTarget t)

def Clears (c : Config Sel) (ep : String) (sp : SinglePlacement) (item : QueueItem) : Prop :=
  Visits env c ep item ∧ ((∃ key, item = .edgePlacement key) ∨ Has env c.caches sp item)

def Rightful (caches : Caches Sel) (ep : String) (sp : SinglePlacement) : Prop :=
  ∃ l t, NamesPair env caches sp l t ∧ SelectsLoc env caches ep l ∧ SelectsSt env caches l t

/-- What the reconcile of an item does to the relations and to the slices. -/
structure Effect (item : QueueItem) (c c' : Config Sel) : Prop where
  caches : c'.caches = c.caches
  pending : ∀ other, other ∈ c'.pending ↔ other ∈ c.pending ∧ other ≠ item
  locs : ∀ l ep, c'.state.store.epsBySelectedLoc.mem l ep = true ↔
    if item = .edgePlacement ep ∨ item = .location l then SelectsLoc env c.caches ep l
    else c.state.store.epsBySelectedLoc.mem l ep = true
  sts : ∀ t l, c'.state.store.locsBySelectedSt.mem t l = true ↔
    if item = .location l ∨ item = .syncTarget t then SelectsSt env c.caches l t
    else c.state.store.locsBySelectedSt.mem t l = true
  written : ∀ ep, item = .edgePlacement ep → ∃ after, Holds env c.caches c'.state ep after ∧
    ∀ sp ∈ after, Rightful env c.caches ep sp
  slices : ∀ ep before, Holds env c.caches c.state ep before → ∃ after, Holds env c.caches c'.state ep after ∧
    (∀ sp ∈ before, ¬ Clears env c ep sp item → sp ∈ after) ∧
    ∀ sp ∈ after, (sp ∈ before ∧ ¬ Clears env c ep sp item) ∨ Rightful env c.caches ep sp

variable {env} in
theorem Effect.locs_of_other {c c' : Config Sel} (hEffect : Effect env item c c')
    (hEp : item ≠ .edgePlacement ep) (l : String) :
    c'.state.store.epsBySelectedLoc.mem l ep = true ↔
      if item = .location l then SelectsLoc env c.caches ep l else c.state.store.epsBySelectedLoc.mem l ep = true := by
  simp only [hEffect.locs, or_iff_right hEp]

section Effects

variable {env : Env Sel} {kbSpaceID l t : String} {caches : Caches Sel}
  (hRes : Resolvable env kbSpaceID caches) {sp : SinglePlacement} {loc : Location Sel} {st : SyncTarget}

include hRes

theorem namesPair_destination (hLoc : caches.locations.get l = some loc) (hSt : caches.syncTargets.get t = some st) :
    NamesPair env caches (destination env kbSpaceID loc st) l t :=
  ⟨(hRes.has_location_iff hLoc _).mpr ⟨rfl, rfl⟩, (hRes.has_syncTarget_iff hSt _).mpr ⟨rfl, rfl⟩⟩

theorem Placed.rightful (hPlaced : Placed env kbSpaceID caches ep sp) : Rightful env caches ep sp := by
  obtain ⟨l, loc, t, st, hLoc, hSt, hSelects, hSelSt, rfl⟩ := hPlaced
  exact ⟨l, t, namesPair_destination hRes hLoc hSt, hSelects, loc, st, hLoc, hSt, hSelSt⟩

end Effects

theorem clears_iff {env : Env Sel} {c : Config Sel} (hItem : item ≠ .edgePlacement ep) (sp : SinglePlacement) :
    Clears env c ep sp item ↔ Visits env c ep item ∧ Has env c.caches sp item := by
  cases item with
  | edgePlacement key =>
    have hNe : ep ≠ key := fun hEq => hItem (by rw [hEq])
    exact iff_of_false (fun h => h.1.elim hNe hNe) fun h => h.2
  | location key | syncTarget key => simp [Clears]

theorem Reconciled.effect {env : Env Sel} {kbSpaceID : String} {c c' : Config Sel}
    (hRes : Resolvable env kbSpaceID c.caches) (hReconciled : Reconciled env item c c') : Effect env item c c' := by
  cases hReconciled with
  | @intro s' attempt cached hExists hVisible hOk =>
    have hProcessed := processed_of_ok hRes hVisible hExists hOk
    have hWritten : ∀ ep, item = .edgePlacement ep → ∃ after, Holds env c.caches s' ep after ∧
        ∀ sp ∈ after, Rightful env c.caches ep sp := by
      intro ep hItem
      obtain ⟨after, hHolds, -, hPlaced⟩ := hProcessed.written ep hItem
      exact ⟨after, hHolds, fun sp hMem => ((hPlaced sp).mp hMem).rightful hRes⟩
    refine ⟨rfl, by simp, hProcessed.locs, hProcessed.sts, hWritten, fun ep before hBefore => ?_⟩
    by_cases hItem : item = .edgePlacement ep
    · obtain ⟨after, hHolds, hRightful⟩ := hWritten ep hItem
      subst hItem
      exact ⟨after, hHolds, fun sp _ hClears => absurd ⟨.inl rfl, .inl ⟨ep, rfl⟩⟩ hClears,
        fun sp hMem => .inr (hRightful sp hMem)⟩
    · obtain ⟨after, hHolds, hRepl⟩ := hProcessed.slices ep before hItem hBefore
      refine ⟨after, hHolds, fun sp hMem hNot => ?_, fun sp hMem => ?_⟩
      · exact (hRepl.mem_iff sp).mpr (.inl ⟨hMem, fun hRemoved => hNot ((clears_iff hItem sp).mpr hRemoved)⟩)
      · rcases (hRepl.mem_iff sp).mp hMem with ⟨hMem, hKept⟩ | ⟨-, l, loc, t, st, hLoc, hSt, -, hSelects, hSelSt, rfl⟩
        · exact .inl ⟨hMem, fun hClears => hKept ((clears_iff hItem sp).mp hClears)⟩
        · exact .inr (Placed.rightful hRes ⟨l, loc, t, st, hLoc, hSt, hSelects, hSelSt, rfl⟩)

end

open List Option GoMap

variable {Sel : Type} (env : Env Sel) (kbSpaceID : String) (c : Config Sel)

def NoOrphan : Prop :=
  ∀ ep destinations, Holds env c.caches c.state ep destinations → ∀ sp ∈ destinations, Rightful env c.caches ep sp

/-- The destination is where it belongs, or a pending reconcile is bound to reach the slice: that of the EdgePlacement,
that of the Location if the EdgePlacement selects or selected it, or that of the SyncTarget if it is connected with the
EdgePlacement through the Location itself or through a Location of which this will not change. -/
def CoveredPair (ep l t : String) : Prop :=
  (SelectsLoc env c.caches ep l ∧ SelectsSt env c.caches l t) ∨ .edgePlacement ep ∈ c.pending ∨
    (.location l ∈ c.pending ∧ Visits env c ep (.location l)) ∨
    (.syncTarget t ∈ c.pending ∧
      (c.state.store.epsBySelectedLoc.mem l ep = true ∧
          (c.state.store.locsBySelectedSt.mem t l = true ∨ SelectsSt env c.caches l t) ∨
        ∃ l', c.state.store.epsBySelectedLoc.mem l' ep = true ∧ SelectsLoc env c.caches ep l' ∧
          SelectsSt env c.caches l' t))

def Covered : Prop :=
  ∀ ep destinations, Holds env c.caches c.state ep destinations → ∀ sp ∈ destinations, ∀ l t,
    NamesPair env c.caches sp l t → CoveredPair env c ep l t

structure Sound (c : Config Sel) : Prop where
  resolvable : Resolvable env kbSpaceID c.caches
  pending : ∀ item ∈ c.pending, Exists c.caches item
  known : ∀ l ep, c.state.store.epsBySelectedLoc.mem l ep = true →
    Exists c.caches (.location l) ∧ Exists c.caches (.edgePlacement ep)
  slices : ∀ ep, Exists c.caches (.edgePlacement ep) → .edgePlacement ep ∉ c.pending →
    ∃ destinations, Holds env c.caches c.state ep destinations ∧
      ∀ sp ∈ destinations, ∃ l t, NamesPair env c.caches sp l t

variable {env kbSpaceID} {c c' : Config Sel} {sp : SinglePlacement} {caches : Caches Sel}

theorem SelectsLoc.exist {ep l : String} (hSelects : SelectsLoc env caches ep l) :
    Exists caches (.location l) ∧ Exists caches (.edgePlacement ep) := by
  obtain ⟨epObj, loc, hEp, hLoc, -⟩ := hSelects
  exact ⟨⟨loc, hLoc⟩, epObj, hEp⟩

theorem grows_change (caches : Caches Sel) (change : Change Sel) : Grows caches (caches.change change) := by
  have hPut : ∀ {V : Type} (m : GoMap String V) (key : String) (v : V) (name : String), m.has name = true →
      (m.put key v).has name = true := by
    intro V m key v name hHas
    rw [GoMap.has, get_put]
    split
    · rfl
    · exact hHas
  cases change with
  | edgePlacement key ep => exact ⟨hPut _ key ep, fun _ h => h, fun _ h => h⟩
  | location key loc => exact ⟨fun _ h => h, hPut _ key loc, fun _ h => h⟩
  | syncTarget key st => exact ⟨fun _ h => h, fun _ h => h, hPut _ key st⟩

theorem Exists.grows {old new : Caches Sel} (hGrows : Grows old new) {item : QueueItem} (hExists : Exists old item) :
    Exists new item := by
  have hFind : ∀ {V : Type} {m m' : GoMap String V} {key : String}, (m.has key = true → m'.has key = true) →
      (∃ v, m.get key = some v) → ∃ v, m'.get key = some v :=
    fun hKept hGet => isSome_iff_exists.mp (hKept (isSome_iff_exists.mpr hGet))
  cases item with
  | edgePlacement key => exact hFind (hGrows.edgePlacements key) hExists
  | location key => exact hFind (hGrows.locations key) hExists
  | syncTarget key => exact hFind (hGrows.syncTargets key) hExists

theorem NamesPair.grows {old new : Caches Sel} (hOld : Resolvable env kbSpaceID old)
    (hNew : Resolvable env kbSpaceID new) (hGrows : Grows old new) {l t : String}
    (hNames : NamesPair env old sp l t) : NamesPair env new sp l t := by
  obtain ⟨hHasLoc, hHasSt⟩ := hNames
  obtain ⟨loc, -, -, hLoc, -⟩ := id hHasLoc
  obtain ⟨st, -, -, hSt, -⟩ := id hHasSt
  obtain ⟨loc', hLoc'⟩ := @Exists.grows Sel old new hGrows (.location l) ⟨loc, hLoc⟩
  obtain ⟨st', hSt'⟩ := @Exists.grows Sel old new hGrows (.syncTarget t) ⟨st, hSt⟩
  obtain ⟨hName, ⟨original, hIds⟩, -⟩ := hOld.locations l loc hLoc
  obtain ⟨hName', ⟨original', hIds'⟩, -⟩ := hNew.locations l loc' hLoc'
  obtain ⟨hStName, stOriginal, hStIds⟩ := hOld.syncTargets t st hSt
  obtain ⟨hStName', stOriginal', hStIds'⟩ := hNew.syncTargets t st' hSt'
  rw [hOld.has_location_iff hLoc] at hHasLoc
  rw [hOld.has_syncTarget_iff hSt] at hHasSt
  refine ⟨(hNew.has_location_iff hLoc' sp).mpr ⟨hHasLoc.1, ?_⟩, (hNew.has_syncTarget_iff hSt' sp).mpr ⟨hHasSt.1, ?_⟩⟩
  · exact hHasLoc.2.trans ((originalName_eq_iff hIds hIds').mpr (hName.trans hName'.symm))
  · exact hHasSt.2.trans ((originalName_eq_iff hStIds hStIds').mpr (hStName.trans hStName'.symm))

theorem sound_start (hSpace : env.spaceIDFromKubeBind kbSpaceID ≠ "") :
    Sound env kbSpaceID (Config.start : Config Sel) := by
  refine ⟨⟨hSpace, ?_, ?_, ?_⟩, ?_, ?_, ?_⟩
  · exact fun _ _ hGet => absurd hGet (some_ne_none _).symm
  · exact fun _ _ hGet => absurd hGet (some_ne_none _).symm
  · exact fun _ _ hGet => absurd hGet (some_ne_none _).symm
  · exact fun _ hMem => absurd hMem not_mem_nil
  · exact fun _ _ hMem => absurd hMem Bool.false_ne_true
  · rintro ep ⟨epObj, hEp⟩
    exact absurd hEp (some_ne_none _).symm

theorem Sound.change (hSound : Sound env kbSpaceID c) (change : Change Sel)
    (hRes : Resolvable env kbSpaceID (c.caches.change change)) : Sound env kbSpaceID (c.change change) := by
  have hGrows := grows_change c.caches change
  refine ⟨hRes, fun item hMem => ?_, fun l ep hMem => ?_, fun ep hExists hNot => ?_⟩
  · rcases mem_cons.mp hMem with rfl | hMem
    · cases change with
      | edgePlacement key ep => exact ⟨ep, (get_put _ _ _ _).trans (if_pos rfl)⟩
      | location key loc => exact ⟨loc, (get_put _ _ _ _).trans (if_pos rfl)⟩
      | syncTarget key st => exact ⟨st, (get_put _ _ _ _).trans (if_pos rfl)⟩
    · exact (hSound.pending item hMem).grows hGrows
  · exact (hSound.known l ep hMem).imp (Exists.grows hGrows) (Exists.grows hGrows)
  · have hSame : (c.caches.change change).edgePlacements.get ep = c.caches.edgePlacements.get ep := by
      cases change with
      | edgePlacement key epObj =>
        refine (get_put _ _ _ _).trans (if_neg ?_)
        rintro rfl
        exact hNot mem_cons_self
      | location key loc => rfl
      | syncTarget key st => rfl
    obtain ⟨epObj, hEp⟩ := hExists
    obtain ⟨destinations, ⟨epObj', hEp', hSlice⟩, hNames⟩ := hSound.slices ep ⟨epObj, hSame ▸ hEp⟩ fun hMem =>
      hNot (mem_cons_of_mem _ hMem)
    refine ⟨destinations, ⟨epObj', hSame.trans hEp', hSlice⟩, fun sp hMem => ?_⟩
    obtain ⟨l, t, hPair⟩ := hNames sp hMem
    exact ⟨l, t, hPair.grows hSound.resolvable hRes hGrows⟩

theorem Sound.effect (hSound : Sound env kbSpaceID c) {item : QueueItem}
    (hEffect : Effect env item c c') : Sound env kbSpaceID c' := by
  have hCaches := hEffect.caches
  refine ⟨hCaches ▸ hSound.resolvable, fun other hMem => ?_, fun l ep hMem => ?_, fun ep hExists hNot => ?_⟩
  · rw [hCaches]
    exact hSound.pending other ((hEffect.pending other).mp hMem).1
  · rw [hCaches]
    rw [hEffect.locs] at hMem
    split at hMem
    · exact hMem.exist
    · exact hSound.known l ep hMem
  · rw [hCaches] at hExists ⊢
    have hRight : ∀ {sp}, Rightful env c.caches ep sp → ∃ l t, NamesPair env c.caches sp l t :=
      fun hRightful => hRightful.imp fun l h => h.imp fun t h => h.1
    by_cases hItem : item = .edgePlacement ep
    · obtain ⟨after, hHolds, hRightful⟩ := hEffect.written ep hItem
      exact ⟨after, hHolds, fun sp hMem => hRight (hRightful sp hMem)⟩
    · have hBefore : .edgePlacement ep ∉ c.pending := fun hMem => hNot ((hEffect.pending _).mpr ⟨hMem, Ne.symm hItem⟩)
      obtain ⟨before, hHolds, hNames⟩ := hSound.slices ep hExists hBefore
      obtain ⟨after, hHolds', -, hAfter⟩ := hEffect.slices ep before hHolds
      refine ⟨after, hHolds', fun sp hMem => ?_⟩
      rcases hAfter sp hMem with ⟨hMem, -⟩ | hRightful
      · exact hNames sp hMem
      · exact hRight hRightful

theorem Reachable.sound (hReach : Reachable env kbSpaceID c) : Sound env kbSpaceID c := by
  induction hReach with
  | start hSpace => exact sound_start hSpace
  | change _ change hRes ih => exact ih.change change hRes
  | reconcile _ hReconciled ih => exact ih.effect (hReconciled.effect ih.resolvable)

theorem CoveredPair.effect {item : QueueItem} (hEffect : Effect env item c c') {ep l t : String}
    (hNames : NamesPair env c.caches sp l t) (hKept : ¬ Clears env c ep sp item)
    (hCovered : CoveredPair env c ep l t) : CoveredPair env c' ep l t := by
  have hEp : item ≠ .edgePlacement ep := by
    rintro rfl
    exact hKept ⟨.inl rfl, .inl ⟨ep, rfl⟩⟩
  have hLoc : item = .location l → ¬ Visits env c ep (.location l) := by
    rintro rfl hVisits
    exact hKept ⟨hVisits, .inr hNames.1⟩
  have hSt : item = .syncTarget t → ¬ Visits env c ep (.syncTarget t) := by
    rintro rfl hVisits
    exact hKept ⟨hVisits, .inr hNames.2⟩
  simp only [CoveredPair, Visits, Touched, Selecting, hEffect.caches, hEffect.pending,
    hEffect.locs_of_other hEp] at hCovered hLoc hSt ⊢
  rcases hCovered with hRight | hPending | ⟨hPending, hVisits⟩ | ⟨hPending, hThrough⟩
  · exact .inl hRight
  · exact .inr (.inl ⟨hPending, hEp.symm⟩)
  · have hOther : item ≠ .location l := fun hItem => hLoc hItem hVisits
    refine .inr (.inr (.inl ⟨⟨hPending, hOther.symm⟩, ?_⟩))
    rwa [if_neg hOther]
  · have hOther : item ≠ .syncTarget t := by
      intro hItem
      refine hSt hItem ?_
      rcases hThrough with ⟨hRec, hRecordedSt | hSelSt⟩ | ⟨l', hRec, -, hSelSt⟩
      · exact .inl ⟨l, hRecordedSt, hRec⟩
      · exact .inr ⟨l, hSelSt, hRec⟩
      · exact .inr ⟨l', hSelSt, hRec⟩
    refine .inr (.inr (.inr ⟨⟨hPending, hOther.symm⟩, ?_⟩))
    rcases hThrough with ⟨hRec, hConnected⟩ | ⟨l', hRec, hSelects, hSelSt⟩
    · have hSame : item ≠ .location l := fun hItem => hLoc hItem (.inl hRec)
      refine .inl ⟨by rwa [if_neg hSame], ?_⟩
      rwa [hEffect.sts, if_neg (not_or.mpr ⟨hSame, hOther⟩)]
    · refine .inr ⟨l', ?_, hSelects, hSelSt⟩
      split
      · exact hSelects
      · exact hRec

theorem Holds.unique {s : State} {ep : String} {destinations destinations' : List SinglePlacement}
    (hHolds : Holds env caches s ep destinations) (hHolds' : Holds env caches s ep destinations') :
    destinations = destinations' := by
  obtain ⟨epObj, hEp, hSlice⟩ := hHolds
  obtain ⟨epObj', hEp', hSlice'⟩ := hHolds'
  obtain rfl := Option.mem_unique hEp hEp'
  exact Option.mem_unique hSlice hSlice'

theorem Rightful.selects (hRes : Resolvable env kbSpaceID caches) {ep l t : String}
    (hRightful : Rightful env caches ep sp) (hNames : NamesPair env caches sp l t) :
    SelectsLoc env caches ep l ∧ SelectsSt env caches l t := by
  obtain ⟨l', t', hNames', hSelects, hSelSt⟩ := hRightful
  obtain rfl := location_eq_of_has hRes hNames.1 hNames'.1
  obtain rfl := syncTarget_eq_of_has hRes hNames.2 hNames'.2
  exact ⟨hSelects, hSelSt⟩

theorem Covered.effect (hSound : Sound env kbSpaceID c) {item : QueueItem}
    (hEffect : Effect env item c c') (hCovered : Covered env c) : Covered env c' := by
  intro ep after hHolds' sp hMem l t hNames
  rw [hEffect.caches] at hHolds' hNames
  have hRight : Rightful env c.caches ep sp → CoveredPair env c' ep l t :=
    fun hRightful => .inl (hEffect.caches.symm ▸ hRightful.selects hSound.resolvable hNames)
  by_cases hItem : item = .edgePlacement ep
  · obtain ⟨written, hWritten, hRightful⟩ := hEffect.written ep hItem
    exact hRight (hRightful sp (hWritten.unique hHolds' ▸ hMem))
  · by_cases hPending : .edgePlacement ep ∈ c.pending
    · exact .inr (.inl ((hEffect.pending _).mpr ⟨hPending, Ne.symm hItem⟩))
    · obtain ⟨epObj, hEp, -⟩ := id hHolds'
      obtain ⟨before, hHolds, -⟩ := hSound.slices ep ⟨epObj, hEp⟩ hPending
      obtain ⟨after', hAfter', -, hFrom⟩ := hEffect.slices ep before hHolds
      rcases hFrom sp (hAfter'.unique hHolds' ▸ hMem) with ⟨hBefore, hKept⟩ | hRightful
      · exact (hCovered ep before hHolds sp hBefore l t hNames).effect hEffect hNames hKept
      · exact hRight hRightful

theorem Covered.noOrphan (hSound : Sound env kbSpaceID c) (hCovered : Covered env c)
    (hDone : c.pending = []) : NoOrphan env c := by
  intro ep destinations hHolds sp hMem
  have hNone : ∀ item, item ∉ c.pending := fun item => hDone ▸ not_mem_nil
  obtain ⟨epObj, hEp, -⟩ := id hHolds
  obtain ⟨destinations', hHolds', hNames⟩ := hSound.slices ep ⟨epObj, hEp⟩ (hNone _)
  obtain ⟨l, t, hPair⟩ := hNames sp (hHolds.unique hHolds' ▸ hMem)
  rcases hCovered ep destinations hHolds sp hMem l t hPair with hRight | hPending | ⟨hPending, -⟩ | ⟨hPending, -⟩
  · exact ⟨l, t, hPair, hRight⟩
  · exact absurd hPending (hNone _)
  · exact absurd hPending (hNone _)
  · exact absurd hPending (hNone _)

theorem Reconciles.covered (hRun : Reconciles env c c') (hSound : Sound env kbSpaceID c)
    (hCovered : Covered env c) : Sound env kbSpaceID c' ∧ Covered env c' := by
  induction hRun with
  | refl => exact ⟨hSound, hCovered⟩
  | tail _ hStep ih =>
    obtain ⟨item, hReconciled⟩ := hStep
    have hEffect := hReconciled.effect ih.1.resolvable
    exact ⟨ih.1.effect hEffect, ih.2.effect ih.1 hEffect⟩

end KubeStellar.WhereResolver
