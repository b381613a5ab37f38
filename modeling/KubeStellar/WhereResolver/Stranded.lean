import KubeStellar.WhereResolver.Interleaving

/-! # Reconciles that pass by a destination

Where no pending reconcile is bound to come to a destination, there is an order of the reconciles in which none does:
before that of the SyncTarget, the Locations through which it would find the EdgePlacement are reconciled.
-/

namespace KubeStellar.WhereResolver

open List Option GoMap

variable {Sel : Type} {kbSpaceID key : String} {extra : String → Prop} {item : QueueItem}

section Success

variable (env : Env Sel)

def copiesOf (c : Config Sel) : GoMap String SinglePlacementSlice :=
  (c.caches.edgePlacements.filterKeys fun name => ((c.caches.edgePlacements.get name).map fun ep =>
    c.state.slices.has (consumer env ep.objectMeta)).getD false).mapVal fun _ ep =>
      ⟨ep.objectMeta, (c.state.slices.get (consumer env ep.objectMeta)).getD []⟩

variable {env}

theorem get_copiesOf_iff (c : Config Sel) (name : String) (sps : SinglePlacementSlice) :
    (copiesOf env c).get name = some sps ↔ ∃ ep destinations, c.caches.edgePlacements.get name = some ep ∧
      c.state.slices.get (consumer env ep.objectMeta) = some destinations ∧ sps = ⟨ep.objectMeta, destinations⟩ := by
  rw [copiesOf, get_mapVal, get_filterKeys]
  cases hEp : c.caches.edgePlacements.get name with
  | none => simp
  | some ep =>
    cases hSlice : c.state.slices.get (consumer env ep.objectMeta) with
    | none => simp [GoMap.has, hSlice]
    | some destinations =>
      simp only [map_some, GoMap.has, hSlice, isSome_some, getD_some, if_true, Option.some.injEq]
      constructor
      · rintro rfl
        exact ⟨ep, destinations, rfl, hSlice, rfl⟩
      · rintro ⟨ep', destinations', rfl, hSlice', rfl⟩
        rw [Option.mem_unique hSlice hSlice']

variable {c : Config Sel} (hRes : Resolvable env kbSpaceID c.caches)

include hRes

theorem visible_copiesOf : Visible env c.caches { c.state with cached := copiesOf env c } := by
  refine ⟨fun name sps hSps => ?_, fun name ep hEp hHas => ?_, fun name ep sps hEp hSps => ?_⟩
  · obtain ⟨ep, destinations, hEp, hSlice, rfl⟩ := (get_copiesOf_iff c name sps).mp hSps
    obtain ⟨hName, hResolves, -⟩ := hRes.edgePlacements name ep hEp
    exact ⟨hName, hResolves, hSlice⟩
  · obtain ⟨destinations, hSlice⟩ := isSome_iff_exists.mp hHas
    exact isSome_iff_exists.mpr ⟨_, (get_copiesOf_iff c name _).mpr ⟨ep, destinations, hEp, hSlice, rfl⟩⟩
  · obtain ⟨ep', destinations, hEp', -, rfl⟩ := (get_copiesOf_iff c name sps).mp hSps
    rw [Option.mem_unique hEp hEp']

theorem ready_of_holds {ep : String} {destinations : List SinglePlacement}
    (hHolds : Holds env c.caches c.state ep destinations) (hExtra : extra ep) (store : Store) :
    Ready env edgeAttempt extra { c.state with cached := copiesOf env c, store := store } ep := by
  obtain ⟨epObj, hEp, hSlice⟩ := hHolds
  obtain ⟨-, ⟨original, id, hIds, hSpace⟩, -⟩ := hRes.edgePlacements ep epObj hEp
  refine ⟨⟨epObj.objectMeta, destinations⟩, original, env.spaceIDFromKubeBind id,
    (get_copiesOf_iff c ep _).mpr ⟨epObj, destinations, hEp, hSlice, rfl⟩, ?_, rfl, rfl, ?_, hExtra⟩
  · simp only [getConsumerSpaceForSPS, hIds, hSpace, if_false]
  · rw [GoMap.has, ← consumer_eq env hIds, hSlice]
    rfl

theorem Plan.exists_reconciled {keeps : SinglePlacement → Bool} {adds : String → SinglePlacement → Prop}
    (plan : Plan env c.caches item (Selecting env c.caches c.state.store · item) extra keeps adds)
    (hExists : Exists c.caches item)
    (hHolds : ∀ ep, Visits env c ep item → ∃ destinations, Holds env c.caches c.state ep destinations)
    (hExtra : ∀ ep, Visits env c ep item → extra ep) : ∃ c', Reconciled env item c c' := by
  have hVisible := visible_copiesOf hRes
  obtain ⟨store, names, body, hRun, hNodup, hNames, -, -, hBody⟩ :=
    plan.run edgeAttempt { c.state with cached := copiesOf env c } fun ep => Iff.rfl
  have hRounds := forEachEp_rounds hBody hNodup (s := { c.state with cached := copiesOf env c, store := store })
    hVisible.oneEach
  have hOk := hRounds.ready.mpr fun name hMem => by
    have hVisits := (hNames name).mp hMem
    obtain ⟨destinations, hSlice⟩ := hHolds name hVisits
    exact ready_of_holds hRes hSlice (hExtra name hVisits) store
  exact ⟨_, .intro edgeAttempt (copiesOf env c) hExists hVisible (hRun.trans (Prod.ext rfl hOk))⟩

theorem exists_reconciled_edgePlacement (hExists : Exists c.caches (.edgePlacement key)) :
    ∃ c', Reconciled env (.edgePlacement key) c c' := by
  obtain ⟨ep, hEp⟩ := id hExists
  obtain ⟨-, ⟨original, id, hIds, hSpace⟩, -⟩ := hRes.edgePlacements key ep hEp
  have hOk : ∀ store singles,
      (writeSlice env edgeAttempt { c.state with cached := copiesOf env c, store := store } key ep
      singles).2 = .ok () := by
    intro store singles
    simp only [writeSlice, hIds, hSpace, if_false]
    cases hCopy : (copiesOf env c).has key with
    | true =>
      obtain ⟨sps, hSps⟩ := isSome_iff_exists.mp hCopy
      obtain ⟨ep', destinations, hEp', hSlice, -⟩ := (get_copiesOf_iff c key sps).mp hSps
      obtain rfl := Option.mem_unique hEp hEp'
      rw [consumer_eq env hIds] at hSlice
      simp [edgeAttempt, patchSpsDestinations, GoMap.has, hSlice]
    | false =>
      simp only [edgeAttempt, createSlice, Bool.not_true, Bool.false_eq_true, if_false]
      split <;> rfl
  refine ⟨_, .intro edgeAttempt (copiesOf env c) hExists (visible_copiesOf hRes) (Prod.ext rfl ?_)⟩
  rw [process, reconcileOnEdgePlacement_eq hRes edgeAttempt _ hEp]
  exact hOk _ _

omit hRes in
theorem Sound.exists_reconciled (hSound : Sound env kbSpaceID c) (hSliced : ∀ ep, .edgePlacement ep ∉ c.pending)
    (hExists : Exists c.caches item) : ∃ c', Reconciled env item c c' := by
  have hRes := hSound.resolvable
  have hRegular : Regular env c.caches :=
    ⟨fun name loc hLoc => (hRes.locations name loc hLoc).1, fun name ep hEp =>
      ⟨(hRes.edgePlacements name ep hEp).1, (hRes.edgePlacements name ep hEp).2.2⟩⟩
  have hHolds : ∀ ep, Exists c.caches (.edgePlacement ep) → ∃ destinations,
      Holds env c.caches c.state ep destinations := fun ep hEp =>
    (hSound.slices ep hEp (hSliced ep)).imp fun _ h => h.1
  cases item with
  | edgePlacement key => exact exists_reconciled_edgePlacement hRes hExists
  | location key =>
    obtain ⟨loc, hLoc⟩ := id hExists
    obtain ⟨-, ⟨original, hIds⟩, -⟩ := hRes.locations key loc hLoc
    refine (location_plan hRegular hLoc hIds hRes.space
      (filterStsByLoc_eq hRes edgeAttempt hLoc)).exists_reconciled hRes hExists (fun ep hVisits => ?_)
      fun _ _ => trivial
    rcases hVisits with hTouched | hSelects
    · exact hHolds ep (hSound.known key ep hTouched).2
    · exact hHolds ep (SelectsLoc.exist hSelects).2
  | syncTarget key =>
    obtain ⟨st, hSt⟩ := id hExists
    obtain ⟨-, original, hIds⟩ := hRes.syncTargets key st hSt
    have hKnown : ∀ ep, Visits env c ep (.syncTarget key) → Exists c.caches (.edgePlacement ep) := by
      rintro ep (⟨l, -, hMem⟩ | ⟨l, -, hMem⟩)
      · exact (hSound.known l ep hMem).2
      · exact (hSound.known l ep hMem).2
    refine (syncTarget_plan hRegular hSt hIds hRes.space (filterLocsBySt_eq hRes edgeAttempt st)
      _).exists_reconciled hRes hExists (fun ep hVisits => hHolds ep (hKnown ep hVisits)) fun ep hVisits _ => ?_
    obtain ⟨epObj, hEp⟩ := hKnown ep hVisits
    simp only [additionalSingles, hEp, filterLocsByEp_eq hRes hEp]
    exact ⟨_, rfl⟩

end Success

variable {sp : SinglePlacement} {l t : String} {c' : Config Sel}

section Passing

variable (env : Env Sel) (kbSpaceID : String)

/-- A slice holds a destination that does not belong there, and no pending reconcile is bound to reach it. -/
structure Stranded (c : Config Sel) (ep : String) (sp : SinglePlacement) (l t : String) : Prop where
  holds : ∃ destinations, Holds env c.caches c.state ep destinations ∧ sp ∈ destinations
  names : NamesPair env c.caches sp l t
  uncovered : ¬ CoveredPair env c ep l t

structure Passed (ep : String) (sp : SinglePlacement) (l t : String) (c c' : Config Sel) : Prop where
  run : Reconciles env c c'
  sound : Sound env kbSpaceID c'
  stranded : Stranded env c' ep sp l t
  caches : c'.caches = c.caches
  pending : ∀ item ∈ c'.pending, item ∈ c.pending

variable {env kbSpaceID} {ep : String} {c : Config Sel}

/-- A reconcile that does not come to the slice leaves the destination there, and uncovered: unless it records, with the
reconcile of the SyncTarget pending, that the EdgePlacement selects another Location. -/
theorem Stranded.effect (hStranded : Stranded env c ep sp l t) (hRes : Resolvable env kbSpaceID c.caches)
    (hEffect : Effect env item c c') (hEp : item ≠ .edgePlacement ep)
    (hLoc : item = .location l → ¬ Visits env c ep (.location l))
    (hSt : item = .syncTarget t → ¬ Visits env c ep (.syncTarget t))
    (hNew : .syncTarget t ∈ c.pending → ∀ l', item = .location l' → SelectsLoc env c.caches ep l' →
      c.state.store.epsBySelectedLoc.mem l' ep = true) :
    Stranded env c' ep sp l t := by
  obtain ⟨⟨before, hHolds, hMem⟩, hNames, hUncovered⟩ := hStranded
  have hKept : ¬ Clears env c ep sp item := by
    rintro ⟨hVisits, ⟨key, rfl⟩ | hHas⟩
    · exact hEp (congrArg _ (hVisits.elim Eq.symm Eq.symm))
    · cases item with
      | edgePlacement key => exact hHas
      | location key =>
        obtain rfl := location_eq_of_has hRes hHas hNames.1
        exact hLoc rfl hVisits
      | syncTarget key =>
        obtain rfl := syncTarget_eq_of_has hRes hHas hNames.2
        exact hSt rfl hVisits
  obtain ⟨after, hHolds', hAfter, -⟩ := hEffect.slices ep before hHolds
  refine ⟨⟨after, hEffect.caches.symm ▸ hHolds', hAfter sp hMem hKept⟩, hEffect.caches.symm ▸ hNames,
    fun hCovered => ?_⟩
  simp only [CoveredPair, Visits, Touched, Selecting, hEffect.caches, hEffect.pending,
    hEffect.locs_of_other hEp] at hCovered hLoc hUncovered
  push Not at hUncovered
  obtain ⟨hWrong, hNotEp, hNotLoc, hNotSt⟩ := hUncovered
  rcases hCovered with hRight | ⟨hPending, -⟩ | ⟨⟨hPending, hOther⟩, hVisits⟩ | ⟨⟨hPending, hOther⟩, hThrough⟩
  · exact hWrong hRight.1 hRight.2
  · exact hNotEp hPending
  · rw [if_neg hOther.symm] at hVisits
    exact hVisits.elim (hNotLoc hPending).1 (hNotLoc hPending).2
  · obtain ⟨hNotHere, hNotThere⟩ := hNotSt hPending
    rcases hThrough with ⟨hRec, hConnected⟩ | ⟨l', hRec, hSelects, hSelSt⟩
    · split at hRec
      · rename_i hItem
        exact hLoc hItem (.inr hRec)
      · rename_i hItem
        rw [hEffect.sts, if_neg (not_or.mpr ⟨hItem, hOther.symm⟩)] at hConnected
        exact hConnected.elim (hNotHere hRec).1 (hNotHere hRec).2
    · split at hRec
      · rename_i hItem
        exact hNotThere l' (hNew hPending l' hItem hSelects) hSelects hSelSt
      · exact hNotThere l' hRec hSelects hSelSt

theorem Passed.step (hPassed : Passed env kbSpaceID ep sp l t c c') (hSuccess : ∃ c₁, Reconciled env item c' c₁)
    (hEp : item ≠ .edgePlacement ep) (hLoc : item = .location l → ¬ Visits env c' ep (.location l))
    (hSt : item = .syncTarget t → ¬ Visits env c' ep (.syncTarget t))
    (hNew : .syncTarget t ∈ c'.pending → ∀ l', item = .location l' → SelectsLoc env c'.caches ep l' →
      c'.state.store.epsBySelectedLoc.mem l' ep = true) :
    ∃ c₁, Passed env kbSpaceID ep sp l t c c₁ ∧ Effect env item c' c₁ := by
  obtain ⟨c₁, hReconciled⟩ := hSuccess
  have hEffect := hReconciled.effect hPassed.sound.resolvable
  exact ⟨c₁, ⟨hPassed.run.tail ⟨item, hReconciled⟩, hPassed.sound.effect hEffect,
    hPassed.stranded.effect hPassed.sound.resolvable hEffect hEp hLoc hSt hNew, hEffect.caches.trans hPassed.caches,
    fun other hMem => hPassed.pending other ((hEffect.pending other).mp hMem).1⟩, hEffect⟩

theorem Passed.pass {selected : QueueItem → Prop} (hStart : Passed env kbSpaceID ep sp l t c c')
    (hStep : ∀ c₁, Passed env kbSpaceID ep sp l t c c₁ → (∀ item ∈ c₁.pending, item ∈ c'.pending) →
      ∀ item ∈ c₁.pending, selected item → ∃ c₂, Passed env kbSpaceID ep sp l t c c₂ ∧ Effect env item c₁ c₂)
    (items : List QueueItem) :
    ∃ c₁, Passed env kbSpaceID ep sp l t c c₁ ∧ (∀ item ∈ c₁.pending, item ∈ c'.pending) ∧
      ∀ item ∈ items, selected item → item ∉ c₁.pending := by
  induction items with
  | nil => exact ⟨c', hStart, fun _ h => h, fun _ h => absurd h not_mem_nil⟩
  | cons item rest ih =>
    obtain ⟨c₁, hPassed, hFewer, hRest⟩ := ih
    by_cases hItem : item ∈ c₁.pending ∧ selected item
    · obtain ⟨c₂, hPassed', hEffect⟩ := hStep c₁ hPassed hFewer item hItem.1 hItem.2
      refine ⟨c₂, hPassed', fun other hMem => hFewer other ((hEffect.pending other).mp hMem).1,
        fun other hMem hSelected hPending => ?_⟩
      obtain ⟨hPending, hNe⟩ := (hEffect.pending other).mp hPending
      rcases mem_cons.mp hMem with hEq | hMem
      · exact hNe hEq
      · exact hRest other hMem hSelected hPending
    · refine ⟨c₁, hPassed, hFewer, fun other hMem hSelected hPending => ?_⟩
      rcases mem_cons.mp hMem with rfl | hMem
      · exact hItem ⟨hPending, hSelected⟩
      · exact hRest other hMem hSelected hPending

end Passing

variable {env : Env Sel}

section Phases

variable {ep : String}
  {c : Config Sel} (hStart : Passed env kbSpaceID ep sp l t c c')

include hStart

theorem Passed.edgePlacement_ne (hPending : .edgePlacement key ∈ c'.pending) :
    QueueItem.edgePlacement key ≠ .edgePlacement ep := by
  intro hEq
  exact hStart.stranded.uncovered (.inr (.inl (hEq ▸ hPending)))

theorem Passed.not_visits_location (hPending : .location l ∈ c'.pending) : ¬ Visits env c' ep (.location l) :=
  fun hVisits => hStart.stranded.uncovered (.inr (.inr (.inl ⟨hPending, hVisits⟩)))

theorem Passed.edgePlacements : ∃ c₁, Passed env kbSpaceID ep sp l t c c₁ ∧ ∀ key, .edgePlacement key ∉ c₁.pending := by
  have hStep : ∀ c₁, Passed env kbSpaceID ep sp l t c c₁ → (∀ item ∈ c₁.pending, item ∈ c'.pending) →
      ∀ item ∈ c₁.pending, (∃ key, item = .edgePlacement key) →
        ∃ c₂, Passed env kbSpaceID ep sp l t c c₂ ∧ Effect env item c₁ c₂ := by
    rintro c₁ hPassed - item hMem ⟨key, rfl⟩
    refine hPassed.step (exists_reconciled_edgePlacement hPassed.sound.resolvable (hPassed.sound.pending _ hMem))
      (hPassed.edgePlacement_ne hMem) ?_ ?_ ?_
    · exact fun hItem => absurd hItem (by simp)
    · exact fun hItem => absurd hItem (by simp)
    · exact fun _ l' hItem => absurd hItem (by simp)
  obtain ⟨c₁, hPassed, hFewer, hNone⟩ := hStart.pass hStep c'.pending
  exact ⟨c₁, hPassed, fun key hMem => hNone _ (hFewer _ hMem) ⟨key, rfl⟩ hMem⟩

variable (hCalm : ∀ key, .edgePlacement key ∉ c'.pending)

include hCalm

theorem Passed.locations (hPending : .syncTarget t ∈ c'.pending) (ls : List String) :
    ∃ c₁, Passed env kbSpaceID ep sp l t c c₁ ∧ (∀ key, .edgePlacement key ∉ c₁.pending) ∧
      .syncTarget t ∈ c₁.pending ∧ ∀ l' ∈ ls, l' ≠ l → c₁.state.store.epsBySelectedLoc.mem l' ep = true →
        SelectsLoc env c₁.caches ep l' ∧ (c₁.state.store.locsBySelectedSt.mem t l' = true →
          SelectsSt env c₁.caches l' t) := by
  induction ls with
  | nil => exact ⟨c', hStart, hCalm, hPending, fun _ h => absurd h not_mem_nil⟩
  | cons l₀ rest ih =>
    obtain ⟨c₁, hPassed, hCalm, hPending, hRest⟩ := ih
    by_cases hRec : l₀ ≠ l ∧ c₁.state.store.epsBySelectedLoc.mem l₀ ep = true
    · obtain ⟨hNe, hRec⟩ := hRec
      obtain ⟨c₂, hPassed', hEffect⟩ := hPassed.step
        (hPassed.sound.exists_reconciled hCalm (hPassed.sound.known l₀ ep hRec).1) (by simp)
        (fun hItem => absurd (QueueItem.location.inj hItem) hNe) (fun hItem => absurd hItem (by simp))
        (fun _ l' hItem _ => QueueItem.location.inj hItem ▸ hRec)
      refine ⟨c₂, hPassed', fun key hMem => hCalm key ((hEffect.pending _).mp hMem).1,
        (hEffect.pending _).mpr ⟨hPending, by simp⟩, fun l' hMem hNe' => ?_⟩
      rw [hEffect.locs, hEffect.sts, hEffect.caches]
      by_cases hSame : l' = l₀
      · simp only [hSame, or_true, true_or, if_true]
        exact fun hSelects => ⟨hSelects, id⟩
      · simp only [QueueItem.location.injEq, Ne.symm hSame, or_false, reduceCtorEq, if_false]
        exact hRest l' ((mem_cons.mp hMem).resolve_left hSame) hNe'
    · refine ⟨c₁, hPassed, hCalm, hPending, fun l' hMem hNe hRec' => ?_⟩
      rcases mem_cons.mp hMem with rfl | hMem
      · exact absurd ⟨hNe, hRec'⟩ hRec
      · exact hRest l' hMem hNe hRec'

theorem Passed.syncTarget : ∃ c₁, Passed env kbSpaceID ep sp l t c c₁ ∧ (∀ key, .edgePlacement key ∉ c₁.pending) ∧
    .syncTarget t ∉ c₁.pending := by
  by_cases hPending : .syncTarget t ∈ c'.pending
  · obtain ⟨c₁, hPassed, hCalm, hPending, hConnected⟩ := hStart.locations hCalm hPending c'.caches.locations.keys
    have hMissed : ¬ Visits env c₁ ep (.syncTarget t) := by
      intro hVisits
      obtain ⟨l', hRec, hSt⟩ : ∃ l', c₁.state.store.epsBySelectedLoc.mem l' ep = true ∧
          (c₁.state.store.locsBySelectedSt.mem t l' = true ∨ SelectsSt env c₁.caches l' t) := by
        rcases hVisits with ⟨l', hSt, hRec⟩ | ⟨l', hSt, hRec⟩
        · exact ⟨l', hRec, .inl hSt⟩
        · exact ⟨l', hRec, .inr hSt⟩
      refine hPassed.stranded.uncovered (.inr (.inr (.inr ⟨hPending, ?_⟩)))
      by_cases hSame : l' = l
      · exact .inl (hSame ▸ ⟨hRec, hSt⟩)
      · obtain ⟨loc, hLoc⟩ := (hPassed.sound.known l' ep hRec).1
        rw [hPassed.caches, ← hStart.caches] at hLoc
        obtain ⟨hSelects, hSelSt⟩ := hConnected l' ((mem_keys_iff _ _).mpr ⟨loc, hLoc⟩) hSame hRec
        exact .inr ⟨l', hRec, hSelects, hSt.elim hSelSt id⟩
    obtain ⟨c₂, hPassed', hEffect⟩ := hPassed.step
      (hPassed.sound.exists_reconciled hCalm (hPassed.sound.pending _ hPending)) (by simp)
      (fun hItem => absurd hItem (by simp)) (fun _ => hMissed) (fun _ l' hItem => absurd hItem (by simp))
    exact ⟨c₂, hPassed', fun key hMem => hCalm key ((hEffect.pending _).mp hMem).1,
      fun hMem => ((hEffect.pending _).mp hMem).2 rfl⟩
  · exact ⟨c', hStart, hCalm, hPending⟩

theorem Passed.rest (hDone : .syncTarget t ∉ c'.pending) :
    ∃ c₁, Passed env kbSpaceID ep sp l t c c₁ ∧ c₁.pending = [] := by
  have hStep : ∀ c₁, Passed env kbSpaceID ep sp l t c c₁ → (∀ item ∈ c₁.pending, item ∈ c'.pending) →
      ∀ item ∈ c₁.pending, True → ∃ c₂, Passed env kbSpaceID ep sp l t c c₂ ∧ Effect env item c₁ c₂ := by
    intro c₁ hPassed hFewer item hMem _
    refine hPassed.step (hPassed.sound.exists_reconciled (fun key h => hCalm key (hFewer _ h))
      (hPassed.sound.pending _ hMem)) ?_ ?_ ?_ fun hPending => absurd (hFewer _ hPending) hDone
    · rintro rfl
      exact hCalm ep (hFewer _ hMem)
    · rintro rfl
      exact hPassed.not_visits_location hMem
    · rintro rfl
      exact absurd (hFewer _ hMem) hDone
  obtain ⟨c₁, hPassed, hFewer, hNone⟩ := hStart.pass hStep c'.pending
  refine ⟨c₁, hPassed, eq_nil_iff_forall_not_mem.mpr fun item hMem => ?_⟩
  exact hNone item (hFewer item hMem) trivial hMem

end Phases

/-- When the changes have stopped, whatever the order of the reconciles, no destination is left where it does not
belong: if and only if each of those that are there is covered. -/
theorem noOrphan_iff_covered {Sel : Type} (env : Env Sel) (kbSpaceID : String) (c : Config Sel)
    (hReachable : Reachable env kbSpaceID c) :
    (∀ c', Reconciles env c c' → c'.pending = [] → NoOrphan env c') ↔ Covered env c := by
  have hSound := hReachable.sound
  constructor
  · intro hAll ep destinations hHolds sp hMem l t hNames
    by_contra hUncovered
    have hStart : Passed env kbSpaceID ep sp l t c c :=
      ⟨.refl, hSound, ⟨⟨destinations, hHolds, hMem⟩, hNames, hUncovered⟩, rfl, fun _ h => h⟩
    obtain ⟨c₁, hPassed₁, hCalm₁⟩ := hStart.edgePlacements
    obtain ⟨c₂, hPassed₂, hCalm₂, hDone₂⟩ := hPassed₁.syncTarget hCalm₁
    obtain ⟨c₃, hPassed₃, hDone₃⟩ := hPassed₂.rest hCalm₂ hDone₂
    obtain ⟨⟨destinations', hHolds', hMem'⟩, hNames', hUncovered'⟩ := hPassed₃.stranded
    have hRightful := hAll c₃ hPassed₃.run hDone₃ ep destinations' hHolds' sp hMem'
    exact hUncovered' (.inl (hRightful.selects hPassed₃.sound.resolvable hNames'))
  · intro hCovered c' hRun hDone
    obtain ⟨hSound', hCovered'⟩ := hRun.covered hSound hCovered
    exact hCovered'.noOrphan hSound' hDone

section Changes

variable {caches : Caches Sel}
  (hRes : Resolvable env kbSpaceID caches)

include hRes

theorem Resolvable.change_edgePlacement {ep : EdgePlacement Sel} (hName : ep.objectMeta.name = key)
    (hResolves : Resolves env ep.objectMeta) (hValid : ∀ s ∈ ep.spec.locationSelectors, env.lib.asSelector s ≠ none) :
    Resolvable env kbSpaceID (caches.change (.edgePlacement key ep)) :=
  { hRes with edgePlacements := forall_get_put hRes.edgePlacements ⟨hName, hResolves, hValid⟩ }

theorem Resolvable.change_location {loc : Location Sel} (hName : loc.objectMeta.name = key)
    (hIds : ∃ original, analyzeClusterScopedObject (some loc.objectMeta) = .ok (original, kbSpaceID))
    (hValid : labelSelectorAsSelector env.lib loc.instanceSelector ≠ none) :
    Resolvable env kbSpaceID (caches.change (.location key loc)) :=
  { hRes with locations := forall_get_put hRes.locations ⟨hName, hIds, hValid⟩ }

theorem Resolvable.change_syncTarget {st : SyncTarget} (hName : st.objectMeta.name = key)
    (hIds : ∃ original, analyzeClusterScopedObject (some st.objectMeta) = .ok (original, kbSpaceID)) :
    Resolvable env kbSpaceID (caches.change (.syncTarget key st)) :=
  { hRes with syncTargets := forall_get_put hRes.syncTargets ⟨hName, hIds⟩ }

end Changes

def movedSyncTarget : SyncTarget := ⟨copyMeta "kb1" "st1" (GoMap.ofList [("site", "2")]), "uid1"⟩

def edgeReconcile (item : QueueItem) (c : Config (List (String × String))) : Config (List (String × String)) :=
  ⟨c.caches, (process edgeEnv edgeAttempt c.caches { c.state with cached := copiesOf edgeEnv c } item).1,
    c.pending.filter fun other => other ≠ item⟩

section Steps

variable {c : Config (List (String × String))} (hReach : Reachable edgeEnv "kb1" c)

include hReach

theorem Reachable.edgeReconcile (item : QueueItem) (hExists : Exists c.caches item)
    (hOk : (process edgeEnv edgeAttempt c.caches { c.state with cached := copiesOf edgeEnv c } item).2 = .ok ()) :
    Reachable edgeEnv "kb1" (edgeReconcile item c) :=
  .reconcile hReach
    (.intro edgeAttempt (copiesOf edgeEnv c) hExists (visible_copiesOf hReach.sound.resolvable) (Prod.ext rfl hOk))

theorem Reachable.edgeLocation : Reachable edgeEnv "kb1" (c.change (.location "kb1-edge1" edgeLocation)) :=
  .change hReach _ (hReach.sound.resolvable.change_location rfl
    ⟨"edge1", analyze_copyMeta "kb1" (by decide) _ _⟩ (some_ne_none _))

theorem Reachable.edgePlacement : Reachable edgeEnv "kb1" (c.change (.edgePlacement "kb2-ep1" edgePlacement)) :=
  .change hReach _ (hReach.sound.resolvable.change_edgePlacement rfl
    ⟨"ep1", "kb2", analyze_copyMeta "kb2" (by decide) _ _, by decide⟩ fun _ _ => some_ne_none _)

theorem Reachable.edgeSyncTarget (site : String) : Reachable edgeEnv "kb1"
    (c.change (.syncTarget "kb1-st1" ⟨copyMeta "kb1" "st1" (GoMap.ofList [("site", site)]), "uid1"⟩)) :=
  .change hReach _ (hReach.sound.resolvable.change_syncTarget rfl ⟨"st1", analyze_copyMeta "kb1" (by decide) _ _⟩)

end Steps

/-- The Location is reconciled, then the SyncTarget and the EdgePlacement are created and the EdgePlacement is
reconciled. The SyncTarget is relabelled before its reconcile. -/
def edgeStranded : Config (List (String × String)) :=
  (edgeReconcile (.edgePlacement "kb2-ep1") (((edgeReconcile (.location "kb1-edge1")
    (Config.start.change (.location "kb1-edge1" edgeLocation))).change (.syncTarget "kb1-st1" edgeSyncTarget)).change
      (.edgePlacement "kb2-ep1" edgePlacement))).change (.syncTarget "kb1-st1" movedSyncTarget)

theorem edgeStranded_reachable : Reachable edgeEnv "kb1" edgeStranded := by
  have hStart : Reachable edgeEnv "kb1" Config.start := .start (by decide)
  have hLoc := hStart.edgeLocation.edgeReconcile (.location "kb1-edge1") ⟨edgeLocation, rfl⟩ rfl
  exact ((hLoc.edgeSyncTarget "1").edgePlacement.edgeReconcile (.edgePlacement "kb2-ep1") ⟨edgePlacement, rfl⟩
    rfl).edgeSyncTarget "2"

/-- Every changed key has been reconciled, and the slice has a destination that the Location does not select. -/
theorem edgeStranded_leaves_orphan : ∃ c, Reachable edgeEnv "kb1" c ∧ c.pending = [] ∧
      c.state.slices.get ⟨"wds1", "ep1"⟩ = some [⟨"imw1", "edge1", "st1", "uid1"⟩] ∧ ¬ NoOrphan edgeEnv c := by
  refine ⟨edgeReconcile (.syncTarget "kb1-st1") edgeStranded,
    edgeStranded_reachable.edgeReconcile _ ⟨movedSyncTarget, rfl⟩
    rfl, rfl, rfl, fun hNoOrphan => ?_⟩
  obtain ⟨l, t, -, -, loc, st, hLoc, hSt, hSelects⟩ := hNoOrphan "kb2-ep1" _ ⟨edgePlacement, rfl, rfl⟩ _ mem_cons_self
  obtain ⟨rfl, rfl⟩ := eq_of_get_singleton hLoc
  obtain ⟨rfl, rfl⟩ : t = "kb1-st1" ∧ st = movedSyncTarget := by
    rw [edgeReconcile, edgeStranded, Config.change, Caches.change, get_put] at hSt
    split at hSt
    · rename_i hKey
      exact ⟨hKey, (Option.some.inj hSt).symm⟩
    · obtain ⟨hKey, -⟩ := eq_of_get_singleton hSt
      contradiction
  exact absurd hSelects (by decide)

/-- The Location, the SyncTarget and the EdgePlacement are created, the EdgePlacement and the Location are reconciled,
and the SyncTarget is relabelled. -/
def edgeMoved : Config (List (String × String)) :=
  (edgeReconcile (.location "kb1-edge1") (edgeReconcile (.edgePlacement "kb2-ep1")
    (((Config.start.change (.location "kb1-edge1" edgeLocation)).change (.syncTarget "kb1-st1" edgeSyncTarget)).change
      (.edgePlacement "kb2-ep1" edgePlacement)))).change (.syncTarget "kb1-st1" movedSyncTarget)

theorem edgeMoved_reachable : Reachable edgeEnv "kb1" edgeMoved := by
  have hStart : Reachable edgeEnv "kb1" Config.start := .start (by decide)
  have hEp := (hStart.edgeLocation.edgeSyncTarget "1").edgePlacement.edgeReconcile (.edgePlacement "kb2-ep1")
    ⟨edgePlacement, rfl⟩ rfl
  exact (hEp.edgeReconcile (.location "kb1-edge1") ⟨edgeLocation, rfl⟩ rfl).edgeSyncTarget "2"

theorem edgeMoved_covered : Covered edgeEnv edgeMoved := by
  rintro ep destinations ⟨epObj, hEp, -⟩ sp - l t ⟨⟨loc, -, -, hLoc, -⟩, ⟨st, -, -, hSt, -⟩⟩
  obtain ⟨rfl, -⟩ := eq_of_get_singleton hEp
  obtain ⟨rfl, -⟩ := eq_of_get_singleton hLoc
  obtain rfl : t = "kb1-st1" := by
    by_contra hNe
    exact hNe (eq_of_get_singleton hSt).1
  exact .inr (.inr (.inr ⟨mem_cons_self, .inl ⟨rfl, .inl rfl⟩⟩))

theorem noOrphan_iff_covered_moved :
    edgeMoved.state.slices.get ⟨"wds1", "ep1"⟩ = some [⟨"imw1", "edge1", "st1", "uid1"⟩] ∧
      ∀ c', Reconciles edgeEnv edgeMoved c' → c'.pending = [] → NoOrphan edgeEnv c' :=
  ⟨rfl, (noOrphan_iff_covered edgeEnv "kb1" edgeMoved edgeMoved_reachable).mpr edgeMoved_covered⟩

end KubeStellar.WhereResolver
