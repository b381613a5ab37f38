import KubeStellar.WhereResolver.Rounds

/-! # Retries after a partial failure

The store is updated before the slices, so a reconcile that fails halfway is repeated with another store: an
EdgePlacement that is no longer connected with the object is not visited again.
-/

namespace KubeStellar.WhereResolver

variable {Sel : Type} (env : Env Sel) (caches : Caches Sel) (item : QueueItem)

structure Try where
  attempt : Attempt
  found : String → Bool

def Try.hide (t : Try) (s : State) : State := { s with cached := s.cached.filterKeys t.found }

/-- A reconcile for which some of the copies are missing. They are there again afterwards. -/
def Try.run (t : Try) (s : State) : Outcome :=
  let outcome := process env t.attempt caches (t.hide s) item
  ({ outcome.1 with cached := s.cached.putAll outcome.1.cached.entries }, outcome.2)

/-- The key is reconciled again and again until that succeeds, and nothing else happens. -/
inductive Retried : State → State → Prop
  | success {s s' : State} (t : Try) (hOk : t.run env caches item s = (s', .ok ())) : Retried s s'
  | failure {s s₁ s' : State} (t : Try) (fault : Fault) (hFault : t.run env caches item s = (s₁, .error fault))
      (hRest : Retried s₁ s') : Retried s s'

def InSlice (s : State) (ref : ExternalName) (sp : SinglePlacement) : Prop :=
  ∃ destinations, s.slices.get ref = some destinations ∧ sp ∈ destinations

def SameDestinations (s s' : State) : Prop := ∀ ref sp, InSlice s ref sp ↔ InSlice s' ref sp

structure Plan (selecting : String → Prop) (extra : String → Prop) (keeps : SinglePlacement → Bool)
    (adds : String → SinglePlacement → Prop) : Prop where
  adds_selecting : ∀ ep sp, adds ep sp → selecting ep
  run : ∀ attempt s, (∀ ep, Selecting env caches s.store ep item ↔ selecting ep) → ∃ store names body,
    process env attempt caches s item = forEachEp body { s with store := store } names ∧ names.Nodup ∧
    (∀ ep, ep ∈ names ↔ Touched s.store ep item ∨ selecting ep) ∧
    (∀ ep, Selecting env caches store ep item ↔ selecting ep) ∧ (∀ ep, Touched store ep item → selecting ep) ∧
    ∀ s name, Round env attempt extra keeps adds name s (body s name)

/-- What one attempt at an item does, whether or not it succeeds. -/
structure Tried (selecting : String → Prop) (extra : String → Prop) (keeps : SinglePlacement → Bool)
    (adds : String → SinglePlacement → Prop) (t : Try) (s : State) (outcome : Outcome) : Prop where
  selects : ∀ ep, Selecting env caches outcome.1.store ep item ↔ selecting ep
  touched : ∀ ep, Touched outcome.1.store ep item → selecting ep
  copies : SameCopies keeps s.cached outcome.1.cached
  slices : ∀ ref, outcome.1.slices.has ref = s.slices.has ref
  ready : outcome.2 = .ok () ↔ ∀ ep, Touched s.store ep item ∨ selecting ep → Ready env t.attempt extra (t.hide s) ep
  written : outcome.2 = .ok () → ∀ ep, Touched s.store ep item ∨ selecting ep →
    Written env keeps adds s ep outcome.1.slices
  otherwise : ∀ ref, outcome.1.slices.get ref = s.slices.get ref ∨ ∃ ep, (Touched s.store ep item ∨ selecting ep) ∧
    Ready env t.attempt extra (t.hide s) ep ∧ (∃ sps, s.cached.get ep = some sps ∧ consumer env sps.objectMeta = ref) ∧
      Written env keeps adds s ep outcome.1.slices

def OneEach (s : State) : Prop := ∀ name name' sps sps', s.cached.get name = some sps → s.cached.get name' = some sps' →
  consumer env sps.objectMeta = consumer env sps'.objectMeta → name = name'

variable {env caches item} {selecting extra : String → Prop} {keeps : SinglePlacement → Bool}
  {adds : String → SinglePlacement → Prop} {s s' : State}

theorem get_hide {t : Try} {name : String} {sps : SinglePlacementSlice}
    (hSps : (t.hide s).cached.get name = some sps) : s.cached.get name = some sps := by
  rw [Try.hide, GoMap.get_filterKeys] at hSps
  split at hSps
  · exact hSps
  · cases hSps

theorem sameCopies_restore {t : Try} {cached : GoMap String SinglePlacementSlice}
    (hCopies : SameCopies keeps (t.hide s).cached cached) :
    SameCopies keeps s.cached (s.cached.putAll cached.entries) := by
  intro name
  rw [GoMap.get_putAll_entries]
  rcases hCopies name with ⟨-, hNone⟩ | ⟨sps, sps', hSps, hSps', hSame⟩
  · rw [hNone, Option.none_or]
    exact SameCopies.refl s.cached name
  · exact .inr ⟨sps, sps', get_hide hSps, by rw [hSps', Option.some_or], hSame⟩

theorem Plan.tried (plan : Plan env caches item selecting extra keeps adds) (hOne : OneEach env s)
    (hSelecting : ∀ ep, Selecting env caches s.store ep item ↔ selecting ep) (t : Try) :
    Tried env caches item selecting extra keeps adds t s (t.run env caches item s) := by
  obtain ⟨store, names, body, hRun, hNodup, hNames, hStore, hTouched, hBody⟩ := plan.run t.attempt (t.hide s) hSelecting
  have hRounds := forEachEp_rounds hBody hNodup (s := { t.hide s with store := store })
    fun name name' sps sps' hSps hSps' => hOne name name' sps sps' (get_hide hSps) (get_hide hSps')
  rw [← hRun] at hRounds
  have hWritten : ∀ {ep slices}, Written env keeps adds { t.hide s with store := store } ep slices →
      Written env keeps adds s ep slices := by
    rintro ep slices ⟨sps, next, hSps, hNext, hMem⟩
    exact ⟨sps, next, get_hide hSps, hNext, hMem⟩
  refine ⟨fun ep => ?_, fun ep => ?_, sameCopies_restore hRounds.copies, hRounds.slices, ?_, fun hOk ep hEp => ?_,
    fun ref => ?_⟩
  · rw [Try.run, hRounds.store]
    exact hStore ep
  · rw [Try.run, hRounds.store]
    exact hTouched ep
  · exact hRounds.ready.trans (forall_congr' fun ep => imp_congr_left (hNames ep))
  · exact hWritten (hRounds.written hOk ep ((hNames ep).mpr hEp))
  · rcases hRounds.otherwise ref with hSame | ⟨ep, hEp, hReady, ⟨sps, hSps, hRef⟩, hSlice⟩
    · exact .inl hSame
    · exact .inr ⟨ep, (hNames ep).mp hEp, hReady, ⟨sps, get_hide hSps, hRef⟩, hWritten hSlice⟩

theorem OneEach.congr (hOne : OneEach env s) (hCopies : SameCopies keeps s.cached s'.cached) : OneEach env s' := by
  intro name name' sps sps' hSps hSps' hEq
  obtain ⟨old, hOld, hSame⟩ := hCopies.symm.get hSps
  obtain ⟨old', hOld', hSame'⟩ := hCopies.symm.get hSps'
  exact hOne name name' old old' hOld hOld' (by rw [hSame.objectMeta, hSame'.objectMeta, hEq])

/-- What all attempts so far have kept of the state before them. -/
structure Since (env : Env Sel) (caches : Caches Sel) (item : QueueItem) (selecting : String → Prop)
    (keeps : SinglePlacement → Bool) (s₀ s : State) : Prop where
  selects : ∀ ep, Selecting env caches s.store ep item ↔ selecting ep
  touched : ∀ ep, Touched s.store ep item → Touched s₀.store ep item ∨ selecting ep
  copies : SameCopies keeps s₀.cached s.cached
  others : ∀ ref, (∀ ep sps, selecting ep → s₀.cached.get ep = some sps → consumer env sps.objectMeta ≠ ref) →
    ∀ sp, InSlice s ref sp ↔ InSlice s₀ ref sp

/-- The slices of the selecting EdgePlacements are written, and no others. -/
structure Settled (env : Env Sel) (selecting : String → Prop) (keeps : SinglePlacement → Bool)
    (adds : String → SinglePlacement → Prop) (s₀ s : State) : Prop where
  written : ∀ ep, selecting ep → Written env keeps adds s₀ ep s.slices
  others : ∀ ref, (∀ ep sps, selecting ep → s₀.cached.get ep = some sps → consumer env sps.objectMeta ≠ ref) →
    ∀ sp, InSlice s ref sp ↔ InSlice s₀ ref sp

theorem Settled.same {s₀ : State} (h : Settled env selecting keeps adds s₀ s)
    (h' : Settled env selecting keeps adds s₀ s') : SameDestinations s s' := by
  intro ref sp
  by_cases hRef : ∃ ep sps, selecting ep ∧ s₀.cached.get ep = some sps ∧ consumer env sps.objectMeta = ref
  · obtain ⟨ep, sps, hEp, hSps, rfl⟩ := hRef
    have hMem : ∀ {s}, Settled env selecting keeps adds s₀ s →
        (InSlice s (consumer env sps.objectMeta) sp ↔ (sp ∈ sps.destinations ∧ keeps sp = true) ∨ adds ep sp) := by
      intro s hSettled
      obtain ⟨sps', next, hSps', hNext, hMem⟩ := hSettled.written ep hEp
      obtain rfl := Option.mem_unique hSps hSps'
      simp [InSlice, hNext, hMem]
    rw [hMem h, hMem h']
  · have hNone : ∀ ep sps, selecting ep → s₀.cached.get ep = some sps → consumer env sps.objectMeta ≠ ref :=
      fun ep sps hEp hSps hEq => hRef ⟨ep, sps, hEp, hSps, hEq⟩
    rw [h.others ref hNone, h'.others ref hNone]

variable {s₀ : State} (plan : Plan env caches item selecting extra keeps adds) (hOne : OneEach env s₀)
  (hSlices : ∀ name sps, s₀.cached.get name = some sps →
    s₀.slices.get (consumer env sps.objectMeta) = some sps.destinations)

include plan hOne hSlices

variable (hNothing : ∀ ep sps sp, Touched s₀.store ep item → ¬ selecting ep → s₀.cached.get ep = some sps →
  sp ∈ sps.destinations → keeps sp = true)

include hNothing

theorem Since.step (hSince : Since env caches item selecting keeps s₀ s) (t : Try) :
    Since env caches item selecting keeps s₀ (t.run env caches item s).1 ∧
      ((t.run env caches item s).2 = .ok () → Settled env selecting keeps adds s₀ (t.run env caches item s).1) := by
  have hTried := plan.tried (hOne.congr hSince.copies) hSince.selects t
  have hOthers : ∀ ref, (∀ ep sps, selecting ep → s₀.cached.get ep = some sps → consumer env sps.objectMeta ≠ ref) →
      ∀ sp, InSlice (t.run env caches item s).1 ref sp ↔ InSlice s₀ ref sp := by
    intro ref hRef sp
    rcases hTried.otherwise ref with hSame | ⟨ep, hEp, -, ⟨sps, hSps, rfl⟩, hWritten⟩
    · rw [InSlice, hSame]
      exact hSince.others ref hRef sp
    · -- the EdgePlacement does not select the object any more
      obtain ⟨sps₀, hSps₀, hSame⟩ := hSince.copies.symm.get hSps
      have hNot : ¬ selecting ep := fun h => hRef ep sps₀ h hSps₀ (by rw [hSame.objectMeta])
      have hTouched := (hSince.touched ep (hEp.resolve_right hNot)).resolve_right hNot
      obtain ⟨sps', next, hSps', hNext, hMem⟩ := hWritten
      obtain rfl := Option.mem_unique hSps hSps'
      have hKeeps : sp ∈ sps₀.destinations → keeps sp = true := hNothing ep sps₀ sp hTouched hNot hSps₀
      have hSlice := hSlices ep sps₀ hSps₀
      rw [hSame.objectMeta] at hSlice
      simp only [InSlice, hNext, hSlice, Option.some.injEq, exists_eq_left', hMem, ← hSame.mem_iff]
      constructor
      · rintro (h | h)
        · exact h.1
        · exact absurd (plan.adds_selecting ep sp h) hNot
      · exact fun h => .inl ⟨h, hKeeps h⟩
  refine ⟨⟨hTried.selects, fun ep h => .inr (hTried.touched ep h), hSince.copies.trans hTried.copies, hOthers⟩,
    fun hOk => ⟨fun ep hEp => ?_, hOthers⟩⟩
  exact Written.congr env adds hSince.copies.symm (hTried.written hOk ep (.inr hEp))

theorem Retried.settled
    (hRetried : Retried env caches item s s') (hSince : Since env caches item selecting keeps s₀ s) :
    Settled env selecting keeps adds s₀ s' := by
  induction hRetried with
  | @success s s' t hOk =>
    have hStep := (hSince.step plan hOne hSlices hNothing t).2
    rw [hOk] at hStep
    exact hStep rfl
  | @failure s s₁ s' t fault hFault hRest ih =>
    refine ih ?_
    have hStep := (hSince.step plan hOne hSlices hNothing t).1
    rwa [hFault] at hStep

omit hNothing

omit plan hOne hSlices in
theorem hide_all (attempt : Attempt) (s : State) : (⟨attempt, fun _ => true⟩ : Try).hide s = s := by
  rw [Try.hide, GoMap.filterKeys_true]

theorem Plan.retries_iff (hSelecting : ∀ ep, Selecting env caches s₀.store ep item ↔ selecting ep) {attempt : Attempt}
    {clean : State} (hClean : process env attempt caches s₀ item = (clean, .ok ())) :
    (∀ s', Retried env caches item s₀ s' → SameDestinations s' clean) ↔
      ∀ ep sps sp, Touched s₀.store ep item → ¬ selecting ep → s₀.cached.get ep = some sps → sp ∈ sps.destinations →
        keeps sp = true := by
  have hRun : ((⟨attempt, fun _ => true⟩ : Try).run env caches item s₀).1.slices = clean.slices ∧
      ((⟨attempt, fun _ => true⟩ : Try).run env caches item s₀).2 = .ok () := by
    rw [Try.run, hide_all, hClean]
    exact ⟨rfl, rfl⟩
  have hTried := plan.tried hOne hSelecting ⟨attempt, fun _ => true⟩
  constructor
  · intro hSame ep sps sp hTouched hNot hSps hSp
    by_contra hRemoved
    obtain ⟨sps', originalName, spaceID, hSps', hCons, -⟩ := hTried.ready.mp hRun.2 ep (.inl hTouched)
    rw [hide_all] at hSps'
    obtain rfl := Option.mem_unique hSps hSps'
    have hRef := getConsumerSpaceForSPS_ok hCons
    -- the first try fails at the patch of this slice
    let first : Try := ⟨{ attempt with patches := fun ref => ref ≠ consumer env sps.objectMeta && attempt.patches ref },
      fun _ => true⟩
    have hFirst := plan.tried hOne hSelecting first
    have hNotReady : ¬ Ready env first.attempt extra (first.hide s₀) ep := by
      rintro ⟨_, _, _, hSome, hOk, -, hPatches, -⟩
      obtain rfl := Option.some.inj (hSps.symm.trans (get_hide hSome))
      obtain ⟨rfl, rfl⟩ := Prod.mk.inj (Except.ok.inj (hCons.symm.trans hOk))
      simp [first, hRef] at hPatches
    have hStill : (first.run env caches item s₀).1.slices.get (consumer env sps.objectMeta) =
        s₀.slices.get (consumer env sps.objectMeta) := by
      rcases hFirst.otherwise (consumer env sps.objectMeta) with h | ⟨ep', -, hReady, ⟨sps', hSps', hEq⟩, -⟩
      · exact h
      · rw [hOne ep' ep sps' sps hSps' hSps hEq] at hReady
        exact absurd hReady hNotReady
    cases hOutcome : first.run env caches item s₀ with
    | mk s₁ result =>
    rw [hOutcome] at hFirst hStill
    cases result with
    | ok _ => exact hNotReady (hFirst.ready.mp rfl ep (.inl hTouched))
    | error fault =>
      -- the second one does not come back to it
      have hSecond := plan.tried (hOne.congr hFirst.copies) hFirst.selects ⟨attempt, fun _ => true⟩
      have hOk : ((⟨attempt, fun _ => true⟩ : Try).run env caches item s₁).2 = .ok () := by
        refine hSecond.ready.mpr fun ep' hEp' => ?_
        have hReady := hTried.ready.mp hRun.2 ep' (.inr (hEp'.elim (hFirst.touched ep') id))
        rw [hide_all] at hReady ⊢
        exact hReady.congr env attempt extra hFirst.copies hFirst.slices
      have hAgain : ((⟨attempt, fun _ => true⟩ : Try).run env caches item s₁).1.slices.get
        (consumer env sps.objectMeta) =
          s₁.slices.get (consumer env sps.objectMeta) := by
        rcases hSecond.otherwise (consumer env sps.objectMeta) with h | ⟨ep', hEp', -, ⟨sps', hSps', hEq⟩, -⟩
        · exact h
        · obtain ⟨old, hOld, hCopy⟩ := hFirst.copies.symm.get hSps'
          have hEp := hOne ep' ep old sps hOld hSps (by rw [hCopy.objectMeta, hEq])
          exact absurd (hEp ▸ hEp'.elim (hFirst.touched ep') id) hNot
      have hRetried : Retried env caches item s₀ ((⟨attempt, fun _ => true⟩ : Try).run env caches item s₁).1 :=
        .failure first fault hOutcome (.success ⟨attempt, fun _ => true⟩ (Prod.ext rfl hOk))
      have hStale : InSlice ((⟨attempt, fun _ => true⟩ : Try).run env caches item s₁).1
          (consumer env sps.objectMeta) sp :=
        ⟨sps.destinations, by rw [hAgain, hStill, hSlices ep sps hSps], hSp⟩
      obtain ⟨destinations, hDests, hMem⟩ := (hSame _ hRetried _ sp).mp hStale
      obtain ⟨sps', next, hSps', hNext, hNextMem⟩ := hTried.written hRun.2 ep (.inl hTouched)
      obtain rfl := Option.mem_unique hSps hSps'
      rw [hRun.1, hDests] at hNext
      rcases (hNextMem sp).mp (Option.some.inj hNext ▸ hMem) with h | h
      · exact hRemoved h.2
      · exact hNot (plan.adds_selecting ep sp h)
  · intro hNothing s' hRetried
    have hSince : Since env caches item selecting keeps s₀ s₀ :=
      ⟨hSelecting, fun _ h => .inl h, SameCopies.refl _, fun _ _ _ => Iff.rfl⟩
    have hCleanSettled := (hSince.step plan hOne hSlices hNothing ⟨attempt, fun _ => true⟩).2 hRun.2
    intro ref sp
    rw [(hRetried.settled plan hOne hSlices hNothing hSince).same hCleanSettled ref sp, InSlice, InSlice, hRun.1]

end KubeStellar.WhereResolver
