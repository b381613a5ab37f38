import KubeStellar.WhereResolver.Convergence

/-! # Rounds of a reconcile that may fail

What the loop over EdgePlacements leaves behind wherever it stops. Whether it gets to its end is decided by what it
finds before the first round.
-/

namespace KubeStellar.WhereResolver

open List GoMap

variable {cached cached' : GoMap String SinglePlacementSlice} {name : String} {sps sps' : SinglePlacementSlice}
  {s s' : State} {adds : String → SinglePlacement → Prop} {Sel : Type}

structure SameCopy (keeps : SinglePlacement → Bool) (sps sps' : SinglePlacementSlice) : Prop where
  objectMeta : sps'.objectMeta = sps.objectMeta
  kept : sps'.destinations.filter keeps = sps.destinations.filter keeps

def SameCopies (keeps : SinglePlacement → Bool) (cached cached' : GoMap String SinglePlacementSlice) : Prop :=
  ∀ name, (cached.get name = none ∧ cached'.get name = none) ∨
    ∃ sps sps', cached.get name = some sps ∧ cached'.get name = some sps' ∧ SameCopy keeps sps sps'

variable (env : Env Sel) (attempt : Attempt) (extra : String → Prop)

def Ready (s : State) (name : String) : Prop :=
  ∃ sps originalName spaceID, s.cached.get name = some sps ∧
    getConsumerSpaceForSPS env sps = .ok (originalName, spaceID) ∧ attempt.client spaceID = true ∧
    attempt.patches ⟨spaceID, originalName⟩ = true ∧ s.slices.has ⟨spaceID, originalName⟩ = true ∧ extra name

variable (keeps : SinglePlacement → Bool) (adds : String → SinglePlacement → Prop)

def Written (s : State) (name : String) (slices : GoMap ExternalName (List SinglePlacement)) : Prop :=
  ∃ sps next, s.cached.get name = some sps ∧ slices.get (consumer env sps.objectMeta) = some next ∧
    ∀ sp, sp ∈ next ↔ (sp ∈ sps.destinations ∧ keeps sp = true) ∨ adds name sp

/-- What one pass of the loop over EdgePlacements does, for `name`. -/
structure Round (name : String) (s : State) (outcome : Outcome) : Prop where
  store : outcome.1.store = s.store
  others : ∀ other, other ≠ name → outcome.1.cached.get other = s.cached.get other
  copies : SameCopies keeps s.cached outcome.1.cached
  slices : ∀ ref, outcome.1.slices.has ref = s.slices.has ref
  ready : outcome.2 = .ok () ↔ Ready env attempt extra s name
  failed : outcome.2 ≠ .ok () → outcome.1.slices = s.slices
  written : outcome.2 = .ok () → Written env keeps adds s name outcome.1.slices
  untouched : ∀ ref, (∀ sps, s.cached.get name = some sps → consumer env sps.objectMeta ≠ ref) →
    outcome.1.slices.get ref = s.slices.get ref

variable {keeps}

theorem SameCopies.refl (cached : GoMap String SinglePlacementSlice) : SameCopies keeps cached cached := by
  intro name
  cases hGet : cached.get name with
  | none => exact .inl ⟨rfl, rfl⟩
  | some sps => exact .inr ⟨sps, sps, rfl, rfl, rfl, rfl⟩

variable (h : SameCopies keeps cached cached')

include h

theorem SameCopies.trans {cached'' : GoMap String SinglePlacementSlice}
    (h' : SameCopies keeps cached' cached'') : SameCopies keeps cached cached'' := by
  intro name
  rcases h name with ⟨hNone, hNone'⟩ | ⟨sps, sps', hSps, hSps', hSame⟩
  · rcases h' name with ⟨-, hNone''⟩ | ⟨_, _, hSome, _⟩
    · exact .inl ⟨hNone, hNone''⟩
    · rw [hNone'] at hSome
      cases hSome
  · rcases h' name with ⟨hNone, -⟩ | ⟨_, sps'', hSome, hSps'', hSame'⟩
    · rw [hSps'] at hNone
      cases hNone
    · obtain rfl := Option.mem_unique hSps' hSome
      exact .inr ⟨sps, sps'', hSps, hSps'', hSame'.objectMeta.trans hSame.objectMeta, hSame'.kept.trans hSame.kept⟩

theorem SameCopies.symm : SameCopies keeps cached' cached := by
  intro name
  rcases h name with ⟨hNone, hNone'⟩ | ⟨sps, sps', hSps, hSps', hSame⟩
  · exact .inl ⟨hNone', hNone⟩
  · exact .inr ⟨sps', sps, hSps', hSps, hSame.objectMeta.symm, hSame.kept.symm⟩

theorem SameCopies.get (hSps : cached.get name = some sps) :
    ∃ sps', cached'.get name = some sps' ∧ SameCopy keeps sps sps' := by
  rcases h name with ⟨hNone, -⟩ | ⟨_, sps', hSome, hSps', hSame⟩
  · rw [hSps] at hNone
    cases hNone
  · obtain rfl := Option.mem_unique hSps hSome
    exact ⟨sps', hSps', hSame⟩

omit h

theorem SameCopy.mem_iff (h : SameCopy keeps sps sps') (sp : SinglePlacement) :
    (sp ∈ sps'.destinations ∧ keeps sp = true) ↔ sp ∈ sps.destinations ∧ keeps sp = true := by
  rw [← mem_filter, h.kept, mem_filter]

theorem Ready.congr (hCopies : SameCopies keeps s.cached s'.cached)
    (hSlices : ∀ ref, s'.slices.has ref = s.slices.has ref) (h : Ready env attempt extra s name) :
    Ready env attempt extra s' name := by
  obtain ⟨sps, originalName, spaceID, hSps, hCons, hClient, hPatches, hHas, hExtra⟩ := h
  obtain ⟨sps', hSps', hSame⟩ := hCopies.get hSps
  refine ⟨sps', originalName, spaceID, hSps', ?_, hClient, hPatches, (hSlices _).trans hHas, hExtra⟩
  rw [← hCons, getConsumerSpaceForSPS, getConsumerSpaceForSPS, hSame.objectMeta]

theorem Written.congr (hCopies : SameCopies keeps s.cached s'.cached)
    {slices : GoMap ExternalName (List SinglePlacement)} (h : Written env keeps adds s name slices) :
    Written env keeps adds s' name slices := by
  obtain ⟨sps, next, hSps, hNext, hMem⟩ := h
  obtain ⟨sps', hSps', hSame⟩ := hCopies.get hSps
  refine ⟨sps', next, hSps', hSame.objectMeta ▸ hNext, fun sp => ?_⟩
  rw [hMem, hSame.mem_iff]

theorem sameCopies_put (hSps : cached.get name = some sps) (hSame : SameCopy keeps sps sps') :
    SameCopies keeps cached (cached.put name sps') := by
  intro other
  rw [get_put]
  split
  · rename_i hName
    exact .inr ⟨sps, sps', hName ▸ hSps, rfl, hSame⟩
  · exact SameCopies.refl cached other

variable {env attempt extra adds}

theorem error_ne_ok (fault : Fault) : (.error fault : Except Fault Unit) ≠ .ok () := by
  intro h
  cases h

theorem Round.stopped {fault : Fault} (hCopies : SameCopies keeps s.cached cached)
    (hOthers : ∀ other, other ≠ name → cached.get other = s.cached.get other)
    (hReady : ¬ Ready env attempt extra s name) :
    Round env attempt extra keeps adds name s ({ s with cached := cached }, .error fault) where
  store := rfl
  others := hOthers
  copies := hCopies
  slices _ := rfl
  ready := iff_of_false (error_ne_ok fault) hReady
  failed _ := rfl
  written h := absurd h (error_ne_ok fault)
  untouched _ _ := rfl

theorem Round.patched {originalName spaceID : String} {singles : List SinglePlacement}
    (hSps : s.cached.get name = some sps) (hCons : getConsumerSpaceForSPS env sps = .ok (originalName, spaceID))
    (hExtra : extra name) (hAdds : ∀ sp, sp ∈ singles ↔ adds name sp) (hSingles : ∀ sp ∈ singles, keeps sp = false) :
    Round env attempt extra keeps adds name s (patchSpsDestinations attempt
      { s with cached := s.cached.put name { sps with destinations := sps.destinations.filter keeps ++ singles } }
      (sps.destinations.filter keeps ++ singles) spaceID originalName) := by
  have hCopies : SameCopies keeps s.cached
      (s.cached.put name { sps with destinations := sps.destinations.filter keeps ++ singles }) :=
    sameCopies_put hSps ⟨rfl, by simpa using hSingles⟩
  have hOthers : ∀ other, other ≠ name →
      (s.cached.put name { sps with destinations := sps.destinations.filter keeps ++ singles }).get other =
        s.cached.get other := fun other hNe => (get_put _ _ _ _).trans (if_neg hNe)
  have hReady : Ready env attempt extra s name ↔ attempt.client spaceID = true ∧
      attempt.patches ⟨spaceID, originalName⟩ = true ∧ s.slices.has ⟨spaceID, originalName⟩ = true := by
    constructor
    · rintro ⟨_, _, _, hSome, hOk, hClient, hPatches, hHas, -⟩
      obtain rfl := Option.mem_unique hSps hSome
      obtain ⟨rfl, rfl⟩ := Prod.mk.inj (Except.ok.inj (hCons.symm.trans hOk))
      exact ⟨hClient, hPatches, hHas⟩
    · rintro ⟨hClient, hPatches, hHas⟩
      exact ⟨sps, originalName, spaceID, hSps, hCons, hClient, hPatches, hHas, hExtra⟩
  rw [patchSpsDestinations]
  split
  · rename_i hClient
    refine Round.stopped hCopies hOthers fun h => ?_
    simp [(hReady.mp h).1] at hClient
  · split
    · rename_i hPatch
      refine Round.stopped hCopies hOthers fun h => ?_
      obtain ⟨-, hPatches, hHas⟩ := hReady.mp h
      simp [hPatches, hHas] at hPatch
    · have hAll : attempt.client spaceID = true ∧ attempt.patches ⟨spaceID, originalName⟩ = true ∧
          s.slices.has ⟨spaceID, originalName⟩ = true := by simp_all
      refine ⟨rfl, hOthers, hCopies, fun ref => ?_, iff_of_true rfl (hReady.mpr hAll),
        fun h => absurd rfl h, fun _ => ?_,
        fun ref hRef => ?_⟩
      · simp only [GoMap.has, get_put]
        split
        · rename_i hRef
          rw [hRef]
          exact hAll.2.2.symm
        · rfl
      · refine ⟨sps, sps.destinations.filter keeps ++ singles, hSps, ?_, fun sp => ?_⟩
        · rw [getConsumerSpaceForSPS_ok hCons]
          exact (get_put _ _ _ _).trans (if_pos rfl)
        · rw [mem_append, mem_filter, hAdds]
      · have hNe := hRef sps hSps
        rw [getConsumerSpaceForSPS_ok hCons] at hNe
        exact (get_put _ _ _ _).trans (if_neg fun h => hNe h.symm)

theorem updateForLoc_round (attempt : Attempt) (locSpaceID locOriginalName : String)
    {singles : String → List SinglePlacement} (hAdds : ∀ name sp, sp ∈ singles name ↔ adds name sp)
    (hSingles : ∀ name, ∀ sp ∈ singles name, sp.cluster = locSpaceID ∧ sp.locationName = locOriginalName) (s : State)
    (name : String) :
    Round env attempt (fun _ => True)
      (fun sp => sp.cluster ≠ locSpaceID || sp.locationName ≠ locOriginalName) adds name s
      (updateForLoc env attempt locSpaceID locOriginalName (singles name) s name) := by
  rw [updateForLoc]
  split
  · rename_i hGet
    refine Round.stopped (SameCopies.refl _) (fun _ _ => rfl) ?_
    rintro ⟨_, _, _, hSome, -⟩
    rw [hGet] at hSome
    cases hSome
  · rename_i sps hGet
    split
    · rename_i hCons
      refine Round.stopped (SameCopies.refl _) (fun _ _ => rfl) ?_
      rintro ⟨_, _, _, hSome, hOk, -⟩
      obtain rfl := Option.mem_unique hGet hSome
      rw [hCons] at hOk
      cases hOk
    · rename_i hCons
      exact Round.patched hGet hCons trivial (hAdds name) fun sp hMem => by simp [hSingles name sp hMem]

theorem updateForSt_round (attempt : Attempt) (stSpaceID stOriginalName : String)
    {additional : String → Except Fault (List SinglePlacement)}
    (hAdds : ∀ name l, additional name = .ok l → ∀ sp, sp ∈ l ↔ adds name sp)
    (hSingles : ∀ name l, additional name = .ok l → ∀ sp ∈ l, sp.cluster = stSpaceID ∧
      sp.syncTargetName = stOriginalName)
    {extra : String → Prop} (hExtra : ∀ name, extra name ↔ ∃ l, additional name = .ok l) (s : State) (name : String) :
    Round env attempt extra (fun sp => sp.cluster ≠ stSpaceID || sp.syncTargetName ≠ stOriginalName) adds name s
      (updateForSt env attempt stSpaceID stOriginalName additional s name) := by
  rw [updateForSt]
  split
  · rename_i hGet
    refine Round.stopped (SameCopies.refl _) (fun _ _ => rfl) ?_
    rintro ⟨_, _, _, hSome, -⟩
    rw [hGet] at hSome
    cases hSome
  · rename_i sps hGet
    have hOthers : ∀ (next : SinglePlacementSlice) other, other ≠ name →
        (s.cached.put name next).get other = s.cached.get other :=
      fun next other hNe => (get_put _ _ _ _).trans (if_neg hNe)
    split
    · rename_i hAdditional
      refine Round.stopped (sameCopies_put hGet ⟨rfl, ?_⟩) (hOthers _) ?_
      · exact filter_eq_self.mpr fun sp hMem => (mem_filter.mp hMem).2
      · rintro ⟨_, _, _, -, -, -, -, -, hExtra'⟩
        obtain ⟨l, hOk⟩ := (hExtra name).mp hExtra'
        rw [hAdditional] at hOk
        cases hOk
    · rename_i singles hAdditional
      have hRemoved : ∀ sp ∈ singles, (decide (sp.cluster ≠ stSpaceID) || decide (sp.syncTargetName ≠ stOriginalName)) =
          false := fun sp hMem => by simp [hSingles name singles hAdditional sp hMem]
      split
      · rename_i hCons
        refine Round.stopped (sameCopies_put hGet ⟨rfl, ?_⟩) (hOthers _) ?_
        · simpa [extendSPS, cleanSPSBySt] using hRemoved
        · rintro ⟨_, _, _, hSome, hOk, -⟩
          obtain rfl := Option.mem_unique hGet hSome
          rw [hCons] at hOk
          cases hOk
      · rename_i hCons
        exact Round.patched hGet hCons ((hExtra name).mpr ⟨singles, hAdditional⟩)
          (hAdds name singles hAdditional) hRemoved

structure Rounds (env : Env Sel) (attempt : Attempt) (extra : String → Prop) (keeps : SinglePlacement → Bool)
    (adds : String → SinglePlacement → Prop) (names : List String) (s : State) (outcome : Outcome) : Prop where
  store : outcome.1.store = s.store
  copies : SameCopies keeps s.cached outcome.1.cached
  slices : ∀ ref, outcome.1.slices.has ref = s.slices.has ref
  ready : outcome.2 = .ok () ↔ ∀ name ∈ names, Ready env attempt extra s name
  written : outcome.2 = .ok () → ∀ name ∈ names, Written env keeps adds s name outcome.1.slices
  otherwise : ∀ ref, outcome.1.slices.get ref = s.slices.get ref ∨ ∃ name ∈ names, Ready env attempt extra s name ∧
    (∃ sps, s.cached.get name = some sps ∧ consumer env sps.objectMeta = ref) ∧
      Written env keeps adds s name outcome.1.slices

theorem forEachEp_rounds {body : State → String → Outcome}
    (hBody : ∀ s name, Round env attempt extra keeps adds name s (body s name)) {names : List String}
    (hNodup : names.Nodup)
    (hOne : ∀ name name' sps sps', s.cached.get name = some sps → s.cached.get name' = some sps' →
      consumer env sps.objectMeta = consumer env sps'.objectMeta → name = name') :
    Rounds env attempt extra keeps adds names s (forEachEp body s names) := by
  induction names generalizing s with
  | nil =>
    exact ⟨rfl, SameCopies.refl _, fun _ => rfl, iff_of_true rfl fun _ h => absurd h not_mem_nil,
      fun _ _ h => absurd h not_mem_nil, fun _ => .inl rfl⟩
  | cons ep rest ih =>
    have hRound := hBody s ep
    rw [forEachEp]
    cases hOutcome : body s ep with
    | mk s₁ result =>
    rw [hOutcome] at hRound
    cases result with
    | error fault =>
      refine ⟨hRound.store, hRound.copies, hRound.slices, iff_of_false (error_ne_ok fault) fun h => ?_,
        fun h => absurd h (error_ne_ok fault), fun ref => .inl ?_⟩
      · exact error_ne_ok fault (hRound.ready.mpr (h ep mem_cons_self))
      · exact congrArg (·.get ref) (hRound.failed (error_ne_ok fault))
    | ok _ =>
      obtain ⟨hFresh, hNodup⟩ := nodup_cons.mp hNodup
      have hOne₁ : ∀ name name' sps sps', s₁.cached.get name = some sps → s₁.cached.get name' = some sps' →
          consumer env sps.objectMeta = consumer env sps'.objectMeta → name = name' := by
        intro name name' sps sps' hSps hSps' hEq
        obtain ⟨old, hOld, hSame⟩ := hRound.copies.symm.get hSps
        obtain ⟨old', hOld', hSame'⟩ := hRound.copies.symm.get hSps'
        exact hOne name name' old old' hOld hOld' (by rw [hSame.objectMeta, hSame'.objectMeta, hEq])
      have hRest := ih hNodup hOne₁
      have hBack : ∀ name, Ready env attempt extra s₁ name ↔ Ready env attempt extra s name := fun name =>
        ⟨Ready.congr env attempt extra hRound.copies.symm fun ref => (hRound.slices ref).symm,
          Ready.congr env attempt extra hRound.copies hRound.slices⟩
      -- the slice of this round stays as it is for the rest of the loop
      have hHere : Written env keeps adds s ep (forEachEp body s₁ rest).1.slices := by
        obtain ⟨sps, next, hSps, hNext, hMem⟩ := hRound.written rfl
        refine ⟨sps, next, hSps, ?_, hMem⟩
        rcases hRest.otherwise (consumer env sps.objectMeta) with hSame | ⟨name, hName, -, ⟨sps', hSps', hEq⟩, -⟩
        · rw [hSame, hNext]
        · obtain ⟨old, hOld, hCopy⟩ := hRound.copies.symm.get hSps'
          have hEp := hOne name ep old sps hOld hSps (by rw [hCopy.objectMeta, hEq])
          exact absurd (hEp ▸ hName) hFresh
      refine ⟨hRest.store.trans hRound.store, hRound.copies.trans hRest.copies,
        fun ref => (hRest.slices ref).trans (hRound.slices ref), ?_, fun hOk name hMem => ?_, fun ref => ?_⟩
      · simp only [hRest.ready, forall_mem_cons, hBack, iff_true_intro (hRound.ready.mp rfl), true_and]
      · rcases mem_cons.mp hMem with rfl | hMem
        · exact hHere
        · exact Written.congr env adds hRound.copies.symm (hRest.written hOk name hMem)
      · rcases hRest.otherwise ref with hSame | ⟨name, hName, hReady, ⟨sps, hSps, hEq⟩, hWritten⟩
        · by_cases hEp : ∃ sps, s.cached.get ep = some sps ∧ consumer env sps.objectMeta = ref
          · exact .inr ⟨ep, mem_cons_self, hRound.ready.mp rfl, hEp, hHere⟩
          · exact .inl (hSame.trans (hRound.untouched ref fun sps hSps hEq => hEp ⟨sps, hSps, hEq⟩))
        · obtain ⟨old, hOld, hCopy⟩ := hRound.copies.symm.get hSps
          exact .inr ⟨name, mem_cons_of_mem _ hName, (hBack name).mp hReady,
            ⟨old, hOld, by rw [hCopy.objectMeta, hEq]⟩, Written.congr env adds hRound.copies.symm hWritten⟩

end KubeStellar.WhereResolver
