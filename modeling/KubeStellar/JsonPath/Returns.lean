import KubeStellar.JsonPath.InPlace
import KubeStellar.JsonPath.RangeLoop

/-! # What an evaluation in place returns

The evaluation without its fuel, as a relation. A name, a range and a wildcard visit some children one after the other,
a list is its members one after the other, and a recursive selector is the rest of the path and then all children.
-/

namespace KubeStellar.JsonPath

open List

open Json (Step Label)

variable {K A : Type} [DecidableEq K]

/-- The children that a selector other than a list or a recursive one visits. -/
def visits (definite : Bool) : Selector K → Label K A → Option (List (Step K))
  | .name k, .object keys => some (if definite || decide (k ∈ keys) then [.key k] else [])
  | .range r, .array length => (r.indices length).map (List.map .index)
  | .everyChild, label => some label.steps
  | _, _ => some []

def definiteAfter : Selector K → Bool → Bool
  | .name _, definite => definite
  | .range r, definite => InPlace.definiteIn r definite
  | _, _ => false

omit [DecidableEq K] in
@[simp]
theorem definiteAfter_false (sel : Selector K) : definiteAfter sel false = false := by
  cases sel <;> rfl

inductive Simple : Selector K → Prop where
  | name (k : K) : Simple (.name k)
  | range (r : Range) : Simple (.range r)
  | everyChild : Simple .everyChild

/-- The selectors that `ParseString` makes: the members of a list are names or single indices. -/
inductive Flat : Selector K → Prop where
  | name (k : K) : Flat (.name k)
  | range (r : Range) : Flat (.range r)
  | list {subs : List (Selector K)}
      (hSubs : ∀ sub ∈ subs, (∃ k, sub = .name k) ∨ ∃ index, sub = .range (rangeOf1 index)) : Flat (.list subs)
  | recurse : Flat .recurse
  | everyChild : Flat .everyChild

omit [DecidableEq K] in
theorem simple_of_member {sub : Selector K} (hSub : (∃ k, sub = .name k) ∨ ∃ index, sub = .range (rangeOf1 index)) :
    Simple sub := by
  rcases hSub with ⟨k, rfl⟩ | ⟨index, rfl⟩
  · exact .name k
  · exact .range _

variable {sel : Selector K} {steps : List (Step K)} {step : Step K}

section Labels

variable {label : Label K A}

omit [DecidableEq K] in
theorem takes_of_has (hHas : label.Has step) : label.Takes step := by
  cases label <;> cases step <;> simp_all [Label.Has, Label.Takes]

theorem mem_visits {definite : Bool} (hVisits : visits definite sel label = some steps) (hMem : step ∈ steps) :
    label.Takes step ∧ (definite = false → label.Has step) := by
  have hOf (hHas : label.Has step) : label.Takes step ∧ (definite = false → label.Has step) :=
    ⟨takes_of_has hHas, fun _ => hHas⟩
  cases sel with
  | name k =>
    cases label with
    | object keys =>
      cases hVisits
      split at hMem
      · rename_i hKey
        cases mem_singleton.mp hMem
        refine ⟨trivial, fun hDefinite => ?_⟩
        rw [hDefinite, Bool.false_or] at hKey
        exact (of_decide_eq_true hKey : k ∈ keys)
      · cases hMem
    | null | leaf _ | array _ =>
      cases hVisits
      cases hMem
  | range r =>
    cases label with
    | array length =>
      obtain ⟨indices, hIndices, rfl⟩ := Option.map_eq_some_iff.mp hVisits
      obtain ⟨i, hIndex, rfl⟩ := mem_map.mp hMem
      have hBelow := (((indicesFrom_spec hIndices).2.1 i).mp hIndex).1
      have hLimit := r.limit_le length
      exact hOf (by show i < length; omega)
    | null | leaf _ | object _ =>
      cases hVisits
      cases hMem
  | everyChild =>
    cases hVisits
    exact hOf (InPlace.mem_steps_iff.mp hMem)
  | list _ | recurse =>
    cases hVisits
    cases hMem

end Labels

namespace InPlace

open Fuel

variable {R : Type} [DecidableEq R]

/-- What a run returns: of a path, or of the visits to some children with a path. -/
inductive Runs (v : Value R A) : Option (List (Step K)) → List (Selector K) → Bool → Heap K R A → Value R A →
    Heap K R A → Value R A → Prop where
  | put {definite h x} : Runs v none [] definite h x h v
  | select {sel steps path definite h x h'} (hSel : Simple sel) (hSteps : visits definite sel (h.label x) = some steps)
      (hVisits : Runs v (some steps) path (definiteAfter sel definite) h x h' x) :
      Runs v none (sel :: path) definite h x h' x
  | listNil {path definite h x} : Runs v none (.list [] :: path) definite h x h x
  | listCons {sub subs path definite h x h1 x1 h' x'} (hFirst : Runs v none (sub :: path) definite h x h1 x1)
      (hRest : Runs v none (.list subs :: path) definite h1 x1 h' x') :
      Runs v none (.list (sub :: subs) :: path) definite h x h' x'
  | recurse {path definite h x h1 x1 h' x'} (hFirst : Runs v none path false h x h1 x1)
      (hRest : Runs v none (.everyChild :: .recurse :: path) false h1 x1 h' x') :
      Runs v none (.recurse :: path) definite h x h' x'
  | done {path definite h x} : Runs v (some []) path definite h x h x
  | visit {step steps path definite h r h1 c h'}
      (hChild : Runs v none path definite h (((h r).child step).getD .null) h1 c)
      (hRest : Runs v (some steps) path definite (h1.write r step c) (.ref r) h' (.ref r)) :
      Runs v (some (step :: steps)) path definite h (.ref r) h' (.ref r)

variable {v x x' : Value R A} {h h' : Heap K R A} {path : List (Selector K)} {definite : Bool} {r : R}

theorem runs_simple_iff (hSel : Simple sel) : Runs v none (sel :: path) definite h x h' x' ↔ x' = x ∧
    ∃ steps, visits definite sel (h.label x) = some steps ∧
      Runs v (some steps) path (definiteAfter sel definite) h x h' x := by
  constructor
  · intro hRuns
    cases hRuns with
    | select _ hSteps hVisits => exact ⟨rfl, _, hSteps, hVisits⟩
    | listNil | listCons | recurse => cases hSel
  · rintro ⟨rfl, steps, hSteps, hVisits⟩
    exact .select hSel hSteps hVisits

/-- What a name, a range or a wildcard does: some visits, or the loop over a slice. -/
theorem apply_simple (hSel : Simple sel) (fn : Value R A → Value R A) (h : Heap K R A) (x : Value R A)
    (path : List (Selector K)) (definite : Bool) :
    (∃ steps, visits definite sel (h.label x) = some steps ∧ ((∀ r, x ≠ .ref r) → steps = []) ∧
      ∀ fuel, apply fn (fuel + 1) h x (sel :: path) definite =
        (visitEach (fun h x => apply fn fuel h x path (definiteAfter sel definite)) h x steps >>= fun h =>
          .ok (h, x))) ∨
    ∃ range r typed, sel = .range range ∧ x = .ref r ∧ h r = .array typed ∧
      ∀ fuel, apply fn (fuel + 1) h x (sel :: path) definite =
        (rangeLoop
          (fun h i => visit (fun h x => apply fn fuel h x path (definiteAfter sel definite)) r h (.index i))
          (range.limit typed.length) range.stride fuel range.start h >>= fun h => .ok (h, x)) := by
  cases hSel with
  | name k =>
    refine .inl ?_
    cases x with
    | null | leaf a => exact ⟨[], rfl, fun _ => rfl, fun _ => rfl⟩
    | ref r =>
      cases hCell : h r with
      | array elts =>
        exact ⟨[], by rw [Heap.label, hCell]; rfl, fun _ => rfl, fun fuel => by simp only [apply, hCell]; rfl⟩
      | object typed =>
        refine ⟨if definite || (Json.lookup k typed).isSome then [.key k] else [], ?_, fun hRef => absurd rfl (hRef r),
          fun fuel => ?_⟩
        · rw [Heap.label, hCell, Cell.label, visits]
          simp only [← Json.lookup_isSome_iff, Bool.decide_eq_true]
        · simp only [apply, hCell]
          split
          · rw [visitEach, foldlM_cons, bind_assoc]
            rfl
          · rfl
  | range range =>
    cases x with
    | null | leaf a => exact .inl ⟨[], rfl, fun _ => rfl, fun _ => rfl⟩
    | ref r =>
      cases hCell : h r with
      | object members =>
        exact .inl ⟨[], by rw [Heap.label, hCell]; rfl, fun _ => rfl, fun fuel => by simp only [apply, hCell]; rfl⟩
      | array typed => exact .inr ⟨range, r, typed, rfl, rfl, hCell, fun fuel => by simp only [apply, hCell]; rfl⟩
  | everyChild =>
    refine .inl ⟨(h.label x).steps, rfl, fun hScalar => ?_, fun _ => rfl⟩
    cases x with
    | null | leaf a => rfl
    | ref r => exact absurd rfl (hScalar r)

variable {fuel fuel' : Nat} (fn : Value R A → Value R A)

theorem below_apply_succ (fuel : Nat) (h : Heap K R A) (x : Value R A)
    (path : List (Selector K)) (definite : Bool) :
    Below Stop.outOfFuel (apply fn fuel h x path definite) (apply fn (fuel + 1) h x path definite) := by
  induction fuel generalizing h x path definite with
  | zero => exact .inl rfl
  | succ fuel ih =>
    cases path with
    | nil => exact .refl _
    | cons sel path =>
      have hSimple (hSel : Simple sel) :
          Below Stop.outOfFuel (apply fn (fuel + 1) h x (sel :: path) definite)
            (apply fn (fuel + 1 + 1) h x (sel :: path) definite) := by
        rcases apply_simple hSel fn h x path definite with ⟨steps, -, -, hApply⟩ | ⟨range, r, typed, -, -, -, hApply⟩
        · rw [hApply, hApply]
          exact (below_visitEach (fun _ _ => ih _ _ _ _) _ _ _).bind fun _ => .refl _
        · rw [hApply, hApply]
          exact (below_rangeLoop (fun h i => below_visit (fun _ _ => ih _ _ _ _) r h _) (Nat.le_succ _) _ _).bind
            fun _ => .refl _
      cases sel with
      | name k => exact hSimple (.name k)
      | range range => exact hSimple (.range range)
      | everyChild => exact hSimple .everyChild
      | list list => exact Below.foldlM (fun _ _ => ih _ _ _ _) _ _
      | recurse =>
        exact (ih _ _ _ _).bind fun _ => (below_visitEach (fun _ _ => ih _ _ _ _) _ _ _).bind fun _ => .refl _

theorem below_apply (h : Heap K R A) (x : Value R A) (path : List (Selector K))
    (definite : Bool) (hLe : fuel ≤ fuel') :
    Below Stop.outOfFuel (apply fn fuel h x path definite) (apply fn fuel' h x path definite) :=
  below_of_le (fun fuel => below_apply_succ fn fuel h x path definite) hLe

section Sound

variable {body : Body K R A}
  (hBody : ∀ h x h' x', body h x = .ok (h', x') → Runs v none path definite h x h' x')

include hBody

theorem runs_of_visitEach (hRun : visitEach body h x steps = .ok h') (hSteps : (∀ r, x ≠ .ref r) → steps = []) :
    Runs v (some steps) path definite h x h' x := by
  cases x with
  | null | leaf a =>
    cases hRun
    rw [hSteps fun r hRef => by cases hRef]
    exact .done
  | ref r =>
    replace hRun : steps.foldlM (visit body r) h = .ok h' := hRun
    clear hSteps
    induction steps generalizing h with
    | nil =>
      cases hRun
      exact .done
    | cons step steps ih =>
      rw [foldlM_cons, bind_eq_ok] at hRun
      obtain ⟨_, hVisit, hRun⟩ := hRun
      obtain ⟨⟨h1, c⟩, hChild, hWrite⟩ := bind_eq_ok.mp hVisit
      cases hWrite
      exact .visit (hBody _ _ _ _ hChild) (ih hRun)

end Sound

theorem runs_of_apply (hRun : apply (fun _ => v) fuel h x path definite = .ok (h', x')) :
    Runs v none path definite h x h' x' := by
  induction fuel generalizing h x path definite h' x' with
  | zero => cases hRun
  | succ fuel ih =>
    cases path with
    | nil =>
      cases hRun
      exact .put
    | cons sel path =>
      have hSimple {sel : Selector K} {path : List (Selector K)} {definite : Bool}
          {h h' : Heap K R A} {x x' : Value R A}
          (hSel : Simple sel) (hRun : apply (fun _ => v) (fuel + 1) h x (sel :: path) definite = .ok (h', x')) :
          Runs v none (sel :: path) definite h x h' x' := by
        rcases apply_simple hSel (fun _ => v) h x path definite with
          ⟨steps, hSteps, hNone, hApply⟩ | ⟨range, r, typed, rfl, rfl, hCell, hApply⟩
        · rw [hApply, bind_eq_ok] at hRun
          obtain ⟨_, hVisits, hOk⟩ := hRun
          cases hOk
          exact .select hSel hSteps (runs_of_visitEach (fun _ _ _ _ hBody => ih hBody) hVisits hNone)
        · rw [hApply, bind_eq_ok] at hRun
          obtain ⟨_, hLoop, hOk⟩ := hRun
          cases hOk
          obtain ⟨indices, hIndices, hFold⟩ := rangeLoop_eq_ok range.start.isLt hLoop
          have hLimit := range.limit_le typed.length
          have hSteps : range.indices typed.length = some indices := indicesFrom_enough hIndices (by omega)
          rw [← foldlM_map] at hFold
          refine .select hSel ?_ (runs_of_visitEach (fun _ _ _ _ hBody => ih hBody) hFold fun hRef =>
            absurd rfl (hRef r))
          rw [Heap.label, hCell, Cell.label, visits, hSteps]
          rfl
      cases sel with
      | name k => exact hSimple (.name k) hRun
      | range range => exact hSimple (.range range) hRun
      | everyChild => exact hSimple .everyChild hRun
      | list subs =>
        rw [apply] at hRun
        induction subs generalizing h x with
        | nil =>
          cases hRun
          exact .listNil
        | cons sub subs ihSubs =>
          rw [foldlM_cons, bind_eq_ok] at hRun
          obtain ⟨⟨h1, x1⟩, hFirst, hRun⟩ := hRun
          exact .listCons (ih hFirst) (ihSubs hRun)
      | recurse =>
        obtain ⟨⟨h1, x1⟩, hFirst, hRun⟩ := bind_eq_ok.mp hRun
        exact .recurse (ih hFirst) (hSimple .everyChild hRun)

theorem apply_of_visitEach (hSel : Simple sel) (hSteps : visits definite sel (h.label x) = some steps)
    (hRun : visitEach (fun h x => apply (fun _ => v) fuel h x path (definiteAfter sel definite)) h x steps = .ok h') :
    ∃ fuel, apply (fun _ => v) fuel h x (sel :: path) definite = .ok (h', x) := by
  rcases apply_simple hSel (fun _ => v) h x path definite with
    ⟨steps', hSteps', -, hApply⟩ | ⟨range, r, typed, rfl, rfl, hCell, hApply⟩
  · obtain rfl : steps' = steps := Option.some.inj (hSteps'.symm.trans hSteps)
    exact ⟨fuel + 1, by rw [hApply, hRun]; rfl⟩
  · rw [Heap.label, hCell, Cell.label, visits] at hSteps
    obtain ⟨indices, hIndices, rfl⟩ := Option.map_eq_some_iff.mp hSteps
    refine ⟨max fuel (typed.length + 1) + 1, ?_⟩
    rw [hApply, bind_eq_ok]
    rw [visitEach, foldlM_map, ← rangeLoop_of_indices hIndices (Nat.lt_succ_self _)] at hRun
    exact ⟨h', (below_rangeLoop
      (fun h i => below_visit (fun h x => below_apply _ h x path _ (Nat.le_max_left _ _)) r h _)
      (Nat.le_max_right _ _) _ _).ok_eq hRun, rfl⟩

variable {task : Option (List (Step K))}

theorem Runs.exists_fuel (hRuns : Runs v task path definite h x h' x') :
    match task with
    | none => ∃ fuel, apply (fun _ => v) fuel h x path definite = .ok (h', x')
    | some steps => ∃ fuel, visitEach (fun h x => apply (fun _ => v) fuel h x path definite) h x steps = .ok h' := by
  induction hRuns with
  | put => exact ⟨1, rfl⟩
  | select hSel hSteps _ ih =>
    obtain ⟨fuel, hRun⟩ := ih
    exact apply_of_visitEach hSel hSteps hRun
  | listNil => exact ⟨1, rfl⟩
  | @listCons sub subs path definite h x h1 x1 h' x' _ _ ihFirst ihRest =>
    obtain ⟨fuel, hFirst⟩ := ihFirst
    obtain ⟨fuel', hRest⟩ := ihRest
    refine ⟨max fuel fuel' + 1, ?_⟩
    rw [apply, foldlM_cons, bind_eq_ok]
    exact ⟨(h1, x1), (below_apply _ h x _ definite (Nat.le_max_left fuel fuel')).ok_eq hFirst,
      (below_apply _ h1 x1 _ definite (Nat.le_succ_of_le (Nat.le_max_right fuel fuel'))).ok_eq hRest⟩
  | @recurse path definite h x h1 x1 h' x' _ _ ihFirst ihRest =>
    obtain ⟨fuel, hFirst⟩ := ihFirst
    obtain ⟨fuel', hRest⟩ := ihRest
    refine ⟨max fuel fuel' + 1, bind_eq_ok.mpr ⟨(h1, x1), ?_, ?_⟩⟩
    · exact (below_apply _ h x path false (Nat.le_max_left fuel fuel')).ok_eq hFirst
    · exact (below_apply _ h1 x1 (.everyChild :: .recurse :: path) false
        (Nat.le_succ_of_le (Nat.le_max_right fuel fuel'))).ok_eq hRest
  | @done path definite h x => exact ⟨0, by cases x <;> rfl⟩
  | @visit step steps path definite h r h1 c h' _ _ ihChild ihRest =>
    obtain ⟨fuel, hChild⟩ := ihChild
    obtain ⟨fuel', hRest⟩ := ihRest
    refine ⟨max fuel fuel', ?_⟩
    rw [visitEach, foldlM_cons, bind_eq_ok]
    refine ⟨h1.write r step c, bind_eq_ok.mpr ⟨(h1, c), ?_, rfl⟩, ?_⟩
    · exact (below_apply _ h _ path definite (Nat.le_max_left fuel fuel')).ok_eq hChild
    · exact (below_visitEach
        (fun h x => below_apply _ h x path definite (Nat.le_max_right fuel fuel')) _ _ _).ok_eq hRest

theorem exists_apply_iff :
    (∃ fuel, apply (fun _ => v) fuel h x path definite = .ok (h', x')) ↔ Runs v none path definite h x h' x' :=
  ⟨fun hRun => runs_of_apply hRun.choose_spec, fun hRuns => hRuns.exists_fuel⟩

theorem Runs.unique {h'' : Heap K R A} {x'' : Value R A} (hRuns : Runs v none path definite h x h' x')
    (hRuns' : Runs v none path definite h x h'' x'') : h' = h'' ∧ x' = x'' := by
  obtain ⟨fuel, hOk⟩ := hRuns.exists_fuel
  obtain ⟨fuel', hOk'⟩ := hRuns'.exists_fuel
  have hMore := (below_apply _ h x path definite (Nat.le_max_left fuel fuel')).ok_eq hOk
  have hMore' := (below_apply _ h x path definite (Nat.le_max_right fuel fuel')).ok_eq hOk'
  exact Prod.mk.inj (Except.ok.inj (hMore.symm.trans hMore'))

/-- A child in the second heap is the one in the first or the value, except that there may be new members with null; no
child is lost. -/
structure Patched (v : Value R A) (h h' : Heap K R A) : Prop where
  takes : ∀ r step, (h' r).label.Takes step ↔ (h r).label.Takes step
  kept : ∀ {r step c}, (h r).child step = some c → ∃ c', (h' r).child step = some c' ∧ (c' = c ∨ c' = v)
  fresh : ∀ {r step c'}, (h' r).child step = some c' → (h r).child step = some c' ∨ c' = v ∨ c' = .null

namespace Patched

omit [DecidableEq R] in
theorem refl (v : Value R A) (h : Heap K R A) : Patched v h h :=
  ⟨fun _ _ => Iff.rfl, fun hChild => ⟨_, hChild, .inl rfl⟩, .inl⟩

omit [DecidableEq R] in
theorem trans {h'' : Heap K R A} (hFirst : Patched v h h') (hThen : Patched v h' h'') : Patched v h h'' where
  takes r step := (hThen.takes r step).trans (hFirst.takes r step)
  kept hChild := by
    obtain ⟨c', hChild', hValue⟩ := hFirst.kept hChild
    obtain ⟨c'', hChild'', rfl | hValue'⟩ := hThen.kept hChild'
    · exact ⟨c'', hChild'', hValue⟩
    · exact ⟨c'', hChild'', .inr hValue'⟩
  fresh hChild := by
    rcases hThen.fresh hChild with hChild' | hValue
    · exact hFirst.fresh hChild'
    · exact .inr hValue

theorem write {c : Value R A} (hPatched : Patched v h h') (hValue : c = ((h r).child step).getD .null ∨ c = v) :
    Patched v h (h'.write r step c) where
  takes r' step' := by rw [Heap.takes_write, hPatched.takes]
  kept {r' step' c'} hChild := by
    obtain ⟨c1, hChild1, hKept⟩ := hPatched.kept hChild
    rw [Heap.child_write]
    split
    · rename_i hHere
      obtain ⟨⟨rfl, rfl⟩, -⟩ := hHere
      rw [hChild, Option.getD_some] at hValue
      exact ⟨c, rfl, hValue⟩
    · exact ⟨c1, hChild1, hKept⟩
  fresh {r' step' c'} hChild := by
    rw [Heap.child_write] at hChild
    split at hChild
    · rename_i hHere
      obtain ⟨⟨rfl, rfl⟩, -⟩ := hHere
      cases hChild
      rcases hValue with rfl | hValue
      · cases (h r').child step' with
        | none => exact .inr (.inr rfl)
        | some c => exact .inl rfl
      · exact .inr (.inl hValue)
    · exact hPatched.fresh hChild

end Patched

theorem Runs.patched (hRuns : Runs v task path definite h x h' x') : Patched v h h' ∧ (x' = x ∨ x' = v) := by
  induction hRuns with
  | put => exact ⟨.refl _ _, .inr rfl⟩
  | select _ _ _ ih => exact ih
  | listNil | done => exact ⟨.refl _ _, .inl rfl⟩
  | listCons _ _ ihFirst ihRest | recurse _ _ ihFirst ihRest =>
    refine ⟨ihFirst.1.trans ihRest.1, ?_⟩
    rcases ihRest.2 with rfl | hValue
    · exact ihFirst.2
    · exact .inr hValue
  | visit _ _ ihChild ihRest => exact ⟨(ihChild.1.write ihChild.2).trans ihRest.1, .inl rfl⟩

end InPlace

end KubeStellar.JsonPath
