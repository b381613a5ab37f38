import Mathlib.Data.List.Induction

/-! # Runs of a state machine

A run applies a step function to a list of events. A guard on the steps constrains each event in
the state in which it is applied, and the trace has each event with that state.
-/

namespace Run

open List

universe u v

variable {S : Type u} {E : Type v} (step : S → E → S) (guard : S → E → Prop)

def run (s : S) (events : List E) : S := events.foldl step s

/-- Every event meets the guard in the state that it finds. -/
def Guarded : S → List E → Prop
  | _, [] => True
  | s, event :: events => guard s event ∧ Guarded (step s event) events

variable {step guard}

theorem invariant {Inv : S → Prop} (hStep : ∀ s event, Inv s → guard s event → Inv (step s event))
    {s : S} {events : List E} (hStart : Inv s) (hGuard : Guarded step guard s events) :
    Inv (run step s events) := by
  induction events generalizing s with
  | nil => exact hStart
  | cons event events ih => exact ih (hStep s event hStart hGuard.1) hGuard.2

theorem exists_first {p : E → Prop} {events : List E} (hSome : ∃ event ∈ events, p event) :
    ∃ before event after, events = before ++ event :: after ∧ p event ∧ ∀ event' ∈ before, ¬ p event' := by
  classical
  obtain ⟨event, hMem, hEvent⟩ := hSome
  cases hFind : events.find? (fun event => decide (p event)) with
  | none => exact absurd hEvent (by simpa using List.find?_eq_none.mp hFind event hMem)
  | some first =>
    obtain ⟨hFirst, before, after, hEq, hBefore⟩ := List.find?_eq_some_iff_append.mp hFind
    exact ⟨before, first, after, hEq, of_decide_eq_true hFirst, fun event' hMem' => by simpa using hBefore event' hMem'⟩

variable {p q : E → Prop}

/-- Some event has `p`, and no later one has `q`. -/
def Since (p q : E → Prop) (events : List E) : Prop :=
  ∃ before event after, events = before ++ event :: after ∧ p event ∧ ∀ event' ∈ after, ¬ q event'

@[simp] theorem not_since_nil : ¬ Since p q [] := by
  rintro ⟨before, event, after, hEq, -⟩
  exact absurd hEq.symm (append_ne_nil_of_right_ne_nil _ (cons_ne_nil _ _))

theorem since_append_singleton (events : List E) (event : E) :
    Since p q (events ++ [event]) ↔ p event ∨ ¬ q event ∧ Since p q events := by
  constructor
  · rintro ⟨before, first, after, hEq, hFirst, hAfter⟩
    rcases after.eq_nil_or_concat with rfl | ⟨after, last, rfl⟩
    · exact .inl (by rwa [(append_inj' hEq rfl).2 |> singleton_inj.mp])
    · rw [concat_eq_append, ← cons_append, ← append_assoc] at hEq
      obtain ⟨rfl, hLast⟩ := append_inj' hEq rfl
      rw [singleton_inj] at hLast
      subst hLast
      exact .inr ⟨hAfter _ (by simp), before, first, after, rfl, hFirst,
        fun other hMem => hAfter other (by simp [hMem])⟩
  · rintro (hNow | ⟨hNot, before, first, after, rfl, hFirst, hAfter⟩)
    · exact ⟨events, event, [], rfl, hNow, by simp⟩
    · refine ⟨before, first, after ++ [event], by simp, hFirst, fun other hMem => ?_⟩
      rcases mem_append.mp hMem with hOld | hNew
      · exact hAfter other hOld
      · exact mem_singleton.mp hNew ▸ hNot

theorem since_append_of_forall_not {events later : List E} (hLater : ∀ event ∈ later, ¬ p event ∧ ¬ q event) :
    Since p q (events ++ later) ↔ Since p q events := by
  induction later generalizing events with
  | nil => rw [append_nil]
  | cons event later ih =>
    have hEvent := hLater event mem_cons_self
    rw [append_cons, ih fun other hMem => hLater other (mem_cons_of_mem _ hMem), since_append_singleton]
    exact ⟨fun hSince => hSince.elim (fun hNow => absurd hNow hEvent.1) And.right,
      fun hSince => .inr ⟨hEvent.2, hSince⟩⟩

variable (step) in
def trace : S → List E → List (S × E)
  | _, [] => []
  | s, event :: events => (s, event) :: trace (step s event) events

theorem trace_append_singleton (s : S) (events : List E) (event : E) :
    trace step s (events ++ [event]) = trace step s events ++ [(run step s events, event)] := by
  induction events generalizing s with
  | nil => rfl
  | cons first events ih => exact congrArg (cons _) (ih (step s first))

/-- What a step takes up at `p` and gives up at `q` holds at the end if it was taken up and not given up since. -/
theorem iff_since_trace (Holds : S → Prop) {p q : S × E → Prop}
    (hStep : ∀ s event, Holds (step s event) ↔ p (s, event) ∨ ¬ q (s, event) ∧ Holds s) {s : S} (hStart : ¬ Holds s)
    (events : List E) : Holds (run step s events) ↔ Since p q (trace step s events) := by
  induction events using List.reverseRecOn with
  | nil => exact iff_of_false hStart not_since_nil
  | append_singleton events event ih =>
    rw [trace_append_singleton, since_append_singleton, ← ih, ← hStep, run, foldl_append]
    exact Iff.rfl

end Run
