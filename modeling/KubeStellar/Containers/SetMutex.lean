import KubeStellar.Containers.MapFactored
import KubeStellar.Containers.Operations

/-! # Recording what changed in a transaction

`WrapSetWithMutex` of `pkg/placement/set-types.go`, and `noteModeWrite` and `recordPart` of
`pkg/placement/workload-projector.go`, which write to a set that is wrapped so.
-/

namespace KubeStellar

open List

variable {E S W A B V X Y : Type}

/-- `Remove` of `setMutex` calls `Add` of the set inside. -/
def wrapSetWithMutex (inner : SetOps E S) : SetOps E S := { inner with remove := inner.add }

inductive SetCall (E : Type) where
  | write (w : SetWrite E)
  | has (elt : E)
  | len
  | visit

namespace SetOps

def call (ops : SetOps E S) (s : S) : SetCall E → S × List (Bool ⊕ Nat ⊕ List E)
  | .write w => ((ops.write s w).1, (ops.write s w).2.map .inl)
  | .has elt => (s, [.inl (ops.has s elt)])
  | .len => (s, [.inr (.inl (ops.len s))])
  | .visit => (s, [.inr (.inr (ops.visit s))])

def noteModeWrite (set : SetOps A S) (changed : S) (notices : List (Notice W A B V)) : S :=
  (emitAll set.write changed (notices.filterMap Notice.outerKey?)).1

def recordPart (set : SetOps A S) (factorer : Factorer X A Y) (record : S) (w : SetWrite X) : S :=
  (set.add record (factorer w.elt).1).1

end SetOps

inductive RecordedCall (W V X A : Type) where
  | mode (w : MapWrite W V)
  | part (w : SetWrite X)
  | direct (w : SetWrite A)

/-- A mode map and the set of the destinations that changed. -/
structure Recording (A B V S : Type) where
  modes : FactoredMap A B V
  changed : S

namespace Recording

variable [DecidableEq A] [DecidableEq B]

def step (set : SetOps A S) (keyDecomposer : Factorer W A B) (factorer : Factorer X A Y) (rec : Recording A B V S) :
    RecordedCall W V X A → Recording A B V S
  | .mode w =>
    ⟨(GenericFactoredMap.write keyDecomposer rec.modes w).1,
      set.noteModeWrite rec.changed (GenericFactoredMap.write keyDecomposer rec.modes w).2⟩
  | .part w => { rec with changed := set.recordPart factorer rec.changed w }
  | .direct w => { rec with changed := (set.write rec.changed w).1 }

def run (set : SetOps A S) (keyDecomposer : Factorer W A B) (factorer : Factorer X A Y) (rec : Recording A B V S)
    (calls : List (RecordedCall W V X A)) : Recording A B V S :=
  calls.foldl (step set keyDecomposer factorer) rec

end Recording

variable {ops : SetOps A S} {r : Setoid A}

theorem wrapSetWithMutex_write (s : S) (w : SetWrite A) :
    ((wrapSetWithMutex ops).write s w).1 = (ops.add s w.elt).1 := by
  cases w <;> rfl

theorem answers_eq_iff (hLawful : ops.Lawful r) (s : S) (calls : List (SetCall A)) :
    (emitAll (wrapSetWithMutex ops).call s calls).2 = (emitAll ops.call s calls).2 ↔
      ∀ elt, .write (.remove elt) ∉ calls := by
  induction calls generalizing s with
  | nil => exact iff_of_true rfl fun _ => not_mem_nil
  | cons call calls ih =>
    have hOthers : (∀ elt, call ≠ .write (.remove elt)) → (wrapSetWithMutex ops).call s call = ops.call s call →
        ((emitAll (wrapSetWithMutex ops).call s (call :: calls)).2 = (emitAll ops.call s (call :: calls)).2 ↔
          ∀ elt, .write (.remove elt) ∉ call :: calls) := by
      intro hNe hSame
      rw [emitAll, emitAll, hSame, append_right_inj, ih]
      exact forall_congr' fun elt => by rw [mem_cons, or_iff_right fun hEq => hNe elt hEq.symm]
    cases call with
    | write w =>
      cases w with
      | add elt => exact hOthers (fun _ hEq => by cases hEq) rfl
      | remove elt =>
        refine iff_of_false (fun hSame => ?_) fun hNone => hNone elt mem_cons_self
        -- the two return values of this call are the negations of each other
        have hFirst : (ops.add s elt).2 = (ops.remove s elt).2 := Sum.inl.inj (List.cons.inj hSame).1
        rw [hLawful.add_changed, hLawful.remove_changed] at hFirst
        simp at hFirst
    | has elt => exact hOthers (fun _ hEq => by cases hEq) rfl
    | len => exact hOthers (fun _ hEq => by cases hEq) rfl
    | visit => exact hOthers (fun _ hEq => by cases hEq) rfl

namespace Recording

variable [DecidableEq A] [DecidableEq B] {keyDecomposer : Factorer W A B} {factorer : Factorer X A Y}
  {rec : Recording A B V S} (hLawful : ops.Lawful r)

include hLawful

omit [DecidableEq A] in
theorem has_emitAll_write (s : S) (ws : List (SetWrite A)) (d : A) :
    ops.has (emitAll (wrapSetWithMutex ops).write s ws).1 d = true ↔ (∃ w ∈ ws, r d w.elt) ∨ ops.has s d = true := by
  induction ws generalizing s with
  | nil => simp [emitAll]
  | cons w ws ih =>
    rw [emitAll, ih, wrapSetWithMutex_write, hLawful.has_add_iff, ← or_assoc]
    simp [or_comm]

theorem has_step {d : A} (hHas : ops.has rec.changed d = true) (call : RecordedCall W V X A) :
    ops.has (rec.step (wrapSetWithMutex ops) keyDecomposer factorer call).changed d = true := by
  cases call with
  | mode w => exact (has_emitAll_write hLawful _ _ d).mpr (.inr hHas)
  | part w => exact (hLawful.has_add_iff _ _ d).mpr (.inr hHas)
  | direct w =>
    simp only [step, wrapSetWithMutex_write]
    exact (hLawful.has_add_iff _ _ d).mpr (.inr hHas)

theorem has_run {d : A} (hHas : ops.has rec.changed d = true) (calls : List (RecordedCall W V X A)) :
    ops.has (rec.run (wrapSetWithMutex ops) keyDecomposer factorer calls).changed d = true := by
  induction calls generalizing rec with
  | nil => exact hHas
  | cons call calls ih => exact ih (has_step hLawful hHas call)

omit hLawful

/-- A wrapped set answers as the set inside exactly as long as nothing is removed. All the same, whatever entered or
left the outer keys of the mode map is in the recorded set. -/
theorem recording_faithful_iff (hLawful : ops.Lawful r) (keyDecomposer : Factorer W A B) (factorer : Factorer X A Y) :
    (∀ s calls, (emitAll (wrapSetWithMutex ops).call s calls).2 = (emitAll ops.call s calls).2 ↔
      ∀ elt, .write (.remove elt) ∉ calls) ∧
    ∀ (start : Recording A B V S) (before : List (RecordedCall W V X A)) w after d,
      ¬ (((start.run (wrapSetWithMutex ops) keyDecomposer factorer before).modes.index d).isSome = true ↔
        ((start.run (wrapSetWithMutex ops) keyDecomposer factorer (before ++ [.mode w])).modes.index d).isSome = true) →
      ops.has (start.run (wrapSetWithMutex ops) keyDecomposer factorer (before ++ .mode w :: after)).changed d =
        true := by
  refine ⟨answers_eq_iff hLawful, fun start before w after d hChanged => ?_⟩
  simp only [run, foldl_append, foldl_cons, foldl_nil] at hChanged ⊢
  refine has_run hLawful ((has_emitAll_write hLawful _ _ d).mpr (.inl ?_)) after
  obtain ⟨change, hMem, rfl⟩ := ((GenericFactoredMap.write_outerKey _ w).exists_iff d).mpr hChanged
  exact ⟨change, hMem, r.refl _⟩

theorem recording_faithful_iff_left : let set : SetOps Nat (MapSet Nat) := mapSetOps .insertion
    let keys := Equiv.refl (Nat × Nat)
    let start : Recording Nat Nat Nat (MapSet Nat) := ⟨∅, ∅⟩
    set.has (start.run (wrapSetWithMutex set) keys keys [.mode (.put (1, 2) 3), .mode (.delete (1, 2))]).changed 1 =
      true :=
  (recording_faithful_iff (mapSetOps_lawful .insertion) (Equiv.refl (Nat × Nat)) (Equiv.refl (Nat × Nat))).2 ⟨∅, ∅⟩
    [.mode (.put (1, 2) 3)] (.delete (1, 2)) [] 1 (by decide)

/-- The wrapped set still has what was removed from it. With a set that removes, a destination that leaves the mode map
would not be recorded. -/
theorem wrapped_remove_adds : let set : SetOps Nat (MapSet Nat) := mapSetOps .insertion
    let calls : List (SetCall Nat) := [.write (.add 1), .write (.remove 1), .has 1]
    let keys := Equiv.refl (Nat × Nat)
    let start : Recording Nat Nat Nat (MapSet Nat) := ⟨∅, ∅⟩
    (emitAll (wrapSetWithMutex set).call ∅ calls).2 = [.inl true, .inl false, .inl true] ∧
      (emitAll set.call ∅ calls).2 = [.inl true, .inl true, .inl false] ∧
      set.has (start.run set keys keys [.mode (.put (1, 2) 3), .mode (.delete (1, 2))]).changed 1 = false := by
  decide

end Recording

end KubeStellar
