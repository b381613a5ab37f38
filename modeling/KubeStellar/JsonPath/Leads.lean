import KubeStellar.JsonPath.Rewrite

/-! # The value below itself

A path that finds a place in the value puts the value below itself, and then a recursive selector that comes to the
value does not end.
-/

namespace KubeStellar.JsonPath.InPlace

open List

open Json (Step Label)

section Leads

variable {K R A : Type} [DecidableEq K] {v x x' : Value R A} {h h' : Heap K R A} {r : R}

inductive Leads (h : Heap K R A) (v : Value R A) : Value R A → Prop where
  | here : Leads h v v
  | step {r : R} {step : Step K} {c : Value R A} (hChild : (h r).child step = some c) (hLeads : Leads h v c) :
      Leads h v (.ref r)

def LeadsBelow (h : Heap K R A) (v : Value R A) (r : R) : Prop := ∃ step c, (h r).child step = some c ∧ Leads h v c

theorem LeadsBelow.leads (hLeads : LeadsBelow h v r) : Leads h v (.ref r) := by
  obtain ⟨step, c, hChild, hLeads⟩ := hLeads
  exact .step hChild hLeads

theorem Leads.patched (hPatched : Patched v h h') (hLeads : Leads h v x) : Leads h' v x := by
  induction hLeads with
  | here => exact .here
  | step hChild _ ih =>
    obtain ⟨c', hChild', rfl | rfl⟩ := hPatched.kept hChild
    · exact .step hChild' ih
    · exact .step hChild' .here

theorem LeadsBelow.patched (hPatched : Patched v h h') (hLeads : LeadsBelow h v r) : LeadsBelow h' v r := by
  obtain ⟨step, c, hChild, hLeads⟩ := hLeads
  obtain ⟨c', hChild', rfl | rfl⟩ := hPatched.kept hChild
  · exact ⟨step, c', hChild', hLeads.patched hPatched⟩
  · exact ⟨step, c', hChild', .here⟩

/-- The node leads to the value, and the value leads below itself to itself. -/
structure Hot (v : Value R A) (h : Heap K R A) (x : Value R A) : Prop where
  leads : Leads h v x
  again : ∃ r, v = .ref r ∧ LeadsBelow h v r

theorem Hot.patched (hHot : Hot v h x) (hPatched : Patched v h h') (hValue : x' = x ∨ x' = v) : Hot v h' x' where
  leads := by
    rcases hValue with rfl | rfl
    · exact hHot.leads.patched hPatched
    · exact .here
  again := by
    obtain ⟨r, hRef, hLeads⟩ := hHot.again
    exact ⟨r, hRef, hLeads.patched hPatched⟩

theorem Hot.below (hHot : Hot v h x) : ∃ r step c, x = .ref r ∧ (h r).child step = some c ∧ Hot v h c := by
  cases hHot.leads with
  | here =>
    obtain ⟨r, rfl, step, c, hChild, hLeads⟩ := hHot.again
    exact ⟨r, step, c, rfl, hChild, hLeads, hHot.again⟩
  | step hChild hLeads => exact ⟨_, _, _, rfl, hChild, hLeads, hHot.again⟩

variable [DecidableEq R] {path : List (Selector K)} {definite : Bool}

section Doomed

variable (Doomed Ready : Heap K R A → Value R A → Prop)
  (hFirst : ∀ {h x h' x'}, Doomed h x → Runs v none path false h x h' x' → Ready h' x')
  (hBelow : ∀ {h x}, Ready h x → ∃ r step c, x = .ref r ∧ (h r).child step = some c ∧ Doomed h c)
  (hLater : ∀ {h h' x x'}, Doomed h x → Patched v h h' → x' = x ∨ x' = v → Doomed h' x')

include hFirst hBelow hLater

/-- A recursive selector does not return where it always comes to a node from which it does so again. -/
theorem Runs.not_doomed {task : Option (List (Step K))} {path' : List (Selector K)}
    (hRuns : Runs v task path' definite h x h' x') :
    (task = none → path' = .recurse :: path → ¬ Doomed h x) ∧
      (task = none → path' = .everyChild :: .recurse :: path → ¬ Ready h x) ∧
        ∀ steps step r c, task = some steps → path' = .recurse :: path → step ∈ steps → x = .ref r →
          (h r).child step = some c → ¬ Doomed h c := by
  induction hRuns with
  | put | listNil | listCons => simp
  | select hSel hSteps _ ih =>
    refine ⟨fun _ hPath => ?_, fun _ hPath hReady => ?_, by simp⟩
    · cases hPath
      cases hSel
    · cases hPath
      cases hSteps
      obtain ⟨r, step, c, rfl, hChild, hDoomed⟩ := hBelow hReady
      exact ih.2.2 _ step r c rfl rfl (mem_steps_iff.mpr (Cell.has_label_iff.mpr ⟨c, hChild⟩)) rfl hChild hDoomed
  | recurse hRuns _ _ ih =>
    refine ⟨fun _ hPath hDoomed => ?_, by simp, by simp⟩
    cases hPath
    exact ih.2.1 rfl rfl (hFirst hDoomed hRuns)
  | done =>
    refine ⟨by simp, by simp, fun _ _ _ _ hTask _ hMem => ?_⟩
    cases hTask
    cases hMem
  | visit hRuns _ ihChild ihRest =>
    refine ⟨by simp, by simp, ?_⟩
    intro steps step r c hTask hPath hMem hRef hChild hDoomed
    cases hTask
    cases hRef
    rcases mem_cons.mp hMem with rfl | hMem
    · rw [hChild] at ihChild
      exact ihChild.1 rfl hPath hDoomed
    · have hPatched := hRuns.patched.1.write hRuns.patched.2
      obtain ⟨c', hChild', hValue⟩ := hPatched.kept hChild
      exact ihRest.2.2 _ step _ c' rfl hPath hMem rfl hChild' (hLater hDoomed hPatched hValue)

end Doomed

theorem Hot.not_runs_children (hHot : Hot v h x) :
    ¬ Runs v none (.everyChild :: .recurse :: path) definite h x h' x' :=
  fun hRuns => (hRuns.not_doomed (Hot v) (Hot v) (fun hHot hRuns => hHot.patched hRuns.patched.1 hRuns.patched.2)
    Hot.below Hot.patched).2.1 rfl rfl hHot

/-- A value that has a child is put at that child, and then visited again. -/
theorem not_runs_children {step : Step K} {c : Value R A} (hChild : (h r).child step = some c) :
    ¬ Runs (.ref r) none [.everyChild, .recurse] definite h (.ref r) h' x' := by
  intro hRuns
  refine (hRuns.not_doomed (fun h _ => ∃ step c, (h r).child step = some c)
    (fun h x => x = .ref r ∧ ∃ step c, (h r).child step = some c) ?_ ?_ ?_).2.1 rfl rfl ⟨rfl, step, c, hChild⟩
  · intro h x h' x' hDoomed hRuns
    cases hRuns
    exact ⟨rfl, hDoomed⟩
  · rintro h x ⟨rfl, step, c, hChild⟩
    exact ⟨r, step, c, rfl, hChild, step, c, hChild⟩
  · rintro h h' x x' ⟨step, c, hChild⟩ hPatched -
    obtain ⟨c', hChild', -⟩ := hPatched.kept hChild
    exact ⟨step, c', hChild'⟩

end Leads

variable {K A : Type} [DecidableEq K] {v x : Value (Ref K) A} {h h' : Heap K (Ref K) A} {r : Ref K} {step : Step K}

/-- Apart from the value that was put, a child is at a place below. -/
def Tame (v : Value (Ref K) A) (h : Heap K (Ref K) A) : Prop :=
  ∀ r step r', (h r).child step = some (.ref r') →
    .ref r' = v ∨ r'.source = r.source ∧ r.place.length < r'.place.length

theorem Tame.patched (hTame : Tame v h) (hPatched : Patched v h h') : Tame v h' := by
  intro r step r' hChild
  rcases hPatched.fresh hChild with hChild | hValue | hNull
  · exact hTame r step r' hChild
  · exact .inl hValue
  · cases hNull

/-- A write at a node does not cut off what is below it or elsewhere. -/
theorem Leads.write (hTame : Tame v h) (step : Step K) (y : Value (Ref K) A) (hLeads : Leads h v x)
    (hOff : ∀ r', x = .ref r' → x = v ∨ r'.source ≠ r.source ∨ r.place.length < r'.place.length) :
    Leads (h.write r step y) v x := by
  induction hLeads with
  | here => exact .here
  | @step r1 step1 c hChild _ ih =>
    rcases hOff r1 rfl with hValue | hOff
    · rw [hValue]
      exact .here
    · have hRef : r1 ≠ r := by
        rintro rfl
        rcases hOff with hSource | hLength
        · exact hSource rfl
        · exact Nat.lt_irrefl _ hLength
      refine .step (by rw [Heap.write_other h hRef, hChild]) (ih fun r' hc => ?_)
      rcases hTame r1 step1 r' (hc ▸ hChild) with hValue | ⟨hSource, hLength⟩
      · exact .inl (hc.trans hValue)
      · refine .inr ?_
        rw [hSource]
        exact hOff.imp_right fun hAbove => Nat.lt_trans hAbove hLength

end KubeStellar.JsonPath.InPlace
