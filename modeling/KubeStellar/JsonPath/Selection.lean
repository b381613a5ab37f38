import KubeStellar.JsonPath.RangeLoop

/-! # Selected places

Which places of a tree a path without a recursive selector selects. A selector looks only at the label of a node, so a
replacement further down does not change what it picks.
-/

namespace KubeStellar.JsonPath

open List

open Json (Step Label)

variable {K A : Type} [DecidableEq K]

/-- A selector picks a child that is there. -/
inductive Picks : Selector K → Label K A → Step K → Prop where
  | name {k : K} {keys : List K} (hKey : k ∈ keys) : Picks (.name k) (.object keys) (.key k)
  | range {r : Range} {length i : Nat} (hIndex : r.Selects length i) : Picks (.range r) (.array length) (.index i)
  | list {subs : List (Selector K)} {sub : Selector K} {label : Label K A} {step : Step K} (hMem : sub ∈ subs)
      (hPicks : Picks sub label step) : Picks (.list subs) label step
  | everyChild {label : Label K A} {step : Step K} (hHas : label.Has step) : Picks .everyChild label step

def Selected : List (Selector K) → Json K A → List (Step K) → Prop
  | [], _, place => place = []
  | sel :: path, t, place =>
    ∃ step rest c, place = step :: rest ∧ Picks sel t.label step ∧ t.child step = some c ∧ Selected path c rest

def labelAt (t : Json K A) (place : List (Step K)) : Option (Label K A) := (t.get place).map Json.label

def Everywhere (P : Label K A → Prop) (t : Json K A) : Prop := ∀ place label, labelAt t place = some label → P label

def Range.Fits (r : Range) (label : Label K A) : Prop := ∀ length, label = .array length → r.NoOverflow length

/-- The value is at the selected places, and nothing changes outside of them. -/
structure Replaced (path : List (Selector K)) (v t r : Json K A) : Prop where
  selected : ∀ place, Selected path t place → r.get place = some v
  others : ∀ place, (∀ before after, place = before ++ after → ¬ Selected path t before) →
    labelAt r place = labelAt t place

variable {t t' c : Json K A} {step : Step K} {place : List (Step K)}

theorem labelAt_nil (t : Json K A) : labelAt t [] = some t.label := rfl

theorem labelAt_cons (hChild : t.child step = some c) : labelAt t (step :: place) = labelAt c place := by
  rw [labelAt, Json.get, hChild]
  rfl

theorem labelAt_missing (hChild : t.child step = none) : labelAt t (step :: place) = none := by
  rw [labelAt, Json.get, hChild]
  rfl

theorem everywhere_node {P : Label K A → Prop} (hNode : P t.label) (hChildren : ∀ c ∈ t.children, Everywhere P c) :
    Everywhere P t := by
  intro place label hLabel
  cases place with
  | nil =>
    cases hLabel
    exact hNode
  | cons step place =>
    cases hChild : t.child step with
    | none =>
      rw [labelAt_missing hChild] at hLabel
      cases hLabel
    | some c => exact hChildren c (Json.mem_children hChild) place label ((labelAt_cons hChild).symm.trans hLabel)

theorem child_of_label_eq (hLabel : t'.label = t.label) (hChild : t.child step = some c) :
    ∃ c', t'.child step = some c' := by
  rw [← Option.isSome_iff_exists, Json.child_isSome_iff, hLabel, ← Json.child_isSome_iff, hChild]
  rfl

theorem child_none_of_label_eq (hLabel : t'.label = t.label) (hChild : t.child step = none) : t'.child step = none := by
  cases hChild' : t'.child step with
  | none => rfl
  | some c' =>
    obtain ⟨c, hc⟩ := child_of_label_eq hLabel.symm hChild'
    rw [hChild] at hc
    cases hc

variable {path : List (Selector K)} {depth : Nat} {v r : Json K A}

theorem Selected.length (hSelected : Selected path t place) : place.length = path.length := by
  induction path generalizing t place with
  | nil =>
    rw [hSelected]
    rfl
  | cons sel path ih =>
    obtain ⟨step, rest, c, rfl, -, -, hRest⟩ := hSelected
    rw [length_cons, length_cons, ih hRest]

def SameAbove (depth : Nat) (t t' : Json K A) : Prop :=
  ∀ place : List (Step K), place.length < depth → labelAt t' place = labelAt t place

theorem SameAbove.symm (hSame : SameAbove depth t t') : SameAbove depth t' t :=
  fun place hDepth => (hSame place hDepth).symm

theorem SameAbove.label (hSame : SameAbove (depth + 1) t t') : t'.label = t.label :=
  Option.some.inj (hSame [] (Nat.succ_pos depth))

theorem SameAbove.child (hSame : SameAbove (depth + 1) t t') {c' : Json K A} (hChild : t.child step = some c)
    (hChild' : t'.child step = some c') : SameAbove depth c c' := by
  intro place hDepth
  rw [← labelAt_cons hChild, ← labelAt_cons hChild']
  exact hSame (step :: place) (by rw [length_cons]; omega)

theorem Selected.of_same (hSame : SameAbove path.length t t') (hSelected : Selected path t place) :
    Selected path t' place := by
  induction path generalizing t t' place with
  | nil => exact hSelected
  | cons sel path ih =>
    obtain ⟨step, rest, c, rfl, hPicks, hChild, hRest⟩ := hSelected
    obtain ⟨c', hChild'⟩ := child_of_label_eq hSame.label hChild
    exact ⟨step, rest, c', rfl, hSame.label ▸ hPicks, hChild', ih (hSame.child hChild hChild') hRest⟩

variable {r' : Json K A}

theorem Replaced.sameAbove (hRepl : Replaced path v t r) : SameAbove path.length t r := by
  intro place hDepth
  refine hRepl.others place fun before after hPlace hSelected => ?_
  have hLength := hSelected.length
  rw [hPlace, length_append] at hDepth
  omega

theorem Replaced.trans (hRepl : Replaced path v t r) (hRepl' : Replaced path v r r') : Replaced path v t r' where
  selected place hSelected := hRepl'.selected place (hSelected.of_same hRepl.sameAbove)
  others place hOther := by
    rw [hRepl'.others place fun before after hPlace hSelected =>
      hOther before after hPlace (hSelected.of_same hRepl.sameAbove.symm)]
    exact hRepl.others place hOther

theorem replaced_nil (v t : Json K A) : Replaced [] v t v where
  selected place hPlace := by
    rw [hPlace]
    rfl
  others place hOther := absurd rfl (hOther [] place rfl)

variable {sub : Selector K} {subs : List (Selector K)}

structure Stepped (sel : Selector K) (path : List (Selector K)) (v t r : Json K A) : Prop where
  label : r.label = t.label
  picked : ∀ step c, t.child step = some c → Picks sel t.label step →
    ∃ c', r.child step = some c' ∧ Replaced path v c c'
  others : ∀ step, ¬ Picks sel t.label step → r.child step = t.child step

variable {sel : Selector K}

theorem Stepped.replaced (hStepped : Stepped sel path v t r) : Replaced (sel :: path) v t r where
  selected place hSelected := by
    obtain ⟨step, rest, c, rfl, hPicks, hChild, hRest⟩ := hSelected
    obtain ⟨c', hChild', hRepl⟩ := hStepped.picked step c hChild hPicks
    rw [Json.get, hChild']
    exact hRepl.selected rest hRest
  others place hOther := by
    cases place with
    | nil => rw [labelAt_nil, labelAt_nil, hStepped.label]
    | cons step rest =>
      cases hChild : t.child step with
      | none =>
        rw [labelAt_missing hChild, labelAt_missing (child_none_of_label_eq hStepped.label hChild)]
      | some c =>
        by_cases hPicks : Picks sel t.label step
        · obtain ⟨c', hChild', hRepl⟩ := hStepped.picked step c hChild hPicks
          rw [labelAt_cons hChild, labelAt_cons hChild']
          refine hRepl.others rest fun before after hRest hSelected => ?_
          exact hOther (step :: before) after (by rw [hRest, cons_append])
            ⟨step, before, c, rfl, hPicks, hChild, hSelected⟩
        · rw [labelAt_cons hChild, labelAt_cons ((hStepped.others step hPicks).trans hChild)]

theorem stepped_list_nil (path : List (Selector K)) (v t : Json K A) : Stepped (.list []) path v t t where
  label := rfl
  picked step c _ hPicks := by
    cases hPicks with
    | list hMem _ => cases hMem
  others _ _ := rfl

omit [DecidableEq K] in
theorem picks_list_cons {label : Label K A} :
    Picks (.list (sub :: subs)) label step ↔ Picks sub label step ∨ Picks (.list subs) label step := by
  constructor
  · rintro (_ | _ | ⟨hMem, hPicks⟩ | _)
    rcases mem_cons.mp hMem with rfl | hLater
    · exact .inl hPicks
    · exact .inr (.list hLater hPicks)
  · rintro (hPicks | hPicks)
    · exact .list mem_cons_self hPicks
    · cases hPicks with
      | list hMem hSub => exact .list (mem_cons_of_mem _ hMem) hSub

theorem Stepped.list_cons (hFirst : Stepped sub path v t t') (hRest : Stepped (.list subs) path v t' r) :
    Stepped (.list (sub :: subs)) path v t r where
  label := hRest.label.trans hFirst.label
  picked step c hChild hPicks := by
    have hPicks := picks_list_cons.mp hPicks
    rw [← hFirst.label] at hPicks
    by_cases hSub : Picks sub t.label step
    · obtain ⟨c', hChild', hRepl⟩ := hFirst.picked step c hChild hSub
      by_cases hSubs : Picks (.list subs) t'.label step
      · obtain ⟨c'', hChild'', hRepl'⟩ := hRest.picked step c' hChild' hSubs
        exact ⟨c'', hChild'', hRepl.trans hRepl'⟩
      · exact ⟨c', (hRest.others step hSubs).trans hChild', hRepl⟩
    · have hChild' := (hFirst.others step hSub).trans hChild
      rw [hFirst.label] at hPicks
      exact hRest.picked step c hChild' (hFirst.label ▸ hPicks.resolve_left hSub)
  others step hPicks := by
    rw [picks_list_cons, not_or] at hPicks
    rw [hRest.others step (hFirst.label ▸ hPicks.2), hFirst.others step hPicks.1]

end KubeStellar.JsonPath
