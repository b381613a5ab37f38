import KubeStellar.Library.GoMap
import KubeStellar.Library.Strings
import Mathlib.Data.List.Basic

/-! # Expansion of parameters

`pkg/customize/customize.go`: the references `%(name)` in a string are replaced by the values that the labels and
annotations of a location give to the names.
-/

namespace KubeStellar.Customize

open List

abbrev Definitions := List (GoMap GoString GoString)

def Definitions.get : Definitions → GoString → Option GoString
  | [], _ => none
  | definition :: defs, key =>
    match definition.get key with
    | some val => some val
    | none => Definitions.get defs key

def readNameToReplace : GoString → GoString × GoString
  | [] => ([], [])
  | next :: input =>
    if next.chr = ')' then ([], input)
    else (.char next.chr :: (readNameToReplace input).1, (readNameToReplace input).2)

theorem readNameToReplace_length (input : GoString) : (readNameToReplace input).2.length ≤ input.length := by
  induction input with
  | nil => exact Nat.le_refl 0
  | cons next input ih =>
    rw [readNameToReplace]
    split
    · exact Nat.le_succ _
    · exact Nat.le_succ_of_le ih

/-- The loop of `expandString`: what it writes for the input that is left. -/
def expandRunes (defs : Definitions) : GoString → GoString
  | [] => []
  | next :: input =>
    if next.chr ≠ '%' then .char next.chr :: expandRunes defs input
    else
      match input with
      | [] => [.char '%']
      | next :: input =>
        if next.chr ≠ '(' then .char '%' :: .char next.chr :: expandRunes defs input
        else
          match defs.get (readNameToReplace input).1 with
          | some replacement => replacement ++ expandRunes defs (readNameToReplace input).2
          | none =>
            .ofString "%(" ++ (readNameToReplace input).1 ++ .ofString ")" ++
              expandRunes defs (readNameToReplace input).2
termination_by input => input.length
decreasing_by
  all_goals
    have := readNameToReplace_length input
    simp only [length_cons]
    omega

def expandString (input : GoString) (defs : Definitions) : GoString :=
  if input.any fun r => r.chr == '%' then expandRunes defs input else input

/-- The value in the first map that defines the name. -/
def FirstDefines (defs : Definitions) (name value : GoString) : Prop :=
  ∃ before definition after, defs = before ++ definition :: after ∧ (∀ earlier ∈ before, earlier.get name = none) ∧
    definition.get name = some value

def Undefined (defs : Definitions) (name : GoString) : Prop := ∀ definition ∈ defs, definition.get name = none

variable {name : GoString} {defs : Definitions}

theorem get_eq_none_iff : defs.get name = none ↔ Undefined defs name := by
  induction defs with
  | nil => simp [Definitions.get, Undefined]
  | cons definition defs ih =>
    rw [Undefined, forall_mem_cons, ← Undefined, ← ih, Definitions.get]
    cases definition.get name <;> simp

theorem get_eq_some_iff {value : GoString} : defs.get name = some value ↔ FirstDefines defs name value := by
  induction defs with
  | nil => simp [Definitions.get, FirstDefines]
  | cons definition defs ih =>
    rw [Definitions.get]
    cases hGet : definition.get name with
    | none =>
      refine ih.trans ⟨?_, ?_⟩
      · rintro ⟨before, first, after, rfl, hBefore, hFirst⟩
        exact ⟨definition :: before, first, after, rfl, forall_mem_cons.mpr ⟨hGet, hBefore⟩, hFirst⟩
      · rintro ⟨before, first, after, hDefs, hBefore, hFirst⟩
        cases before with
        | nil =>
          cases hDefs
          rw [hGet] at hFirst
          cases hFirst
        | cons _ before =>
          cases hDefs
          exact ⟨before, first, after, rfl, (forall_mem_cons.mp hBefore).2, hFirst⟩
    | some val =>
      constructor
      · intro hVal
        exact ⟨[], definition, defs, rfl, fun _ hMem => absurd hMem not_mem_nil, hGet.trans hVal⟩
      · rintro ⟨before, first, after, hDefs, hBefore, hFirst⟩
        cases before with
        | nil =>
          cases hDefs
          exact hGet.symm.trans hFirst
        | cons _ before =>
          cases hDefs
          rw [(forall_mem_cons.mp hBefore).1] at hGet
          cases hGet

/-- What expansion is to write: only a terminated reference to a name with a definition changes, and what is written
for it is not read again. -/
inductive Expands (defs : Definitions) : GoString → GoString → Prop where
  | done : Expands defs [] []
  | copied {r : Rune} {input output : GoString} (hRune : r ≠ .char '%') (hRest : Expands defs input output) :
      Expands defs (r :: input) (r :: output)
  | percentLast : Expands defs [.char '%'] [.char '%']
  | percentCopied {r : Rune} {input output : GoString} (hRune : r ≠ .char '(') (hRest : Expands defs input output) :
      Expands defs (.char '%' :: r :: input) (.char '%' :: r :: output)
  | replaced {name value input output : GoString} (hName : .char ')' ∉ name) (hDefined : FirstDefines defs name value)
      (hRest : Expands defs input output) :
      Expands defs (.char '%' :: .char '(' :: (name ++ .char ')' :: input)) (value ++ output)
  | notDefined {name input output : GoString} (hName : .char ')' ∉ name) (hUndefined : Undefined defs name)
      (hRest : Expands defs input output) :
      Expands defs (.char '%' :: .char '(' :: (name ++ .char ')' :: input))
        (.char '%' :: .char '(' :: (name ++ .char ')' :: output))
  | notTerminated {name : GoString} (hName : .char ')' ∉ name) :
      Expands defs (.char '%' :: .char '(' :: name) (.char '%' :: .char '(' :: name)

/-- The input ends within a reference to the name. -/
inductive EndsWithin : GoString → GoString → Prop where
  | copied {r : Rune} {input name : GoString} (hRune : r ≠ .char '%') (hRest : EndsWithin input name) :
      EndsWithin (r :: input) name
  | percentCopied {r : Rune} {input name : GoString} (hRune : r ≠ .char '(') (hRest : EndsWithin input name) :
      EndsWithin (.char '%' :: r :: input) name
  | terminated {reference input name : GoString} (hName : .char ')' ∉ reference) (hRest : EndsWithin input name) :
      EndsWithin (.char '%' :: .char '(' :: (reference ++ .char ')' :: input)) name
  | notTerminated {name : GoString} (hName : .char ')' ∉ name) : EndsWithin (.char '%' :: .char '(' :: name) name

variable {reference input output : GoString} {r : Rune}

theorem Expands.eq_of_undefined (hUndefined : ∀ name, Undefined defs name)
    (hExpands : Expands defs input output) : output = input := by
  induction hExpands with
  | done => rfl
  | copied _ _ ih => rw [ih]
  | percentLast => rfl
  | percentCopied _ _ ih => rw [ih]
  | replaced _ hDefined _ _ =>
    rw [← get_eq_some_iff, get_eq_none_iff.mpr (hUndefined _)] at hDefined
    cases hDefined
  | notDefined _ _ _ ih => rw [ih]
  | notTerminated _ => rfl

theorem readNameToReplace_append (hValid : ∀ r ∈ name, r = .char r.chr) (hName : .char ')' ∉ name) (input : GoString) :
    readNameToReplace (name ++ input) = (name ++ (readNameToReplace input).1, (readNameToReplace input).2) := by
  induction name with
  | nil => rfl
  | cons next name ih =>
    rw [forall_mem_cons] at hValid
    have hChr : next.chr ≠ ')' := fun hChr => hName (mem_cons.mpr (.inl (hChr ▸ hValid.1.symm)))
    rw [cons_append, readNameToReplace, if_neg hChr, ih hValid.2 (not_mem_of_not_mem_cons hName), ← hValid.1,
      cons_append]

theorem scan_induction {motive : GoString → Prop} (done : motive [])
    (copied : ∀ r input, r ≠ .char '%' → motive input → motive (r :: input))
    (percentLast : motive [.char '%'])
    (percentCopied : ∀ r input, r ≠ .char '(' → motive input → motive (.char '%' :: r :: input))
    (terminated : ∀ name input, .char ')' ∉ name → motive input →
      motive (.char '%' :: .char '(' :: (name ++ .char ')' :: input)))
    (notTerminated : ∀ name, .char ')' ∉ name → motive (.char '%' :: .char '(' :: name)) (input : GoString) :
    motive input := by
  induction hLength : input.length using Nat.strongRecOn generalizing input with
  | ind length ih =>
    subst hLength
    match input with
    | [] => exact done
    | r :: input =>
      by_cases hPercent : r = .char '%'
      · subst hPercent
        match input with
        | [] => exact percentLast
        | r :: input =>
          by_cases hOpen : r = .char '('
          · subst hOpen
            by_cases hClose : .char ')' ∈ input
            · obtain ⟨name, rest, rfl, hName⟩ := eq_append_cons_of_mem hClose
              exact terminated name rest hName (ih _ (by simp only [length_cons, length_append]; omega) rest rfl)
            · exact notTerminated input hClose
          · exact percentCopied r input hOpen (ih _ (by simp only [length_cons]; omega) input rfl)
      · exact copied r input hPercent (ih _ (by simp) input rfl)

theorem cut_unique {name' input' : GoString} (hName : r ∉ name) (hName' : r ∉ name')
    (hText : name ++ r :: input = name' ++ r :: input') : name = name' ∧ input = input' := by
  induction name generalizing name' with
  | nil =>
    cases name' with
    | nil => exact ⟨rfl, (List.cons.inj hText).2⟩
    | cons x xs => exact absurd (mem_cons.mpr (.inl (List.cons.inj hText).1)) hName'
  | cons x xs ih =>
    cases name' with
    | nil => exact absurd (mem_cons.mpr (.inl (List.cons.inj hText).1.symm)) hName
    | cons y ys =>
      obtain ⟨rfl, hTail⟩ := List.cons.inj hText
      obtain ⟨rfl, rfl⟩ := ih (not_mem_of_not_mem_cons hName) (not_mem_of_not_mem_cons hName') hTail
      exact ⟨rfl, rfl⟩

theorem Expands.of_copied (hRune : r ≠ .char '%')
    (hExpands : Expands defs (r :: input) (r :: output)) : Expands defs input output := by
  generalize hOutput : r :: output = written at hExpands
  cases hExpands with
  | copied _ hRest =>
    cases hOutput
    exact hRest
  | percentLast | percentCopied _ _ | replaced _ _ _ | notDefined _ _ _ | notTerminated _ => exact absurd rfl hRune

theorem Expands.of_percentCopied (hRune : r ≠ .char '(') {input output : GoString}
    (hExpands : Expands defs (.char '%' :: r :: input) (.char '%' :: r :: output)) : Expands defs input output := by
  generalize hOutput : Rune.char '%' :: r :: output = written at hExpands
  cases hExpands with
  | copied hPercent _ => exact absurd rfl hPercent
  | percentCopied _ hRest =>
    cases hOutput
    exact hRest
  | replaced _ _ _ | notDefined _ _ _ | notTerminated _ => exact absurd rfl hRune

theorem Expands.of_terminated (hName : .char ')' ∉ name) {input written : GoString}
    (hExpands : Expands defs (.char '%' :: .char '(' :: (name ++ .char ')' :: input)) written) :
    ∃ output, Expands defs input output ∧
      written = (defs.get name).getD (.char '%' :: .char '(' :: (name ++ [.char ')'])) ++ output := by
  generalize hText : name ++ .char ')' :: input = text at hExpands
  cases hExpands with
  | copied hPercent _ => exact absurd rfl hPercent
  | percentCopied hOpen _ => exact absurd rfl hOpen
  | replaced hName' hDefined hRest =>
    obtain ⟨rfl, rfl⟩ := cut_unique hName hName' hText
    exact ⟨_, hRest, by rw [get_eq_some_iff.mpr hDefined, Option.getD_some]⟩
  | notDefined hName' hUndefined hRest =>
    obtain ⟨rfl, rfl⟩ := cut_unique hName hName' hText
    exact ⟨_, hRest, by rw [get_eq_none_iff.mpr hUndefined]; simp⟩
  | notTerminated hName' =>
    rw [← hText] at hName'
    exact absurd (mem_append_right _ mem_cons_self) hName'

theorem Expands.of_notTerminated (hName : .char ')' ∉ name) {written : GoString}
    (hExpands : Expands defs (.char '%' :: .char '(' :: name) written) : written = .char '%' :: .char '(' :: name := by
  cases hExpands with
  | copied hPercent _ => exact absurd rfl hPercent
  | percentCopied hOpen _ => exact absurd rfl hOpen
  | replaced _ _ _ | notDefined _ _ _ => exact absurd (mem_append_right _ mem_cons_self) hName
  | notTerminated _ => rfl

theorem EndsWithin.cases_copied (hRune : r ≠ .char '%') : EndsWithin (r :: input) name ↔ EndsWithin input name := by
  refine ⟨fun hEnds => ?_, .copied hRune⟩
  cases hEnds with
  | copied _ hRest => exact hRest
  | percentCopied _ _ | terminated _ _ | notTerminated _ => exact absurd rfl hRune

theorem EndsWithin.cases_percentCopied (hRune : r ≠ .char '(') {input name : GoString} :
    EndsWithin (.char '%' :: r :: input) name ↔ EndsWithin input name := by
  refine ⟨fun hEnds => ?_, .percentCopied hRune⟩
  cases hEnds with
  | copied hPercent _ => exact absurd rfl hPercent
  | percentCopied _ hRest => exact hRest
  | terminated _ _ | notTerminated _ => exact absurd rfl hRune

theorem EndsWithin.cases_terminated (hReference : .char ')' ∉ reference) {input name : GoString} :
    EndsWithin (.char '%' :: .char '(' :: (reference ++ .char ')' :: input)) name ↔ EndsWithin input name := by
  refine ⟨fun hEnds => ?_, .terminated hReference⟩
  generalize hText : reference ++ .char ')' :: input = text at hEnds
  cases hEnds with
  | copied hPercent _ => exact absurd rfl hPercent
  | percentCopied hOpen _ => exact absurd rfl hOpen
  | terminated hName hRest =>
    obtain ⟨rfl, rfl⟩ := cut_unique hReference hName hText
    exact hRest
  | notTerminated hName =>
    rw [← hText] at hName
    exact absurd (mem_append_right _ mem_cons_self) hName

theorem EndsWithin.cases_notTerminated (hReference : .char ')' ∉ reference) {name : GoString} :
    EndsWithin (.char '%' :: .char '(' :: reference) name ↔ name = reference := by
  constructor
  · intro hEnds
    cases hEnds with
    | copied hPercent _ => exact absurd rfl hPercent
    | percentCopied hOpen _ => exact absurd rfl hOpen
    | terminated _ _ => exact absurd (mem_append_right _ mem_cons_self) hReference
    | notTerminated _ => rfl
  · rintro rfl
    exact .notTerminated hReference

theorem expandRunes_copied (hValid : r = .char r.chr) (hRune : r ≠ .char '%') (input : GoString) :
    expandRunes defs (r :: input) = r :: expandRunes defs input := by
  have hChr : r.chr ≠ '%' := fun hChr => hRune (hChr ▸ hValid)
  rw [expandRunes.eq_def]
  dsimp only
  rw [if_pos hChr, ← hValid]

theorem expandRunes_percentCopied (hValid : r = .char r.chr) (hRune : r ≠ .char '(') (input : GoString) :
    expandRunes defs (.char '%' :: r :: input) = .char '%' :: r :: expandRunes defs input := by
  have hChr : r.chr ≠ '(' := fun hChr => hRune (hChr ▸ hValid)
  rw [expandRunes, if_neg (fun h => h rfl), if_pos hChr, ← hValid]

theorem expandRunes_reference (input : GoString) : expandRunes defs (.char '%' :: .char '(' :: input) =
      (defs.get (readNameToReplace input).1).getD
        (.char '%' :: .char '(' :: ((readNameToReplace input).1 ++ [.char ')'])) ++
        expandRunes defs (readNameToReplace input).2 := by
  rw [expandRunes, if_neg (fun h => h rfl), if_neg (fun h => h rfl)]
  cases defs.get (readNameToReplace input).1 <;> rfl

theorem expandRunes_expands_iff (hValid : ∀ r ∈ input, r = .char r.chr) : Expands defs input (expandRunes defs input) ↔
      ∀ name, EndsWithin input name → FirstDefines defs name (.char '%' :: .char '(' :: name) := by
  induction input using scan_induction with
  | done =>
    rw [expandRunes]
    exact ⟨fun _ name hEnds => (by cases hEnds), fun _ => .done⟩
  | copied r input hRune ih =>
    rw [forall_mem_cons] at hValid
    rw [expandRunes_copied hValid.1 hRune]
    simp only [EndsWithin.cases_copied hRune]
    exact Iff.trans ⟨.of_copied hRune, .copied hRune⟩ (ih hValid.2)
  | percentLast =>
    rw [expandRunes, if_neg (fun h => h rfl)]
    refine ⟨fun _ name hEnds => ?_, fun _ => .percentLast⟩
    cases hEnds with
    | copied hPercent _ => exact absurd rfl hPercent
  | percentCopied r input hRune ih =>
    rw [forall_mem_cons, forall_mem_cons] at hValid
    rw [expandRunes_percentCopied hValid.2.1 hRune]
    simp only [EndsWithin.cases_percentCopied hRune]
    exact Iff.trans ⟨.of_percentCopied hRune, .percentCopied hRune⟩ (ih hValid.2.2)
  | terminated name input hName ih =>
    rw [forall_mem_cons, forall_mem_cons, forall_mem_append, forall_mem_cons] at hValid
    obtain ⟨-, -, hValidName, -, hValidInput⟩ := hValid
    have hEnd : readNameToReplace (.char ')' :: input) = ([], input) := rfl
    rw [expandRunes_reference, readNameToReplace_append hValidName hName, hEnd, append_nil]
    simp only [EndsWithin.cases_terminated hName]
    rw [← ih hValidInput]
    constructor
    · intro hExpands
      obtain ⟨output, hRest, hWritten⟩ := hExpands.of_terminated hName
      rwa [append_cancel_left hWritten]
    · intro hRest
      cases hDefined : defs.get name with
      | none => simpa using hRest.notDefined hName (get_eq_none_iff.mp hDefined)
      | some value => exact hRest.replaced hName (get_eq_some_iff.mp hDefined)
  | notTerminated name hName =>
    rw [forall_mem_cons, forall_mem_cons] at hValid
    have hRead : readNameToReplace name = (name, []) := by
      simpa [readNameToReplace] using readNameToReplace_append hValid.2.2 hName []
    rw [expandRunes_reference, hRead, expandRunes, append_nil]
    simp only [EndsWithin.cases_notTerminated hName, forall_eq]
    constructor
    · intro hExpands
      have hWritten := hExpands.of_notTerminated hName
      rw [← get_eq_some_iff]
      cases hDefined : defs.get name with
      | none =>
        -- the parenthesis that is written is not in the input
        rw [hDefined] at hWritten
        simp at hWritten
      | some value =>
        rw [hDefined] at hWritten
        exact congrArg some hWritten
    · intro hDefined
      rw [get_eq_some_iff.mpr hDefined]
      exact .notTerminated hName

theorem expandString_eq_expandRunes (hValid : ∀ r ∈ input, r = .char r.chr) :
    expandString input defs = expandRunes defs input := by
  rw [expandString]
  split
  · rfl
  · rename_i hPercent
    induction input with
    | nil => rw [expandRunes]
    | cons r input ih =>
      rw [forall_mem_cons] at hValid
      simp only [any_cons, Bool.or_eq_true, beq_iff_eq, not_or] at hPercent
      have hRune : r ≠ .char '%' := by
        rintro rfl
        exact hPercent.1 rfl
      rw [expandRunes_copied hValid.1 hRune, ← ih hValid.2 hPercent.2]

/-- References are replaced by their definitions and the rest is copied, if and only if whatever the input ends within
is defined as the text it stands for. -/
theorem expandString_expands_iff (defs : Definitions) (input : String) :
    (Expands defs (.ofString input) (expandString (.ofString input) defs) ∧
      ((∀ name, Undefined defs name) → expandString (.ofString input) defs = .ofString input)) ↔
    ∀ name, EndsWithin (.ofString input) name → FirstDefines defs name (.ofString "%(" ++ name) := by
  have hValid (r : Rune) (hMem : r ∈ GoString.ofString input) : r = .char r.chr := GoString.mem_ofString hMem
  rw [expandString_eq_expandRunes hValid]
  refine Iff.trans ⟨And.left, fun hExpands => ⟨hExpands, fun hUndefined => ?_⟩⟩ (expandRunes_expands_iff hValid)
  exact hExpands.eq_of_undefined hUndefined

/-- Without a definition a parenthesis is added, and with one a reference that is not terminated is replaced. -/
theorem expandString_not_terminated : ¬ Expands [] (.ofString "in %(env") (expandString (.ofString "in %(env") []) ∧
    expandString (.ofString "in %(env") [] = .ofString "in %(env)" ∧
    expandString (.ofString "in %(env") [(∅ : GoMap GoString GoString).put (.ofString "env") (.ofString "prod")] =
      .ofString "in prod" := by
  have hNone : expandString (.ofString "in %(env") [] = .ofString "in %(env)" := by
    simp [expandString, expandRunes, readNameToReplace, Definitions.get, GoString.ofString, Rune.chr]
  refine ⟨?_, hNone, ?_⟩
  · intro hExpands
    rw [hNone] at hExpands
    have hSame := hExpands.eq_of_undefined fun _ _ hMem => absurd hMem not_mem_nil
    simp [GoString.ofString] at hSame
  · simp [expandString, expandRunes, readNameToReplace, Definitions.get, GoString.ofString, Rune.chr]

end KubeStellar.Customize
