import KubeStellar.JsonPath.Leads

/-! # The evaluation in place follows the rewriting

While the value is passed by, the cells of the document hold the rewritten document, and those of the value are as they
were. Once it is not, the value is below itself, or the evaluation does not return.
-/

namespace Json

open List

variable {K A : Type} [DecidableEq K] {t c c' : Json K A} {step : Step K}

theorem child_put (t : Json K A) (step step' : Step K) (c : Json K A) : (t.put step c).child step' =
    if step' = step ∧ t.label.Takes step then some c else t.child step' := by
  cases t <;> cases step <;> cases step' <;> simp [put, child, label, Label.Takes, lookup_assign]
  rename_i elts i j
  rw [getElem?_set]
  by_cases hIndex : i = j <;> by_cases hLess : i < elts.length <;> simp_all [eq_comm]

theorem mem_children_put (hMem : c' ∈ (t.put step c).children) : c' ∈ t.children ∨ c' = c := by
  cases t <;> cases step <;> simp only [put, children] at hMem ⊢ <;>
    first | exact .inl hMem | exact mem_or_eq_of_mem_set hMem | skip
  rename_i members k
  induction members with
  | nil => simpa [assign] using hMem
  | cons m members ih =>
    rw [assign] at hMem
    split at hMem
    · simp only [map_cons, mem_cons] at hMem ⊢
      exact hMem.elim .inr fun h => .inl (.inr h)
    · simp only [map_cons, mem_cons] at hMem ⊢
      exact hMem.elim (fun h => .inl (.inl h)) fun h => (ih h).imp_left .inr

theorem takes_put (c : Json K A) (step' : Step K) : (t.put step c).label.Takes step' ↔ t.label.Takes step' := by
  cases t <;> cases step <;> cases step' <;> simp [put, label, Label.Takes]

theorem put_self (hChild : t.child step = some c) : t.put step c = t := by
  cases t <;> cases step <;> try rfl
  · obtain ⟨hIndex, rfl⟩ := List.getElem?_eq_some_iff.mp hChild
    rw [put, set_getElem_self]
  · rename_i members k
    replace hChild : lookup k members = some c := hChild
    rw [put]
    congr 1
    induction members with
    | nil => cases hChild
    | cons m members ih =>
      rw [lookup] at hChild
      rw [assign]
      split at hChild
      · rename_i hKey
        cases hChild
        rw [if_pos hKey]
      · rename_i hKey
        rw [if_neg hKey, ih hChild]

end Json

namespace KubeStellar.JsonPath.InPlace

open List

open Json (Step Label)

variable {K A B : Type} [DecidableEq K]

theorem cellOf_put (leaf : B → Value (Ref K) A) (ref : Ref K) (t : Json K B) (step : Step K) (c : Json K B) :
    (cellOf leaf ref t).put step (decoded leaf (ref.below [step]) c) = cellOf leaf ref (t.put step c) := by
  cases t with
  | null | leaf b => cases step <;> rfl
  | array elts =>
    cases step with
    | key k => rfl
    | index i =>
      rw [cellOf, Cell.put, Json.put, cellOf]
      congr 1
      apply List.ext_getElem?
      intro j
      rw [getElem?_set, getElem?_mapIdx, getElem?_mapIdx, getElem?_set, length_mapIdx]
      split
      · rename_i hIndex
        subst hIndex
        split <;> rfl
      · rfl
  | object members =>
    cases step with
    | index i => rfl
    | key k =>
      rw [cellOf, Cell.put, Json.put, cellOf]
      congr 1
      induction members with
      | nil => rfl
      | cons m members ih =>
        rw [map_cons, Json.assign, Json.assign]
        by_cases hKey : m.1 = k
        · rw [if_pos hKey, if_pos hKey, map_cons, hKey]
        · rw [if_neg hKey, if_neg hKey, map_cons, ih]

omit [DecidableEq K] in
theorem shown_of_isNode (v : Value (Ref K) A) (ref : Ref K) {t : Marked K A} (hNode : IsNode t) :
    shown v ref t = .ref ref := by
  cases t <;> first | rfl | exact hNode.elim

omit [DecidableEq K] in
theorem isNode_of_takes {t : Json K B} {step : Step K} (hTakes : t.label.Takes step) : IsNode t := by
  cases t <;> cases step <;> trivial

theorem isNode_put {t : Json K B} (hNode : IsNode t) (step : Step K) (c : Json K B) : IsNode (t.put step c) := by
  cases t <;> cases step <;> trivial

variable {v : Value (Ref K) A}

/-- A part of the heap that holds a tree. -/
structure Region (v : Value (Ref K) A) where
  source : Source
  Holds : Heap K (Ref K) A → List (Step K) → Marked K A → Prop
  /-- A step that visits may take. -/
  Admits : Label K (Option A) → Step K → Prop
  /-- Only what is below the place may have changed. -/
  Out : List (Step K) → Heap K (Ref K) A → Heap K (Ref K) A → Prop
  takes : ∀ {label step}, Admits label step → label.Takes step
  tame : ∀ {h place t}, Holds h place t → Tame v h
  cell : ∀ {h place t}, Holds h place t → IsNode t → h ⟨source, place⟩ = cellOf (standIn v) ⟨source, place⟩ t
  child : ∀ {h place t step}, Holds h place t → Admits t.label step →
    Holds h (place ++ [step]) ((t.child step).getD .null)
  refl : ∀ place h, Out place h h
  trans : ∀ {place h h' h''}, Out place h h' → Out place h' h'' → Out place h h''
  put : ∀ {h h' place t step c}, Holds h place t → Admits t.label step → Holds h' (place ++ [step]) c →
    Out (place ++ [step]) h h' →
    Patched v h (h'.write ⟨source, place⟩ step (shown v ⟨source, place ++ [step]⟩ c)) →
    Holds (h'.write ⟨source, place⟩ step (shown v ⟨source, place ++ [step]⟩ c)) place (t.put step c) ∧
      Out place h (h'.write ⟨source, place⟩ step (shown v ⟨source, place ++ [step]⟩ c)) ∧
        ∀ step', Admits t.label step' → Admits (t.put step c).label step'

namespace Region

variable {region : Region v} {h h' : Heap K (Ref K) A} {place : List (Step K)} {t c : Marked K A} {step : Step K}

theorem heap_child (hHolds : region.Holds h place t) (hNode : IsNode t) (step : Step K) :
    ((h ⟨region.source, place⟩).child step).getD .null =
      shown v ⟨region.source, place ++ [step]⟩ ((t.child step).getD .null) := by
  rw [region.cell hHolds hNode, child_cellOf]
  cases t.child step <;> rfl

theorem heap_takes (hHolds : region.Holds h place t) (hTakes : t.label.Takes step) :
    (h ⟨region.source, place⟩).label.Takes step := by
  rw [region.cell hHolds (isNode_of_takes hTakes)]
  cases t <;> cases step <;> simp_all [cellOf, Cell.label, Json.label, Label.Takes]

theorem visits_eq (hHolds : region.Holds h place t) (hMark : t ≠ mark) (definite : Bool) (sel : Selector K) :
    visits definite sel (h.label (shown v ⟨region.source, place⟩ t)) = visits definite sel t.label := by
  cases t with
  | null => cases sel <;> rfl
  | leaf a =>
    cases a with
    | none => exact absurd rfl hMark
    | some a => cases sel <;> rfl
  | array elts =>
    rw [shown, decoded, Heap.label, region.cell hHolds trivial, cellOf, Cell.label, length_mapIdx]
    cases sel <;> rfl
  | object members =>
    rw [shown, decoded, Heap.label, region.cell hHolds trivial, cellOf, Cell.label, map_map]
    cases sel <;> rfl

/-- On trees that are `Good`, a run returns what the rewriting gives; where that gives nothing, a run that returns is
`Bad`. -/
def Follows (region : Region v) (Good : Marked K A → Prop) (Bad : Heap K (Ref K) A → Value (Ref K) A → Prop)
    (body : Marked K A → Option (Marked K A)) (path : List (Selector K)) (definite : Bool) : Prop :=
  ∀ ⦃h place t⦄, Good t → region.Holds h place t →
    (∀ t', body t = some t' → Good t' ∧ ∃ h', Runs v none path definite h (shown v ⟨region.source, place⟩ t) h'
      (shown v ⟨region.source, place⟩ t') ∧ region.Holds h' place t' ∧ region.Out place h h') ∧
    (body t = none →
      ∀ h' x', Runs v none path definite h (shown v ⟨region.source, place⟩ t) h' x' → Bad h' x')

/-- What is bad below a node is bad there, and stays so. -/
structure Inherits (region : Region v) (Bad Bad' : Heap K (Ref K) A → Value (Ref K) A → Prop) : Prop where
  later : ∀ {h h' x}, Bad' h x → Patched v h h' → Bad' h' x
  up : ∀ {h place step c}, Tame v h → Bad h c →
    (h.write ⟨region.source, place⟩ step c ⟨region.source, place⟩).child step = some c →
    (∀ r', c = .ref r' → c = v ∨ r'.source ≠ region.source ∨ place.length < r'.place.length) →
    Bad' (h.write ⟨region.source, place⟩ step c) (.ref ⟨region.source, place⟩)

structure Carries (region : Region v) (Good Good' : Marked K A → Prop) : Prop where
  down : ∀ {t step}, Good' t → region.Admits t.label step → Good ((t.child step).getD .null)
  up : ∀ {t step c}, Good' t → region.Admits t.label step → Good c → Good' (t.put step c)

variable {Good Good' : Marked K A → Prop} {Bad Bad' : Heap K (Ref K) A → Value (Ref K) A → Prop}
  {body : Marked K A → Option (Marked K A)} {path : List (Selector K)} {definite : Bool} {steps : List (Step K)}

theorem Follows.imp (hFollows : region.Follows Good Bad body path definite) (hImp : ∀ h x, Bad h x → Bad' h x) :
    region.Follows Good Bad' body path definite :=
  fun _ _ _ hGood hHolds => (hFollows hGood hHolds).imp_right fun hNone hRun h' x' hRuns =>
    hImp h' x' (hNone hRun h' x' hRuns)

/-- The visits to children, one after the other. -/
theorem Follows.visits (hFollows : region.Follows Good Bad body path definite) (hInherits : region.Inherits Bad Bad')
    (hCarries : region.Carries Good Good') (hGood : Good' t) (hAdmits : ∀ step ∈ steps, region.Admits t.label step)
    (hHolds : region.Holds h place t) :
    (∀ t', steps.foldlM (visitTree body) t = some t' → Good' t' ∧
      shown v ⟨region.source, place⟩ t' = shown v ⟨region.source, place⟩ t ∧
      ∃ h', Runs v (some steps) path definite h (shown v ⟨region.source, place⟩ t) h'
          (shown v ⟨region.source, place⟩ t) ∧ region.Holds h' place t' ∧ region.Out place h h') ∧
    (steps.foldlM (visitTree body) t = none →
      ∀ h' x', Runs v (some steps) path definite h (shown v ⟨region.source, place⟩ t) h' x' →
        Bad' h' (shown v ⟨region.source, place⟩ t)) := by
  induction steps generalizing h t with
  | nil =>
    refine ⟨fun t' hRun => ?_, fun hRun => by cases hRun⟩
    cases hRun
    exact ⟨hGood, rfl, h, .done, hHolds, region.refl place h⟩
  | cons step steps ih =>
    obtain ⟨hHead, hAdmits⟩ := forall_mem_cons.mp hAdmits
    have hTakes := region.takes hHead
    have hNode := isNode_of_takes hTakes
    obtain ⟨hSome, hNone⟩ := hFollows (hCarries.down hGood hHead) (region.child hHolds hHead)
    have hChild := heap_child hHolds hNode step
    rw [shown_of_isNode v _ hNode, foldlM_cons, visitTree]
    cases hBody : body ((t.child step).getD .null) with
    | none =>
      refine ⟨fun t' hRun => (by cases hRun), fun _ h' x' hAll => ?_⟩
      cases hAll with
      | @visit _ _ _ _ _ _ h1 c _ hRuns hRest =>
        rw [hChild] at hRuns
        obtain ⟨hPatched, hValue⟩ := hRuns.patched
        refine hInherits.later (hInherits.up ((region.tame hHolds).patched hPatched) (hNone hBody h1 c hRuns) ?_
          fun r' hr' => ?_) hRest.patched.1
        · rw [Heap.child_write, if_pos ⟨⟨rfl, rfl⟩, (hPatched.takes _ _).mpr (heap_takes hHolds hTakes)⟩]
        · rcases hValue with hSame | hValue
          · generalize (t.child step).getD .null = d at hSame
            rw [hSame] at hr'
            cases d with
            | null => cases hr'
            | leaf a =>
              cases a with
              | none => exact .inl hSame
              | some a => cases hr'
            | array _ | object _ =>
              cases hr'
              exact .inr (.inr (by simp))
          · exact .inl hValue
    | some d =>
      obtain ⟨hGoodD, h1, hRuns, hHolds1, hOut⟩ := hSome d hBody
      rw [← hChild] at hRuns
      obtain ⟨hHolds2, hOut2, hStill⟩ := region.put hHolds hHead hHolds1 hOut (hRuns.patched.1.write hRuns.patched.2)
      obtain ⟨hSome', hNone'⟩ := ih (hCarries.up hGood hHead hGoodD)
        (fun step' hMem => hStill step' (hAdmits step' hMem)) hHolds2
      rw [shown_of_isNode v _ (isNode_put hNode step d)] at hSome' hNone'
      refine ⟨fun t' hRun => ?_, fun hRun h' x' hAll => ?_⟩
      · obtain ⟨hGood', hSame, h', hRest, hHolds', hOut'⟩ := hSome' t' hRun
        exact ⟨hGood', hSame, h', .visit hRuns hRest, hHolds', region.trans hOut2 hOut'⟩
      · cases hAll with
        | visit hRuns' hRest =>
          obtain ⟨rfl, rfl⟩ := hRuns'.unique hRuns
          exact hNone' hRun h' _ hRest

/-- What a path does where the value was put. -/
structure AtMark (v : Value (Ref K) A) (Bad : Heap K (Ref K) A → Value (Ref K) A → Prop) (spared : Bool)
    (path : List (Selector K)) (h : Heap K (Ref K) A) (definite : Bool) : Prop where
  passed : spared = true → Runs v none path definite h v h v
  found : spared = false → ∀ {h' x'}, Runs v none path definite h v h' x' → Bad h' x'

variable {sel : Selector K} {spared : Bool}

theorem Follows.through (hSel : Simple sel)
    (hFollows : region.Follows Good Bad body path (definiteAfter sel definite)) (hInherits : region.Inherits Bad Bad')
    (hCarries : region.Carries Good Good')
    (hAdmits : ∀ {label steps}, JsonPath.visits definite sel label = some steps →
      ∀ step ∈ steps, region.Admits label step)
    (hMark : ∀ {h place}, Good' mark → region.Holds h place mark → AtMark v Bad' spared (sel :: path) h definite) :
    region.Follows Good' Bad' (JsonPath.through spared body definite sel) (sel :: path) definite := by
  intro h place t hGood hHolds
  by_cases hEq : t = mark
  · subst hEq
    have hMark := hMark hGood hHolds
    cases hSpared : spared with
    | false =>
      refine ⟨fun t' hRun => (by cases hRun), fun _ h' x' hRuns => hMark.found hSpared hRuns⟩
    | true =>
      refine ⟨fun t' hRun => ?_, fun hRun => by cases hRun⟩
      cases hRun
      exact ⟨hGood, h, hMark.passed hSpared, hHolds, region.refl place h⟩
  · have hThrough : JsonPath.through spared body definite sel t =
        (JsonPath.visits definite sel t.label).bind fun steps => steps.foldlM (visitTree body) t := by
      cases t with
      | leaf a =>
        cases a with
        | none => exact absurd rfl hEq
        | some a => rfl
      | null | array _ | object _ => rfl
    have hVisits := visits_eq hHolds hEq definite sel
    rw [hThrough]
    cases hSteps : JsonPath.visits definite sel t.label with
    | none =>
      refine ⟨fun t' hRun => (by cases hRun), fun _ h' x' hRuns => ?_⟩
      obtain ⟨-, steps, hSome, -⟩ := (runs_simple_iff hSel).mp hRuns
      rw [hVisits, hSteps] at hSome
      cases hSome
    | some steps =>
      obtain ⟨hSome, hNone⟩ := hFollows.visits hInherits hCarries hGood (hAdmits hSteps) hHolds
      refine ⟨fun t' hRun => ?_, fun hRun h' x' hRuns => ?_⟩
      · obtain ⟨hGood', hShown, h', hAll, hHolds', hOut⟩ := hSome t' hRun
        exact ⟨hGood', h', (runs_simple_iff hSel).mpr ⟨hShown, steps, hVisits.trans hSteps, hAll⟩, hHolds', hOut⟩
      · obtain ⟨rfl, steps', hSteps', hAll⟩ := (runs_simple_iff hSel).mp hRuns
        rw [hVisits, hSteps] at hSteps'
        cases hSteps'
        exact hNone hRun h' _ hAll

omit region in
theorem value_of_list {subs : List (Selector K)} (hSubs : ∀ sub ∈ subs, Simple sub) {x x' : Value (Ref K) A}
    (hRuns : Runs v none (.list subs :: path) definite h x h' x') : x' = x := by
  induction subs generalizing h x with
  | nil =>
    cases hRuns with
    | select hSel => cases hSel
    | listNil => rfl
  | cons sub subs ih =>
    obtain ⟨hSub, hSubs⟩ := forall_mem_cons.mp hSubs
    cases hRuns with
    | select hSel => cases hSel
    | listCons hFirst hRest => exact (ih hSubs hRest).trans ((runs_simple_iff hSub).mp hFirst).1

theorem Follows.list {subs : List (Selector K)} {run : Selector K → Marked K A → Option (Marked K A)}
    (hSubs : ∀ sub ∈ subs, Simple sub) (hLater : ∀ {h h' x}, Bad h x → Patched v h h' → Bad h' x)
    (hFollows : ∀ sub ∈ subs, region.Follows Good Bad (run sub) (sub :: path) definite) :
    region.Follows Good Bad (fun t => subs.foldlM (fun t sub => run sub t) t) (.list subs :: path) definite := by
  induction subs with
  | nil =>
    intro h place t hGood hHolds
    refine ⟨fun t' hRun => ?_, fun hRun => by cases hRun⟩
    cases hRun
    exact ⟨hGood, h, .listNil, hHolds, region.refl place h⟩
  | cons sub subs ih =>
    intro h place t hGood hHolds
    obtain ⟨hSub, hSubs⟩ := forall_mem_cons.mp hSubs
    obtain ⟨hHead, hFollows⟩ := forall_mem_cons.mp hFollows
    obtain ⟨hSome, hNone⟩ := hHead hGood hHolds
    dsimp only
    rw [foldlM_cons]
    cases hFirst : run sub t with
    | none =>
      refine ⟨fun t' hRun => (by cases hRun), fun _ h' x' hRuns => ?_⟩
      cases hRuns with
      | select hSel => cases hSel
      | listCons hFirst' hRest =>
        rw [value_of_list hSubs hRest]
        exact hLater (hNone hFirst _ _ hFirst') hRest.patched.1
    | some t1 =>
      obtain ⟨hGood1, h1, hRuns1, hHolds1, hOut1⟩ := hSome t1 hFirst
      obtain ⟨hSome', hNone'⟩ := ih hSubs hFollows hGood1 hHolds1
      refine ⟨fun t' hRun => ?_, fun hRun h' x' hRuns => ?_⟩
      · obtain ⟨hGood', h', hRuns', hHolds', hOut'⟩ := hSome' t' hRun
        exact ⟨hGood', h', .listCons hRuns1 hRuns', hHolds', region.trans hOut1 hOut'⟩
      · cases hRuns with
        | select hSel => cases hSel
        | listCons hFirst' hRest =>
          obtain ⟨rfl, rfl⟩ := hFirst'.unique hRuns1
          exact hNone' hRun h' x' hRest

def ShallowBelow (n : Nat) (t : Marked K A) : Prop := ∃ m < n, Shallow m t

theorem follows_shallowBelow {n : Nat} (hFollows : ∀ m < n, region.Follows (Shallow m) Bad body path definite) :
    region.Follows (ShallowBelow n) Bad body path definite := by
  rintro h place t ⟨m, hLess, hShallow⟩ hHolds
  obtain ⟨hSome, hNone⟩ := hFollows m hLess hShallow hHolds
  refine ⟨fun t' hRun => ?_, hNone⟩
  obtain ⟨hGood, hRest⟩ := hSome t' hRun
  exact ⟨⟨m, hLess, hGood⟩, hRest⟩

omit [DecidableEq K] in
theorem shallow_scalar {t : Json K B} (hScalar : t = .null ∨ ∃ b, t = .leaf b) (n : Nat) : Shallow n t :=
  Shallow.mono (n := 0) hScalar (Nat.zero_le n)

theorem carries_shallow (region : Region v) (n : Nat) : region.Carries (ShallowBelow n) (Shallow n) where
  down {t step} hShallow hAdmits := by
    cases hChild : t.child step with
    | some c => exact hShallow.child_of_mem (Json.mem_children hChild)
    | none =>
      cases n with
      | zero => rcases hShallow with rfl | ⟨a, rfl⟩ <;> exact (isNode_of_takes (region.takes hAdmits)).elim
      | succ n => exact ⟨n, Nat.lt_succ_self n, shallow_scalar (.inl rfl) n⟩
  up {t step c} hShallow hAdmits hBelow := by
    obtain ⟨m, hLess, hChild⟩ := hBelow
    cases n with
    | zero => cases hLess
    | succ n =>
      intro c' hMem
      rcases Json.mem_children_put hMem with hMem | rfl
      · exact hShallow c' hMem
      · exact hChild.mono (Nat.le_of_lt_succ hLess)

theorem inherits_false (region : Region v) : region.Inherits (fun _ _ => False) fun _ _ => False :=
  ⟨fun hBad => hBad.elim, fun _ hBad => hBad.elim⟩

theorem Follows.descend {first : Marked K A → Option (Marked K A)} {depth n : Nat}
    (hFirst : ∀ n ≤ depth, region.Follows (Shallow n) Bad first path false)
    (hDoomed : ∀ {h place t h1 x1 h' x'}, region.Holds h place t →
      Runs v none path false h (shown v ⟨region.source, place⟩ t) h1 x1 → Bad h1 x1 →
      ¬ Runs v none (.everyChild :: .recurse :: path) false h1 x1 h' x')
    (hAdmits : ∀ {label steps}, JsonPath.visits false .everyChild label = some steps →
      ∀ step ∈ steps, region.Admits label step)
    (hMark : ∀ {h place}, region.Holds h place mark →
      AtMark v (fun _ _ => False) spared (.everyChild :: .recurse :: path) h false)
    {budget : Nat} (hBudget : n < budget) (hDepth : n ≤ depth) (definite : Bool) :
    region.Follows (Shallow n) (fun _ _ => False) (JsonPath.descend first spared budget)
      (.recurse :: path) definite := by
  induction budget generalizing n definite with
  | zero => omega
  | succ budget ih =>
    intro h place t hShallow hHolds
    obtain ⟨hSome, hNone⟩ := hFirst n hDepth hShallow hHolds
    have hChildren : region.Follows (Shallow n) (fun _ _ => False)
        (JsonPath.through spared (JsonPath.descend first spared budget) false .everyChild)
        (.everyChild :: .recurse :: path) false :=
      Follows.through .everyChild (follows_shallowBelow fun m hLess => ih (by omega) (by omega) _)
        (inherits_false region) (carries_shallow region n) hAdmits fun _ => hMark
    rw [JsonPath.descend]
    cases hRun : first t with
    | none =>
      refine ⟨fun t' hRun => (by cases hRun), fun _ h' x' hRuns => ?_⟩
      cases hRuns with
      | select hSel => cases hSel
      | recurse hFirst hRest => exact hDoomed hHolds hFirst (hNone hRun _ _ hFirst) hRest
    | some t1 =>
      obtain ⟨hShallow1, h1, hRuns1, hHolds1, hOut1⟩ := hSome t1 hRun
      obtain ⟨hSome', hNone'⟩ := hChildren hShallow1 hHolds1
      refine ⟨fun t' hRun => ?_, fun hRun h' x' hRuns => ?_⟩
      · obtain ⟨hShallow', h', hRuns', hHolds', hOut'⟩ := hSome' t' hRun
        exact ⟨hShallow', h', .recurse hRuns1 hRuns', hHolds', region.trans hOut1 hOut'⟩
      · cases hRuns with
        | select hSel => cases hSel
        | recurse hFirst hRest =>
          obtain ⟨rfl, rfl⟩ := hFirst.unique hRuns1
          exact hNone' hRun h' x' hRest

end Region

end KubeStellar.JsonPath.InPlace
