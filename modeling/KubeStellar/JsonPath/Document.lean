import KubeStellar.JsonPath.Simulation

/-! # The document and the value

The two parts of the heap: that of the value is not changed while the path passes the value by, and that of the document
holds the rewritten document.
-/

namespace KubeStellar.JsonPath.InPlace

open List Region

open Json (Step Label)

variable {K A : Type} [DecidableEq K] {v x : Value (Ref K) A} {h h' : Heap K (Ref K) A} {value t c : Marked K A}
  {place : List (Step K)} {step : Step K} {path : List (Selector K)} {sel : Selector K} {depth n : Nat}

/-- The node leads below itself to the value. -/
def Linked (v : Value (Ref K) A) (h : Heap K (Ref K) A) (x : Value (Ref K) A) : Prop :=
  ∃ r, x = .ref r ∧ LeadsBelow h v r

theorem Linked.leads (hLinked : Linked v h x) : Leads h v x := by
  obtain ⟨r, rfl, hLeads⟩ := hLinked
  exact hLeads.leads

theorem Linked.later (hLinked : Linked v h x) (hPatched : Patched v h h') : Linked v h' x := by
  obtain ⟨r, rfl, hLeads⟩ := hLinked
  exact ⟨r, rfl, hLeads.patched hPatched⟩

theorem inherits_linked (region : Region v) : region.Inherits (fun h x => Leads h v x) (Linked v) where
  later := Linked.later
  up {_ _ step c} hTame hLeads hThere hBelow := ⟨_, rfl, step, c, hThere, hLeads.write hTame step c hBelow⟩

/-- What leads to the value below a tree, leads to it from the root of the tree. -/
theorem Linked.root (hPatched : Patched v h h') {ref : Ref K} (hShows : Shows (standIn v) h ref t)
    (hGet : t.get place = some c) (hLinked : Linked v h' (shown v (ref.below place) c)) :
    Linked v h' (shown v ref t) := by
  induction place generalizing ref t with
  | nil =>
    cases hGet
    rwa [Ref.below_nil] at hLinked
  | cons step place ih =>
    obtain ⟨d, hChild, hGet⟩ := Option.bind_eq_some_iff.mp hGet
    have hNode : IsNode t := by cases t <;> cases step <;> trivial
    rw [← singleton_append, ← Ref.below_below] at hLinked
    have hBelow := ih (hShows.child hChild) hGet hLinked
    have hHeap : (h ref).child step = some (shown v (ref.below [step]) d) := by
      rw [hShows.cell hNode, child_cellOf, hChild]
      rfl
    obtain ⟨c', hChild', hValue⟩ := hPatched.kept hHeap
    refine ⟨ref, shown_of_isNode v ref hNode, step, c', hChild', ?_⟩
    rcases hValue with rfl | rfl
    · exact hBelow.leads
    · exact .here

theorem get_concat (hGet : value.get place = some t) (step : Step K) : value.get (place ++ [step]) = t.child step := by
  rw [Json.get_append, hGet, Option.bind_some, Json.get]
  cases t.child step <;> rfl

section Value

variable (hShows : Shows (standIn v) h ⟨.value, []⟩ value) (hTame : Tame v h)

/-- The value, which does not change. -/
def valueRegion : Region v where
  source := .value
  Holds h' place t := h' = h ∧ value.get place = some t
  Admits := Label.Has
  Out _ h h' := h' = h
  takes := takes_of_has
  tame := by
    rintro _ _ _ ⟨rfl, -⟩
    exact hTame
  cell := by
    rintro _ place t ⟨rfl, hGet⟩ hNode
    exact (hShows.get hGet).cell hNode
  child := by
    rintro _ place t step ⟨rfl, hGet⟩ hHas
    obtain ⟨c, hChild⟩ := Option.isSome_iff_exists.mp ((t.child_isSome_iff step).mpr hHas)
    exact ⟨rfl, by rw [get_concat hGet, hChild, Option.getD_some]⟩
  refl _ _ := rfl
  trans hFirst hThen := hThen.trans hFirst
  put := by
    rintro h1 h2 place t step c ⟨hFirst, hGet⟩ hHas ⟨hThen, hChild⟩ - -
    rw [get_concat hGet] at hChild
    have hSame : h.write ⟨.value, place⟩ step (shown v ⟨.value, place ++ [step]⟩ c) = h := by
      have hCell : h ⟨.value, place⟩ = cellOf (standIn v) ⟨.value, place⟩ t :=
        (hShows.get hGet).cell (isNode_of_takes (takes_of_has hHas))
      have hPut := cellOf_put (standIn v) ⟨.value, place⟩ t step c
      rw [Json.put_self hChild, ← hCell] at hPut
      exact (congrArg _ hPut).trans (Function.update_eq_self _ _)
    rw [hThen, hSame, Json.put_self hChild]
    exact ⟨⟨rfl, hGet⟩, hFirst.symm, fun _ => id⟩

/-- What a path leaves that found a place in the value. -/
def Found (v : Value (Ref K) A) : List (Selector K) → Heap K (Ref K) A → Value (Ref K) A → Prop
  | [], _, x => x = v
  | .recurse :: _, _, _ => False
  | _, h, x => Linked v h x

theorem Found.leads (hFound : Found v path h x) : Leads h v x := by
  cases path with
  | nil =>
    obtain rfl : x = v := hFound
    exact .here
  | cons sel path =>
    cases sel with
    | recurse => exact hFound.elim
    | name _ | range _ | list _ | everyChild => exact Linked.leads hFound

variable (hRoot : shown v ⟨.value, []⟩ value = v) (hMarks : ∀ place, value.get place ≠ some mark)

include hRoot hMarks

theorem follows_value (hChild : value.child step = some c) (hPath : ∀ sel ∈ path, Flat sel) (hDepth : n ≤ depth) :
    (valueRegion hShows hTame).Follows (Shallow n) (Found v path) (rewriteWith none (fun _ => false) depth path false)
      path false := by
  have hNode : IsNode value := by cases value <;> cases step <;> trivial
  induction path generalizing n with
  | nil =>
    refine fun h' place t _ _ => ⟨fun t' hRun => (by cases hRun), fun _ h' x' hRuns => ?_⟩
    cases hRuns
    rfl
  | cons sel path ih =>
    obtain ⟨hSel, hRest⟩ := forall_mem_cons.mp hPath
    have hSimple {sel : Selector K} (hSel : Simple sel) : (valueRegion hShows hTame).Follows (Shallow n) (Linked v)
        (JsonPath.through false (rewriteWith none (fun _ => false) depth path (definiteAfter sel false)) false sel)
        (sel :: path) false := by
      refine Follows.through hSel ?_ (inherits_linked _) (carries_shallow _ n)
        (fun hSteps step hMem => (mem_visits hSteps hMem).2 rfl) fun _ hHolds => absurd hHolds.2 (hMarks _)
      rw [definiteAfter_false]
      exact (follows_shallowBelow fun m hLess => ih hRest (by omega)).imp fun _ _ => Found.leads
    cases hSel with
    | name k => exact hSimple (.name k)
    | range r => exact hSimple (.range r)
    | everyChild => exact hSimple .everyChild
    | list hSubs =>
      exact Follows.list (fun sub hMem => simple_of_member (hSubs sub hMem)) Linked.later
        fun sub hMem => hSimple (simple_of_member (hSubs sub hMem))
    | recurse =>
      refine Follows.descend (fun n hDepth => ih hRest hDepth) ?_
        (fun hSteps step hMem => (mem_visits hSteps hMem).2 rfl) (fun hHolds => absurd hHolds.2 (hMarks _))
        (Nat.lt_succ_of_le hDepth) hDepth false
      rintro h' place t h1 x1 h2 x2 ⟨rfl, hGet⟩ hRuns hFound
      have hLinked (hFound : Linked v h1 x1) : ¬ Runs v none (.everyChild :: .recurse :: path) false h1 x1 h2 x2 := by
        refine Hot.not_runs_children ⟨hFound.leads, ?_⟩
        rcases hRuns.patched.2 with rfl | rfl
        · have hAgain := Linked.root hRuns.patched.1 hShows hGet hFound
          rwa [hRoot] at hAgain
        · exact hFound
      cases path with
      | nil =>
        cases hRuns
        rw [← hRoot, shown_of_isNode v _ hNode]
        have hHeap := child_cellOf (standIn v) ⟨.value, []⟩ value step
        rw [← hShows.cell hNode, hChild] at hHeap
        exact not_runs_children hHeap
      | cons sel path =>
        cases sel with
        | recurse => exact hFound.elim
        | name _ | range _ | list _ | everyChild => exact hLinked hFound

/-- Where the value was put, a selector passes it by or not. -/
theorem atMark_value (hValue : Shallow depth value) (hSel : Simple sel)
    {Bad Bad' : Heap K (Ref K) A → Value (Ref K) A → Prop} (hInherits : (valueRegion hShows hTame).Inherits Bad Bad')
    (hFollows : ∀ {step c}, value.child step = some c → ∀ n ≤ depth, (valueRegion hShows hTame).Follows (Shallow n) Bad
      (rewriteWith none (fun _ => false) depth path false) path false) :
    AtMark v Bad' (untouched value depth (sel :: path)) (sel :: path) h false := by
  have hAdmits {label : Label K (Option A)} {steps : List (Step K)} (hSteps : visits false sel label = some steps)
      (step : Step K) (hMem : step ∈ steps) : label.Has step := (mem_visits hSteps hMem).2 rfl
  have hExists {step : Step K} (hHas : value.label.Has step) : ∃ c, value.child step = some c :=
    Option.isSome_iff_exists.mp ((value.child_isSome_iff step).mpr hHas)
  have hThrough : ∃ Good : Marked K A → Prop, Good value ∧ (valueRegion hShows hTame).Follows Good Bad'
      (JsonPath.through false (rewriteWith none (fun _ => false) depth path false) false sel) (sel :: path) false := by
    by_cases hBranch : ∃ step c, value.child step = some c
    · obtain ⟨step, c, hChild⟩ := hBranch
      refine ⟨Shallow depth, hValue, Follows.through hSel ?_ hInherits (carries_shallow _ depth) hAdmits
        fun _ hHolds => absurd hHolds.2 (hMarks _)⟩
      rw [definiteAfter_false]
      exact follows_shallowBelow fun m hLess => hFollows hChild m (Nat.le_of_lt hLess)
    · -- nothing is visited
      have hNever : (valueRegion hShows hTame).Follows (fun _ => False) Bad
          (rewriteWith none (fun _ => false) depth path false) path (definiteAfter sel false) :=
        fun _ _ _ hFalse => hFalse.elim
      refine ⟨(· = value), rfl, Follows.through hSel hNever hInherits ⟨?_, ?_⟩ hAdmits
        fun _ hHolds => absurd hHolds.2 (hMarks _)⟩
      · rintro t step rfl hHas
        exact hBranch ⟨step, hExists hHas⟩
      · rintro t step c rfl hHas
        exact fun hFalse => hFalse.elim
  obtain ⟨Good, hGood, hThrough⟩ := hThrough
  have hHere : (valueRegion hShows hTame).Holds h [] value := ⟨rfl, rfl⟩
  obtain ⟨hSome, hNone⟩ := hThrough hGood hHere
  have hUntouched : untouched value depth (sel :: path) = (JsonPath.through false
      (rewriteWith none (fun _ => false) depth path false) false sel value).isSome := by
    cases hSel <;> simp only [untouched, rewriteWith, definiteAfter_false]
  rw [hUntouched]
  replace hSome := fun t' hRun => (hSome t' hRun).2
  simp only [valueRegion, hRoot] at hSome hNone
  constructor
  · intro hPassed
    obtain ⟨t', hRun⟩ := Option.isSome_iff_exists.mp hPassed
    obtain ⟨h', hRuns, ⟨rfl, hSame⟩, -⟩ := hSome t' hRun
    cases hSame
    rwa [hRoot] at hRuns
  · intro hFound h' x' hRuns
    exact hNone (Option.not_isSome_iff_eq_none.mp (by rw [hFound]; exact Bool.false_ne_true)) h' x' hRuns

end Value

/-- Only cells of the document below the place differ. -/
def SameOutside (place : List (Step K)) (h h' : Heap K (Ref K) A) : Prop :=
  ∀ ref : Ref K, ¬ (ref.source = .data ∧ place <+: ref.place) → h' ref = h ref

theorem shows_scalar {B : Type} {leaf : B → Value (Ref K) A} {ref : Ref K} {t : Json K B}
    (hScalar : t = .null ∨ ∃ b, t = .leaf b) : Shows leaf h ref t := by
  intro place c hGet hNode
  cases place with
  | nil =>
    cases hGet
    rcases hScalar with rfl | ⟨b, rfl⟩ <;> exact hNode.elim
  | cons step place => rcases hScalar with rfl | ⟨b, rfl⟩ <;> cases step <;> cases hGet

/-- The heap shows the tree at this place of the data, and the value as it was. -/
structure Document (v : Value (Ref K) A) (value : Marked K A) (h : Heap K (Ref K) A) (place : List (Step K))
    (t : Marked K A) : Prop where
  shows_ : Shows (standIn v) h ⟨.data, place⟩ t
  intact : Shows (standIn v) h ⟨.value, []⟩ value
  tame : Tame v h

/-- A child is written back to its place. -/
theorem Document.put (hDocument : Document v value h place t) (hTakes : t.label.Takes step)
    (hChild : Document v value h' (place ++ [step]) c) (hOutside : SameOutside (place ++ [step]) h h')
    (hPatched : Patched v h (h'.write ⟨.data, place⟩ step (shown v ⟨.data, place ++ [step]⟩ c))) :
    Document v value (h'.write ⟨.data, place⟩ step (shown v ⟨.data, place ++ [step]⟩ c)) place (t.put step c) ∧
      SameOutside place h (h'.write ⟨.data, place⟩ step (shown v ⟨.data, place ++ [step]⟩ c)) := by
  have hHere : h' ⟨.data, place⟩ = cellOf (standIn v) ⟨.data, place⟩ t := by
    rw [hOutside ⟨.data, place⟩ fun hIn => Nat.not_succ_le_self place.length (by simpa using hIn.2.length_le)]
    exact hDocument.shows_.cell (isNode_of_takes hTakes)
  refine ⟨⟨?_, ?_, hDocument.tame.patched hPatched⟩, fun ref hOut => ?_⟩
  · intro place' c' hGet hNode
    cases place' with
    | nil =>
      cases hGet
      rw [Ref.below_nil, Heap.write_same, hHere]
      exact cellOf_put _ _ _ _ _
    | cons step' place' =>
      rw [Heap.write_other _ fun hRef => by simpa [Ref.below] using congrArg Ref.place hRef]
      rw [Json.get, Json.child_put] at hGet
      by_cases hStep : step' = step
      · subst hStep
        rw [if_pos ⟨rfl, hTakes⟩, Option.bind_some] at hGet
        have hCell := hChild.shows_ place' c' hGet hNode
        rwa [show (⟨.data, place ++ [step']⟩ : Ref K) = Ref.below ⟨.data, place⟩ [step'] from rfl,
          Ref.below_below] at hCell
      · rw [if_neg fun hSame => hStep hSame.1] at hGet
        rw [hOutside _ fun hIn => ?_]
        · exact hDocument.shows_ (step' :: place') c' hGet hNode
        · obtain ⟨rest, hRest⟩ := hIn.2
          rw [Ref.below, append_assoc] at hRest
          exact hStep (by simpa using (List.cons.inj (append_cancel_left hRest)).1.symm)
  · intro place' c' hGet hNode
    rw [Heap.write_other _ fun hRef => by simpa [Ref.below] using congrArg Ref.source hRef]
    exact hChild.intact place' c' hGet hNode
  · rw [Heap.write_other _ fun hRef => hOut (by rw [hRef]; exact ⟨rfl, prefix_refl _⟩)]
    exact hOutside ref fun hIn => hOut ⟨hIn.1, (prefix_append _ _).trans hIn.2⟩

/-- The document that is rewritten. -/
def documentRegion (v : Value (Ref K) A) (value : Marked K A) : Region v where
  source := .data
  Holds := Document v value
  Admits := Label.Takes
  Out := SameOutside
  takes := id
  tame := Document.tame
  cell hDocument := hDocument.shows_.cell
  child {h place t step} hDocument _ := by
    refine ⟨?_, hDocument.intact, hDocument.tame⟩
    cases hChild : t.child step with
    | none => exact shows_scalar (.inl rfl)
    | some c => exact hDocument.shows_.child hChild
  refl _ _ _ _ := rfl
  trans hFirst hThen ref hOut := (hThen ref hOut).trans (hFirst ref hOut)
  put hDocument hTakes hChild hOutside hPatched := by
    obtain ⟨hPut, hOut⟩ := hDocument.put hTakes hChild hOutside hPatched
    exact ⟨hPut, hOut, fun step' => (Json.takes_put _ step').mpr⟩

section Rewriting

variable (hRoot : shown v ⟨.value, []⟩ value = v) (hMarks : ∀ place, value.get place ≠ some mark)
  (hValue : Shallow depth value)

include hRoot hMarks

theorem inherits_hot : (documentRegion v value).Inherits (Hot v) (Hot v) where
  later hHot hPatched := hHot.patched hPatched (.inl rfl)
  up {h place step c} hTame hHot hThere hBelow := by
    refine ⟨.step hThere (hHot.leads.write hTame step c hBelow), ?_⟩
    obtain ⟨r, hRef, step', c', hChild, hLeads⟩ := hHot.again
    have hSource : r = ⟨.value, []⟩ := by
      cases value with
      | null => cases hRoot.trans hRef
      | leaf a =>
        cases a with
        | none => exact absurd rfl (hMarks [])
        | some a => cases hRoot.trans hRef
      | array elts | object members => exact Value.ref.inj (hRef.symm.trans hRoot.symm)
    subst hSource
    refine ⟨_, hRef, step', c', ?_, hLeads.write hTame step c fun r' hr' => ?_⟩
    · rwa [Heap.write_other h (by simp [documentRegion])]
    · rcases hTame _ _ r' (hr' ▸ hChild) with hValue | ⟨hSource, -⟩
      · exact .inl (hr'.trans hValue)
      · exact .inr (.inl (by rw [hSource]; simp [documentRegion]))

omit hRoot hMarks in
theorem follows_nil {Good : Marked K A → Prop} {Bad : Heap K (Ref K) A → Value (Ref K) A → Prop} (hMark : Good mark)
    (definite : Bool) : (documentRegion v value).Follows Good Bad (fun _ => some mark) [] definite := by
  intro h place t _ hDocument
  refine ⟨fun t' hRun => ?_, fun hRun => by cases hRun⟩
  cases hRun
  exact ⟨hMark, h, .put, ⟨shows_scalar (.inr ⟨none, rfl⟩), hDocument.intact, hDocument.tame⟩, fun _ _ => rfl⟩

include hValue

theorem atMark_simple (hDocument : Document v value h place mark) (hPath : ∀ sel ∈ path, Flat sel) (hSel : Simple sel) :
    AtMark v (Hot v) (untouched value depth (sel :: path)) (sel :: path) h false := by
  obtain ⟨hPassed, hFound⟩ := atMark_value hDocument.intact hDocument.tame hRoot hMarks hValue hSel (inherits_linked _)
    fun hChild n hDepth => (follows_value _ _ hRoot hMarks hChild hPath hDepth).imp fun _ _ => Found.leads
  refine ⟨hPassed, fun hSpared h' x' hRuns => ?_⟩
  have hLinked := hFound hSpared hRuns
  obtain ⟨rfl, -⟩ := (runs_simple_iff hSel).mp hRuns
  exact ⟨.here, hLinked⟩

/-- A recursive selector visits the children of the value. -/
theorem atMark_recurse (hDocument : Document v value h place mark) (hPath : ∀ sel ∈ path, Flat sel) :
    AtMark v (fun _ _ => False) (untouched value depth (.everyChild :: .recurse :: path))
      (.everyChild :: .recurse :: path)
      h false :=
  atMark_value hDocument.intact hDocument.tame hRoot hMarks hValue .everyChild (inherits_false _)
    fun hChild _ hDepth => follows_value _ _ hRoot hMarks hChild (forall_mem_cons.mpr ⟨.recurse, hPath⟩) hDepth

/-- Below a recursive selector. -/
theorem follows_rewrite (hPath : ∀ sel ∈ path, Flat sel) (hDepth : n ≤ depth) :
    (documentRegion v value).Follows (Shallow n) (Hot v) (rewrite value depth path false) path false := by
  induction path generalizing n with
  | nil => exact follows_nil (shallow_scalar (.inr ⟨none, rfl⟩) n) false
  | cons sel path ih =>
    obtain ⟨hSel, hRest⟩ := forall_mem_cons.mp hPath
    have hSimple {sel : Selector K} (hSel : Simple sel) : (documentRegion v value).Follows (Shallow n) (Hot v)
        (JsonPath.through (untouched value depth (sel :: path))
          (rewrite value depth path (definiteAfter sel false)) false sel) (sel :: path) false := by
      refine Follows.through hSel ?_ (inherits_hot hRoot hMarks) (carries_shallow _ n)
        (fun hSteps step hMem => (mem_visits hSteps hMem).1)
        fun _ hDocument => atMark_simple hRoot hMarks hValue hDocument hRest hSel
      rw [definiteAfter_false]
      exact follows_shallowBelow fun m hLess => ih hRest (by omega)
    cases hSel with
    | name k => exact hSimple (.name k)
    | range r => exact hSimple (.range r)
    | everyChild => exact hSimple .everyChild
    | list hSubs =>
      exact Follows.list (fun sub hMem => simple_of_member (hSubs sub hMem)) (inherits_hot hRoot hMarks).later
        fun sub hMem => hSimple (simple_of_member (hSubs sub hMem))
    | recurse =>
      exact (Follows.descend (fun n hDepth => ih hRest hDepth) (fun _ _ hHot => hHot.not_runs_children)
        (fun hSteps step hMem => (mem_visits hSteps hMem).1)
        (fun hDocument => atMark_recurse hRoot hMarks hValue hDocument hRest) (Nat.lt_succ_of_le hDepth)
          hDepth false).imp
        fun _ _ => False.elim

omit hRoot hMarks hValue in
/-- No value has been put as high as that. -/
def Deep (n : Nat) (t : Marked K A) : Prop := ∀ place : List (Step K), place.length < n → t.get place ≠ some mark

omit [DecidableEq K] hRoot hMarks hValue in
/-- The number of selectors before the first recursive one. -/
def lead : List (Selector K) → Nat
  | [] | .recurse :: _ => 0
  | _ :: path => lead path + 1

omit hRoot hMarks hValue in
theorem Deep.child {n : Nat} {t : Marked K A} (hDeep : Deep (n + 1) t) (step : Step K) :
    Deep n ((t.child step).getD .null) := by
  intro place hLength hGet
  cases hChild : t.child step with
  | none =>
    rw [hChild] at hGet
    rcases place with _ | ⟨_ | _, place⟩ <;> cases hGet
  | some c =>
    rw [hChild] at hGet
    exact hDeep (step :: place) (Nat.succ_lt_succ hLength) (by rw [Json.get, hChild]; exact hGet)

omit hRoot hMarks hValue in
theorem carries_deep (n m : Nat) : (documentRegion v value).Carries (fun t => ShallowBelow n t ∧ Deep m t)
    fun t => Shallow n t ∧ Deep (m + 1) t where
  down {_ step} hGood hTakes := ⟨(carries_shallow _ n).down hGood.1 hTakes, hGood.2.child step⟩
  up {t step c} hGood hTakes hBelow := by
    refine ⟨(carries_shallow _ n).up hGood.1 hTakes hBelow.1, fun place hLength hGet => ?_⟩
    cases place with
    | nil =>
      have hNode := isNode_put (isNode_of_takes hTakes) step c
      rw [Option.some.inj hGet] at hNode
      exact hNode
    | cons step' place =>
      rw [Json.get, Json.child_put] at hGet
      split at hGet
      · exact hBelow.2 place (Nat.lt_of_succ_lt_succ hLength) hGet
      · exact hGood.2 (step' :: place) hLength hGet

/-- Before the first recursive selector, the value is not met again. -/
theorem follows_rewrite_lead (hPath : ∀ sel ∈ path, Flat sel) (hDepth : n ≤ depth) (definite : Bool) :
    (documentRegion v value).Follows (fun t => Shallow n t ∧ Deep (lead path) t) (fun _ _ => False)
      (rewrite value depth path definite) path definite := by
  induction path generalizing n definite with
  | nil =>
    refine follows_nil ⟨shallow_scalar (.inr ⟨none, rfl⟩) n, fun place hLength => ?_⟩ definite
    cases hLength
  | cons sel path ih =>
    obtain ⟨hSel, hRest⟩ := forall_mem_cons.mp hPath
    have hBelow (definite : Bool) : (documentRegion v value).Follows (fun t => ShallowBelow n t ∧ Deep (lead path) t)
        (fun _ _ => False) (rewrite value depth path definite) path definite := by
      rintro h place t ⟨⟨m, hLess, hShallow⟩, hDeep⟩ hDocument
      obtain ⟨hSome, hNone⟩ := ih hRest (by omega : m ≤ depth) definite ⟨hShallow, hDeep⟩ hDocument
      refine ⟨fun t' hRun => ?_, hNone⟩
      obtain ⟨⟨hShallow', hDeep'⟩, hRuns⟩ := hSome t' hRun
      exact ⟨⟨⟨m, hLess, hShallow'⟩, hDeep'⟩, hRuns⟩
    have hSimple {sel : Selector K} (hSel : Simple sel) : (documentRegion v value).Follows
        (fun t => Shallow n t ∧ Deep (lead path + 1) t) (fun _ _ => False)
        (JsonPath.through (untouched value depth (sel :: path))
          (rewrite value depth path (definiteAfter sel definite)) definite sel) (sel :: path) definite :=
      Follows.through hSel (hBelow _) (inherits_false _) (carries_deep n _)
        (fun hSteps step hMem => (mem_visits hSteps hMem).1)
        fun hGood _ => absurd rfl (hGood.2 [] (Nat.succ_pos _))
    cases hSel with
    | name k => exact hSimple (.name k)
    | range r => exact hSimple (.range r)
    | everyChild => exact hSimple .everyChild
    | list hSubs =>
      exact Follows.list (fun sub hMem => simple_of_member (hSubs sub hMem)) (fun hBad _ => hBad)
        fun sub hMem => hSimple (simple_of_member (hSubs sub hMem))
    | recurse =>
      rintro h place t ⟨hShallow, -⟩ hDocument
      obtain ⟨hSome, hNone⟩ := Follows.descend (fun n hDepth => follows_rewrite hRoot hMarks hValue hRest hDepth)
        (fun _ _ hHot => hHot.not_runs_children) (fun hSteps step hMem => (mem_visits hSteps hMem).1)
        (fun hDocument => atMark_recurse hRoot hMarks hValue hDocument hRest) (Nat.lt_succ_of_le hDepth) hDepth definite
        hShallow hDocument
      refine ⟨fun t' hRun => ?_, hNone⟩
      obtain ⟨hShallow', hRuns⟩ := hSome t' hRun
      refine ⟨⟨hShallow', fun place hLength => ?_⟩, hRuns⟩
      cases hLength

end Rewriting

end KubeStellar.JsonPath.InPlace
