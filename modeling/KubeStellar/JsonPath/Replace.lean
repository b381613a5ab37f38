import KubeStellar.JsonPath.Selection

/-! # Replacement at the selected places

A path without a recursive selector replaces exactly what it selects, as long as its loops end.
-/

namespace KubeStellar.JsonPath

open List

open Json (Step Label)

variable {K A : Type} [DecidableEq K]

inductive Straight (P : Range → Prop) : Selector K → Prop where
  | name (k : K) : Straight P (.name k)
  | range {r : Range} (hRange : P r) : Straight P (.range r)
  | list {subs : List (Selector K)} (hSubs : ∀ sub ∈ subs, Straight P sub) : Straight P (.list subs)
  | everyChild : Straight P .everyChild

structure Evaluable (path : List (Selector K)) (t : Json K A) : Prop where
  distinct : ∀ (place : List (Step K)) label, place.length < path.length → labelAt t place = some label → label.Distinct
  straight : ∀ sel ∈ path, Straight (fun r => 1 ≤ r.stride.val ∧ ∀ (place : List (Step K)) length,
    place.length < path.length → labelAt t place = some (.array length) → r.NoOverflow length) sel

variable {sel sub : Selector K} {path subs : List (Selector K)} {t t' : Json K A} {c : Json K A}

omit [DecidableEq K] in
theorem Straight.imp {P Q : Range → Prop} (hImp : ∀ r, P r → Q r) (hStraight : Straight P sel) : Straight Q sel := by
  induction hStraight with
  | name k => exact .name k
  | range hRange => exact .range (hImp _ hRange)
  | list _ ih => exact .list ih
  | everyChild => exact .everyChild

theorem Evaluable.child (hEval : Evaluable (sel :: path) t) {step : Step K} (hChild : t.child step = some c) :
    Evaluable path c where
  distinct place label hDepth hLabel :=
    hEval.distinct (step :: place) label (Nat.succ_lt_succ hDepth) (by rw [labelAt_cons hChild, hLabel])
  straight sub hMem := by
    refine (hEval.straight sub (mem_cons_of_mem _ hMem)).imp fun r hRange => ⟨hRange.1, ?_⟩
    intro place length hDepth hLabel
    exact hRange.2 (step :: place) length (Nat.succ_lt_succ hDepth) (by rw [labelAt_cons hChild, hLabel])

theorem Evaluable.of_same (hEval : Evaluable path t) (hSame : SameAbove path.length t t') : Evaluable path t' where
  distinct place label hDepth hLabel :=
    hEval.distinct place label hDepth ((hSame place hDepth).symm.trans hLabel)
  straight sub hMem := by
    refine (hEval.straight sub hMem).imp fun r hRange => ⟨hRange.1, fun place length hDepth hLabel => ?_⟩
    exact hRange.2 place length hDepth ((hSame place hDepth).symm.trans hLabel)

theorem Evaluable.list_member (hEval : Evaluable (.list subs :: path) t)
    (hStraight : ∀ P : Range → Prop, Straight P (.list subs) → Straight P sub) : Evaluable (sub :: path) t where
  distinct := hEval.distinct
  straight := by
    rw [forall_mem_cons]
    exact ⟨hStraight _ (hEval.straight _ mem_cons_self),
      fun other hMem => hEval.straight other (mem_cons_of_mem _ hMem)⟩

theorem Evaluable.label_distinct (hEval : Evaluable (sel :: path) t) : t.label.Distinct :=
  hEval.distinct [] t.label (Nat.succ_pos _) rfl

variable {fn : Json K A → Json K A} {v : Json K A}

def Replaces (path : List (Selector K)) (v t : Json K A) : Prop :=
  ∃ r, Returns (fun _ => v) t path false r ∧ Replaced path v t r

def Steps (sel : Selector K) (path : List (Selector K)) (v t : Json K A) : Prop :=
  ∃ r, Returns (fun _ => v) t (sel :: path) false r ∧ Stepped sel path v t r

theorem returns_other (hOk : apply fn 1 t (sel :: path) false = .ok t) : Returns fn t (sel :: path) false t :=
  returns_iff.mpr ⟨1, hOk⟩

theorem steps_nothing (hOk : apply (fun _ => v) 1 t (sel :: path) false = .ok t)
    (hNone : ∀ step, ¬ Picks sel t.label step) : Steps sel path v t :=
  ⟨t, returns_other hOk, rfl, fun step _ _ hPicks => absurd hPicks (hNone step), fun _ _ => rfl⟩

theorem steps_name (name : K) (hRest : ∀ step c, t.child step = some c → Replaces path v c) :
    Steps (.name name) path v t := by
  cases t with
  | null | leaf a | array elts => exact steps_nothing rfl fun step hPicks => by cases hPicks
  | object typed =>
    cases hLookup : Json.lookup name typed with
    | none =>
      refine steps_nothing (apply_name_missing _ hLookup 0 path) fun step hPicks => ?_
      cases hPicks with
      | name hKey => exact Json.lookup_eq_none_iff.mp hLookup hKey
    | some elt =>
      obtain ⟨r, hReturns, hRepl⟩ := hRest (.key name) elt hLookup
      obtain ⟨fuel, hOk⟩ := returns_iff.mp hReturns
      have hHas : Json.lookup name typed ≠ none := fun hNone => by rw [hNone] at hLookup; cases hLookup
      refine ⟨.object (Json.assign name r typed), returns_iff.mpr ⟨fuel + 1, ?_⟩, ?_, ?_, ?_⟩
      · rw [apply_name_found _ hLookup, hOk]
        rfl
      · exact congrArg Label.object (Json.keys_assign hHas r)
      · intro step c hChild hPicks
        cases hPicks with
        | name hKey =>
          rw [Json.child, hLookup, Option.some.injEq] at hChild
          subst hChild
          exact ⟨r, by rw [Json.child, Json.lookup_assign, if_pos rfl], hRepl⟩
      · intro step hPicks
        cases step with
        | index i => rfl
        | key k =>
          rw [Json.child, Json.child, Json.lookup_assign]
          split
          · rename_i hKey
            subst hKey
            exact absurd (.name (not_not.mp fun hMissing => hHas (Json.lookup_eq_none_iff.mpr hMissing))) hPicks
          · rfl

theorem steps_everyChild (hDist : t.label.Distinct) (hRest : ∀ step c, t.child step = some c → Replaces path v c) :
    Steps .everyChild path v t := by
  -- enough fuel for every child
  have hEach : ∀ c ∈ t.children, ∃ fuel, ∃ r, apply (fun _ => v) fuel c path false = .ok r := by
    intro c hMem
    obtain ⟨step, hChild⟩ := Json.exists_step hDist hMem
    obtain ⟨r, hReturns, -⟩ := hRest step c hChild
    obtain ⟨fuel, hOk⟩ := returns_iff.mp hReturns
    exact ⟨fuel, r, hOk⟩
  obtain ⟨fuel, hAll⟩ := Fuel.exists_common
    (fun hLe hOk => ⟨hOk.choose, (below_apply _ _ path false hLe).ok_eq hOk.choose_spec⟩) hEach
  obtain ⟨r, hRun⟩ := Json.forEachChild_ok_of_forall hAll
  obtain ⟨hLabel, hChildren⟩ := Json.forEachChild_eq_ok hRun
  refine ⟨r, returns_iff.mpr ⟨fuel + 1, hRun⟩, hLabel, ?_, ?_⟩
  · intro step c hChild _
    obtain ⟨c', hOk, hChild'⟩ := Json.child_of_forall₂ hLabel hChildren hChild
    obtain ⟨r', hReturns, hRepl⟩ := hRest step c hChild
    rw [hReturns.unique (returns_iff.mpr ⟨fuel, hOk⟩)] at hRepl
    exact ⟨c', hChild', hRepl⟩
  · intro step hPicks
    have hMissing : t.child step = none := by
      rw [← Option.not_isSome_iff_eq_none, Json.child_isSome_iff]
      exact fun hHas => hPicks (.everyChild hHas)
    rw [hMissing, child_none_of_label_eq hLabel hMissing]

theorem steps_range {r : Range} (hStride : 1 ≤ r.stride.val)
    (hNoOverflow : ∀ length, t.label = .array length → r.NoOverflow length)
    (hRest : ∀ step c, t.child step = some c → Replaces path v c) : Steps (.range r) path v t := by
  cases t with
  | null | leaf a | object members => exact steps_nothing rfl fun step hPicks => by cases hPicks
  | array typed =>
    have hVisits : VisitsSelected r typed := visitsSelected_of_noOverflow (.inr ⟨hStride, hNoOverflow typed.length rfl⟩)
    obtain ⟨indices, hIncr, hMem, hInside, hLoop⟩ := hVisits
    -- enough fuel for every element that is visited, and for the loop
    have hEach : ∀ i ∈ indices, ∃ fuel, ∀ elt, typed[i]? = some elt →
        ∃ r, apply (fun _ => v) fuel elt path false = .ok r := by
      intro i hi
      have hElt := List.getElem?_eq_getElem (hInside i hi)
      obtain ⟨r, hReturns, -⟩ := hRest (.index i) _ hElt
      obtain ⟨fuel, hOk⟩ := returns_iff.mp hReturns
      refine ⟨fuel, fun elt hGet => ⟨r, ?_⟩⟩
      rw [hElt, Option.some.injEq] at hGet
      rw [← hGet, hOk]
    obtain ⟨fuel, hAll⟩ := Fuel.exists_common (fun hLe hOk elt hGet => ⟨(hOk elt hGet).choose,
        (below_apply _ _ path false hLe).ok_eq (hOk elt hGet).choose_spec⟩) hEach
    obtain ⟨enough, hEnough⟩ := hLoop fun elt => apply (fun _ => v) fuel elt path false
    obtain ⟨typed', hFold, hLength, hVisited, hOthers⟩ := foldlM_updateAt hIncr hInside hAll
    have hRun : rangeLoop (updateAt fun elt => apply (fun _ => v) (max fuel enough) elt path false)
        (r.limit typed.length) r.stride (max fuel enough) r.start typed = .ok typed' :=
      (below_rangeLoop (below_updateAt fun elt => below_apply (fun _ => v) elt path false (Nat.le_max_left fuel enough))
        (Nat.le_max_right fuel enough) _ _).ok_eq ((hEnough enough (Nat.le_refl _)).trans hFold)
    refine ⟨.array typed', returns_iff.mpr ⟨max fuel enough + 1, ?_⟩, congrArg Label.array hLength, ?_, ?_⟩
    · rw [apply, Bool.false_and, Bool.false_and, hRun]
      rfl
    · intro step c hChild hPicks
      cases hPicks with
      | range hIndex =>
        rename_i i
        obtain ⟨c', hOk, hChild'⟩ := hVisited i ((hMem i).mpr hIndex) c hChild
        obtain ⟨r', hReturns, hRepl⟩ := hRest (.index i) c hChild
        rw [hReturns.unique (returns_iff.mpr ⟨fuel, hOk⟩)] at hRepl
        exact ⟨c', hChild', hRepl⟩
    · intro step hPicks
      cases step with
      | key k => rfl
      | index i => exact hOthers i fun hi => hPicks (.range ((hMem i).mp hi))

theorem returns_list_cons {definite : Bool} {r : Json K A} (hFirst : Returns fn t (sub :: path) definite t')
    (hRest : Returns fn t' (.list subs :: path) definite r) :
    Returns fn t (.list (sub :: subs) :: path) definite r := by
  obtain ⟨enough, hEnough⟩ := hFirst
  obtain ⟨enough', hEnough'⟩ := hRest
  refine returns_iff.mpr ⟨max enough enough' + 1, ?_⟩
  rw [apply, foldlM_cons, hEnough _ (Nat.le_max_left _ _), Fuel.ok_bind]
  exact hEnough' _ (Nat.le_succ_of_le (Nat.le_max_right _ _))

theorem steps_list (hSubs : ∀ sub ∈ subs, ∀ t, Evaluable (sub :: path) t → Steps sub path v t)
    (hEval : Evaluable (.list subs :: path) t) : Steps (.list subs) path v t := by
  induction subs generalizing t with
  | nil => exact ⟨t, returns_other rfl, stepped_list_nil path v t⟩
  | cons sub subs ih =>
    obtain ⟨hSub, hSubs⟩ := forall_mem_cons.mp hSubs
    have hHead : Evaluable (sub :: path) t := hEval.list_member fun P hStraight => by
      cases hStraight with
      | list hAll => exact hAll sub mem_cons_self
    have hTail : Evaluable (.list subs :: path) t := hEval.list_member fun P hStraight => by
      cases hStraight with
      | list hAll => exact .list fun other hMem => hAll other (mem_cons_of_mem _ hMem)
    obtain ⟨t', hReturns, hFirst⟩ := hSub t hHead
    -- the first member changes no label that the others look at
    obtain ⟨r, hReturns', hRest⟩ := ih hSubs (hTail.of_same hFirst.replaced.sameAbove)
    exact ⟨r, returns_list_cons hReturns hReturns', hFirst.list_cons hRest⟩

theorem Evaluable.steps (hPath : ∀ t, Evaluable path t → Replaces path v t) (sel : Selector K) (t : Json K A)
    (hEval : Evaluable (sel :: path) t) : Steps sel path v t := by
  induction sel using Selector.listInduction generalizing t with
  | name name => exact steps_name name fun step c hChild => hPath c (hEval.child hChild)
  | range r =>
    cases hEval.straight _ mem_cons_self with
    | range hRange =>
      refine steps_range hRange.1 (fun length hLabel => ?_) fun step c hChild => hPath c (hEval.child hChild)
      exact hRange.2 [] length (Nat.succ_pos _) (by rw [labelAt_nil, hLabel])
  | list subs ih => exact steps_list ih hEval
  | recurse => cases hEval.straight _ mem_cons_self
  | everyChild =>
    exact steps_everyChild hEval.label_distinct fun step c hChild => hPath c (hEval.child hChild)

theorem Evaluable.replaces (path : List (Selector K)) (v t : Json K A) (hEval : Evaluable path t) :
    Replaces path v t := by
  induction path generalizing t with
  | nil => exact ⟨v, returns_iff.mpr ⟨1, rfl⟩, replaced_nil v t⟩
  | cons sel path ih =>
    obtain ⟨r, hReturns, hStepped⟩ := Evaluable.steps ih sel t hEval
    exact ⟨r, hReturns, hStepped.replaced⟩

/-- The path selects the same places in the input that are replaced in the output. -/
theorem apply_replaces_selected (data v : Json K A) (path : List (Selector K))
    (hDistinct : Everywhere Label.Distinct data)
    (hPath : ∀ sel ∈ path, Straight (fun r => 1 ≤ r.stride.val ∧ Everywhere r.Fits data) sel) :
    ∃ result, Returns (fun _ => v) data path false result ∧ Replaced path v data result := by
  refine Evaluable.replaces path v data ⟨fun place label _ hLabel => hDistinct place label hLabel, fun sel hMem => ?_⟩
  refine (hPath sel hMem).imp fun r hRange => ⟨hRange.1, fun place length _ hLabel => ?_⟩
  exact hRange.2 place _ hLabel length rfl

def workload : Json String Nat := .object [("ports", .array [.leaf 80, .leaf 443, .leaf 8080]), ("replicas", .leaf 2)]

def everyOther : Range := ⟨⟨0, Numeral.zero_lt⟩, none, ⟨2, by decide⟩⟩

theorem everyOther_fits : Everywhere everyOther.Fits workload := by
  have hLeaf (a : Nat) : Everywhere everyOther.Fits (.leaf a : Json String Nat) :=
    everywhere_node (fun _ hLabel => by cases hLabel) fun _ hMem => absurd hMem not_mem_nil
  refine everywhere_node (fun _ hLabel => by cases hLabel) ?_
  simp only [workload, Json.children, map_cons, map_nil, forall_mem_cons]
  refine ⟨everywhere_node ?_ ?_, hLeaf 2, fun _ hMem => absurd hMem not_mem_nil⟩
  · rintro length hLabel i hSelects
    cases hLabel
    have hBelow := hSelects.lt_length
    simp only [length_cons, length_nil] at hBelow
    have hStride : everyOther.stride.val = 2 := rfl
    omega
  · simp only [Json.children, forall_mem_cons]
    exact ⟨hLeaf 80, hLeaf 443, hLeaf 8080, fun _ hMem => absurd hMem not_mem_nil⟩

theorem workload_distinct : Everywhere Label.Distinct workload := by
  have hLeaf (a : Nat) : Everywhere Label.Distinct (.leaf a : Json String Nat) :=
    everywhere_node trivial fun _ hMem => absurd hMem not_mem_nil
  refine everywhere_node (by decide : ["ports", "replicas"].Nodup) ?_
  simp only [workload, Json.children, map_cons, map_nil, forall_mem_cons]
  refine ⟨everywhere_node trivial ?_, hLeaf 2, fun _ hMem => absurd hMem not_mem_nil⟩
  simp only [Json.children, forall_mem_cons]
  exact ⟨hLeaf 80, hLeaf 443, hLeaf 8080, fun _ hMem => absurd hMem not_mem_nil⟩

/-- `$['ports','replicas'][::2]`. -/
theorem apply_replaces_selected_ports :
    ∃ result, Returns (fun _ => .leaf 0) workload [.list [.name "ports", .name "replicas"], .range everyOther] false
        result ∧
      Replaced [.list [.name "ports", .name "replicas"], .range everyOther] (.leaf 0) workload result := by
  refine apply_replaces_selected workload (.leaf 0) _ workload_distinct ?_
  simp only [forall_mem_cons]
  refine ⟨.list ?_, .range ⟨by decide, everyOther_fits⟩, fun _ hMem => absurd hMem not_mem_nil⟩
  simp only [forall_mem_cons]
  exact ⟨.name "ports", .name "replicas", fun _ hMem => absurd hMem not_mem_nil⟩

end KubeStellar.JsonPath
