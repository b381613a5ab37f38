import KubeStellar.JsonPath.Grammar
import KubeStellar.JsonPath.Document

/-! # Termination of a replacement

The evaluation that `Customize` of `pkg/customize/customize.go` starts for one replacement. It returns exactly if the
evaluation with an opaque value does. If the strides of the path are not so large that an index wraps around, it cannot
panic either, and then it does not end otherwise.
-/

namespace KubeStellar.JsonPath

open List

variable {K : Type}

theorem Range.limit_mono (r : Range) {length length' : Nat} (hLe : length ≤ length') :
    r.limit length ≤ r.limit length' := by
  unfold Range.limit
  split
  · split <;> split <;> omega
  · omega

theorem flat_listOf {subs : List (Selector K)}
    (hSubs : ∀ sub ∈ subs, (∃ k, sub = .name k) ∨ ∃ index, sub = .range (rangeOf1 index)) : Flat (listOf subs) := by
  unfold listOf
  split
  · rename_i sub
    rcases hSubs sub mem_cons_self with ⟨k, rfl⟩ | ⟨index, rfl⟩
    · exact .name k
    · exact .range _
  · exact .list hSubs

variable {tables : Tables} {text : GoString} {sel : Selector GoString}

theorem BracketText.flat (hText : BracketText tables text sel) : Flat sel := by
  cases hText with
  | star => exact .everyChild
  | strings hNames =>
    refine flat_listOf fun sub hMem => ?_
    obtain ⟨name, -, rfl⟩ := mem_map.mp hMem
    exact .inl ⟨name, rfl⟩
  | integers hIndices =>
    refine flat_listOf fun sub hMem => ?_
    obtain ⟨index, -, rfl⟩ := mem_map.mp hMem
    exact .inr ⟨index, rfl⟩
  | range hRange => exact .range _

theorem DotText.flat (hText : DotText tables text sel) : Flat sel := by
  cases hText with
  | name hName => exact .name _
  | index hIndex => exact .range _
  | star => exact .everyChild

theorem SelectorsText.flat {takeStar : Bool} {sels : List (Selector GoString)}
    (hText : SelectorsText tables takeStar text sels) : ∀ sel ∈ sels, Flat sel := by
  induction hText with
  | nil => exact fun _ hMem => absurd hMem not_mem_nil
  | dot hSel _ ih => exact forall_mem_cons.mpr ⟨hSel.flat, ih⟩
  | bracket hSel _ ih => exact forall_mem_cons.mpr ⟨hSel.flat, ih⟩
  | recurse _ ih => exact forall_mem_cons.mpr ⟨.recurse, ih⟩
  | star _ ih => exact forall_mem_cons.mpr ⟨.everyChild, ih⟩

theorem flat_of_parseString {source : GoString} {path : List (Selector GoString)}
    (hParse : parseString tables source = .ok path) : ∀ sel ∈ path, Flat sel := by
  obtain ⟨rest, -, hRest⟩ := parse_sound hParse
  exact hRest.flat

end KubeStellar.JsonPath

namespace KubeStellar.JsonPath.InPlace

open List Fuel

open Json (Step Label)

section Panics

variable {K R A : Type} [DecidableEq K] [DecidableEq R] {v : Value R A} {h h' : Heap K R A} {r : R} {step : Step K}
  {path : List (Selector K)} {bound : Nat} {body : Body K R A}

/-- No slice is longer. -/
def Bounded (bound : Nat) (h : Heap K R A) : Prop := ∀ r i, (h r).label.Takes (.index i) → i < bound

theorem Bounded.write (hBounded : Bounded bound h) (r : R) (step : Step K) (x : Value R A) :
    Bounded bound (h.write r step x) :=
  fun r' i hTakes => hBounded r' i ((h.takes_write r r' step _ x).mp hTakes)

omit [DecidableEq K] [DecidableEq R] in
theorem Bounded.length_le (hBounded : Bounded bound h) {typed : List (Value R A)} (hCell : h r = .array typed) :
    typed.length ≤ bound := by
  refine Nat.le_of_not_lt fun hLonger => Nat.lt_irrefl bound (hBounded r bound ?_)
  rw [hCell]
  exact hLonger

section Loops

variable (hBody : ∀ h x, Bounded bound h → Post Stop.indexOutOfRange (fun state => Bounded bound state.1) (body h x))

include hBody

theorem post_visit (r : R) (step : Step K) (hBounded : Bounded bound h) :
    Post .indexOutOfRange (Bounded bound) (visit body r h step) :=
  (hBody _ _ hBounded).bind fun _ hBounded' => .ok (hBounded'.write r step _)

theorem post_visitEach (hBounded : Bounded bound h) (x : Value R A) (steps : List (Step K)) :
    Post .indexOutOfRange (Bounded bound) (visitEach body h x steps) := by
  cases x with
  | null | leaf a => exact .ok hBounded
  | ref r => exact .foldlM (fun step _ _ hBounded => post_visit hBody r step hBounded) hBounded

end Loops

theorem post_rangeLoop {S : Type} {Q : S → Prop} {visit : S → Nat → Except Stop S}
    (hVisit : ∀ s i, Q s → Post .indexOutOfRange Q (visit s i)) {limit : Int} {stride : Numeral}
    (hLimit : limit ≤ 2 ^ 62)
    {i : Nat} (hNext : (i : Int) < limit → i + stride.val < 2 ^ 63) {s : S} (hs : Q s) (fuel : Nat) :
    Post .indexOutOfRange Q (rangeLoop visit limit stride fuel i s) := by
  induction fuel generalizing s i with
  | zero => exact .error fun hStop => by cases hStop
  | succ fuel ih =>
    rw [rangeLoop]
    split
    · rw [if_neg (by omega), Int.toNat_natCast, wrap_of_lt (by omega) (by omega)]
      exact (hVisit s i hs).bind fun s1 hs1 => ih (i := i + stride) (fun hMore' => by omega) hs1
    · exact .ok hs

/-- The stride of a range does not make the index wrap around, whatever the slice is. -/
def Steady (bound : Nat) (sel : Selector K) : Prop :=
  ∀ r, sel = .range r → r.limit bound ≤ r.start ∨ r.start.val + r.stride.val < 2 ^ 63

omit [DecidableEq K] in
theorem steady_rangeOf1 (hBound : bound ≤ 2 ^ 62) (index : Numeral) :
    Steady (K := K) bound (.range (rangeOf1 index)) := by
  intro r hRange
  cases hRange
  have hLimit := (rangeOf1 index).limit_le bound
  have hStart : (rangeOf1 index).start.val = index.val := rfl
  have hStride : (rangeOf1 index).stride.val = 1 := rfl
  by_cases hIndex : index.val + 1 < 2 ^ 63
  · exact .inr (by omega)
  · exact .inl (by omega)

theorem post_apply (fn : Value R A → Value R A) (hBound : bound ≤ 2 ^ 62)
    (hPath : ∀ sel ∈ path, Flat sel ∧ Steady bound sel) (hBounded : Bounded bound h) (x : Value R A) (fuel : Nat)
    (definite : Bool) :
    Post .indexOutOfRange (fun state => Bounded bound state.1) (apply fn fuel h x path definite) := by
  induction fuel generalizing h x path definite with
  | zero => exact .error fun hStop => by cases hStop
  | succ fuel ih =>
    cases path with
    | nil => exact .ok hBounded
    | cons sel path =>
      obtain ⟨⟨hFlat, hSteady⟩, hRest⟩ := forall_mem_cons.mp hPath
      have hAfter (definite : Bool) (h : Heap K R A) (x : Value R A) (hBounded : Bounded bound h) :=
        ih hRest hBounded x definite
      have hSimple (hSel : Simple sel) : Post .indexOutOfRange (fun state => Bounded bound state.1)
          (apply fn (fuel + 1) h x (sel :: path) definite) := by
        rcases apply_simple hSel fn h x path definite with
          ⟨steps, -, -, hApply⟩ | ⟨range, r, typed, rfl, rfl, hCell, hApply⟩
        · rw [hApply]
          exact (post_visitEach (hAfter _) hBounded x steps).bind fun _ hBounded' => .ok hBounded'
        · have hLength := hBounded.length_le hCell
          have hLimit := range.limit_le typed.length
          have hMono := range.limit_mono hLength
          rw [hApply]
          refine (post_rangeLoop (fun h i => post_visit (hAfter _) r (.index i)) (by omega) (fun hMore => ?_) hBounded
            fuel).bind fun _ hBounded' => .ok hBounded'
          exact (hSteady range rfl).resolve_left (by omega)
      cases hFlat with
      | name k => exact hSimple (.name k)
      | range range => exact hSimple (.range range)
      | everyChild => exact hSimple .everyChild
      | list hSubs =>
        refine .foldlM (fun sub hMem state hBounded => ih (forall_mem_cons.mpr ⟨?_, hRest⟩) hBounded _ _) hBounded
        rcases hSubs sub hMem with ⟨k, rfl⟩ | ⟨index, rfl⟩
        · exact ⟨.name k, fun r hRange => by cases hRange⟩
        · exact ⟨.range _, steady_rangeOf1 hBound index⟩
      | recurse =>
        refine (hAfter false h x hBounded).bind fun state hBounded1 => ?_
        exact (post_visitEach (fun h x hBounded => ih hPath hBounded x false) hBounded1 state.2 _).bind
          fun _ hBounded' => .ok hBounded'

end Panics

variable {K A : Type} [DecidableEq K] {bound : Nat} {path : List (Selector K)}

def documents (data value : Json K A) : Source → Json K A
  | .data => data
  | .value => value

/-- `jsonpath.Apply(outputU, jp, true, func(any) any { return valueAny })`. -/
def replacement (data value : Json K A) (path : List (Selector K)) (fuel : Nat) :
    Except Stop (Heap K (Ref K) A × Value (Ref K) A) :=
  apply (fun _ => decoded .leaf ⟨.value, []⟩ value) fuel (heapOf (documents data value))
    (decoded .leaf ⟨.data, []⟩ data) path true

/-- Arrays are not longer, and nothing is nested deeper. -/
structure Within (bound : Nat) (t : Json K A) : Prop where
  shallow : Shallow bound t
  short : ∀ place elts, t.get place = some (.array elts) → elts.length ≤ bound

section Decoded

variable {trees : Source → Json K A} {value t c : Json K A} {ref : Ref K} {step : Step K} {n : Nat}

theorem shows_heapOf (trees : Source → Json K A) (source : Source) :
    Shows .leaf (heapOf trees) ⟨source, []⟩ (trees source) := by
  intro place c hGet _
  rw [heapOf, show (Ref.below (⟨source, []⟩ : Ref K) place).place = place from rfl]
  dsimp only [Ref.below]
  rw [hGet]

theorem exists_of_child_heapOf {x : Value (Ref K) A} (hChild : (heapOf trees ref).child step = some x) :
    ∃ c, x = decoded .leaf (ref.below [step]) c := by
  rw [heapOf] at hChild
  split at hChild
  · rw [child_cellOf, Option.map_eq_some_iff] at hChild
    obtain ⟨c, -, rfl⟩ := hChild
    exact ⟨c, rfl⟩
  · cases step <;> cases hChild

theorem tame_heapOf (trees : Source → Json K A) (v : Value (Ref K) A) : Tame v (heapOf trees) := by
  intro ref step r' hChild
  obtain ⟨c, hRef⟩ := exists_of_child_heapOf hChild
  cases c <;> cases hRef <;> exact .inr ⟨rfl, by simp [Ref.below]⟩

theorem bounded_heapOf (hTrees : ∀ source, Within bound (trees source)) : Bounded bound (heapOf trees) := by
  intro ref i hTakes
  rw [heapOf] at hTakes
  split at hTakes
  · rename_i t hGet
    cases t with
    | null | leaf a => cases hTakes
    | array elts =>
      replace hTakes : i < (elts.mapIdx _).length := hTakes
      rw [length_mapIdx] at hTakes
      exact Nat.lt_of_lt_of_le hTakes ((hTrees ref.source).short ref.place elts hGet)
    | object members => cases hTakes
  · cases hTakes

omit [DecidableEq K] in
theorem decoded_marked (hShallow : Shallow n t) (v : Value (Ref K) A) (ref : Ref K) :
    decoded (standIn v) ref (marked n t) = decoded .leaf ref t := by
  cases n with
  | zero => rcases hShallow with rfl | ⟨a, rfl⟩ <;> rfl
  | succ n => cases t <;> rfl

theorem child_marked (n : Nat) (t : Json K A) (step : Step K) :
    (marked (n + 1) t).child step = (t.child step).map (marked n) := by
  cases t <;> cases step <;> simp only [marked, Json.child, Option.map_none]
  · rw [getElem?_map]
  · exact Json.lookup_map (fun _ => marked n) _ _

omit [DecidableEq K] in
theorem cellOf_marked (hShallow : Shallow (n + 1) t) (v : Value (Ref K) A) (ref : Ref K) :
    cellOf (standIn v) ref (marked (n + 1) t) = cellOf .leaf ref t := by
  cases t with
  | null | leaf a => rfl
  | array elts =>
    simp only [marked, cellOf, Cell.array.injEq]
    refine ext_getElem? fun i => ?_
    rw [getElem?_mapIdx, getElem?_mapIdx, getElem?_map]
    cases hElt : elts[i]? with
    | none => rfl
    | some c =>
      simp only [Option.map_some, decoded_marked (hShallow c (mem_of_getElem? hElt)) v]
  | object members =>
    simp only [marked, cellOf, map_map, Cell.object.injEq]
    refine map_congr_left fun m hMem => ?_
    simp only [Function.comp, Prod.mk.injEq, true_and]
    exact decoded_marked (hShallow m.2 (mem_map_of_mem hMem)) v _

theorem shows_marked {h : Heap K (Ref K) A} (hShallow : Shallow n t) (hShows : Shows .leaf h ref t)
    (v : Value (Ref K) A) : Shows (standIn v) h ref (marked n t) := by
  intro place
  induction place generalizing n ref t with
  | nil =>
    intro c hGet hNode
    cases hGet
    cases n with
    | zero => rcases hShallow with rfl | ⟨a, rfl⟩ <;> exact hNode.elim
    | succ n =>
      have hNode' : IsNode t := by cases t <;> trivial
      rw [Ref.below_nil, cellOf_marked hShallow, hShows.cell hNode']
  | cons step place ih =>
    intro c hGet hNode
    cases n with
    | zero =>
      rcases hShallow with rfl | ⟨a, rfl⟩ <;> cases step <;> cases hGet
    | succ n =>
      rw [Json.get, child_marked] at hGet
      obtain ⟨_, hMarked, hGet⟩ := Option.bind_eq_some_iff.mp hGet
      obtain ⟨d, hChild, rfl⟩ := Option.map_eq_some_iff.mp hMarked
      have hCell := ih (hShallow d (Json.mem_children hChild)) (hShows.child hChild) c hGet hNode
      rwa [Ref.below_below] at hCell

omit [DecidableEq K] in
theorem children_marked (n : Nat) (t : Json K A) : (marked (n + 1) t).children = t.children.map (marked n) := by
  cases t <;> simp [marked, Json.children]

omit [DecidableEq K] in
theorem shallow_marked (hShallow : Shallow n t) : Shallow n (marked n t) := by
  induction n generalizing t with
  | zero => rcases hShallow with rfl | ⟨a, rfl⟩ <;> simp [Shallow, marked]
  | succ n ih =>
    intro c hMem
    rw [children_marked] at hMem
    obtain ⟨d, hChild, rfl⟩ := mem_map.mp hMem
    exact ih (hShallow d hChild)

theorem get_marked_ne_mark (n : Nat) (t : Json K A) (place : List (Step K)) : (marked n t).get place ≠ some mark := by
  induction place generalizing n t with
  | nil => cases n <;> cases t <;> exact fun hEq => by cases hEq
  | cons step place ih =>
    cases n with
    | zero => cases t <;> cases step <;> exact fun hEq => by cases hEq
    | succ n =>
      rw [Json.get, child_marked]
      cases t.child step with
      | none => exact fun hEq => by cases hEq
      | some c => exact ih n c

end Decoded

section Replacement

variable (hPath : ∀ sel ∈ path, Flat sel) {data value : Json K A} (hData : Shallow bound data)
  (hValue : Shallow bound value)

include hPath hData hValue

theorem follows_replacement {v : Value (Ref K) A} (hv : decoded .leaf ⟨.value, []⟩ value = v) :
    (∀ t, rewrite (marked bound value) bound path true (marked bound data) = some t →
      ∃ h, Runs v none path true (heapOf (documents data value)) (decoded .leaf ⟨.data, []⟩ data) h
        (shown v ⟨.data, []⟩ t) ∧ Shows (standIn v) h ⟨.data, []⟩ t) ∧
    (rewrite (marked bound value) bound path true (marked bound data) = none →
      ∀ h x, ¬ Runs v none path true (heapOf (documents data value)) (decoded .leaf ⟨.data, []⟩ data) h x) := by
  have hRoot : shown v ⟨.value, []⟩ (marked bound value) = v := (decoded_marked hValue v _).trans hv
  have hDocument : Document v (marked bound value) (heapOf (documents data value)) [] (marked bound data) :=
    ⟨shows_marked hData (shows_heapOf (documents data value) .data) v,
      shows_marked hValue (shows_heapOf (documents data value) .value) v, tame_heapOf _ _⟩
  obtain ⟨hSome, hNone⟩ := follows_rewrite_lead hRoot (get_marked_ne_mark bound value) (shallow_marked hValue) hPath
    (Nat.le_refl bound) true ⟨shallow_marked hData, fun place _ => get_marked_ne_mark bound data place⟩ hDocument
  rw [shown, decoded_marked hData] at hSome hNone
  refine ⟨fun t hRewrite => ?_, hNone⟩
  obtain ⟨-, h, hRuns, hHolds, -⟩ := hSome t hRewrite
  exact ⟨h, hRuns, hHolds.shows_⟩

theorem exists_replacement_iff : (∃ fuel state, replacement data value path fuel = .ok state) ↔
      (rewrite (marked bound value) bound path true (marked bound data)).isSome = true := by
  obtain ⟨hSome, hNone⟩ := follows_replacement hPath hData hValue rfl
  constructor
  · rintro ⟨fuel, ⟨h', x'⟩, hRun⟩
    cases hRewrite : rewrite (marked bound value) bound path true (marked bound data) with
    | some t' => rfl
    | none => exact (hNone hRewrite _ _ (exists_apply_iff.mp ⟨fuel, hRun⟩)).elim
  · intro hRewrite
    obtain ⟨t', hRewrite⟩ := Option.isSome_iff_exists.mp hRewrite
    obtain ⟨h', hRuns, -⟩ := hSome t' hRewrite
    obtain ⟨fuel, hRun⟩ := exists_apply_iff.mpr hRuns
    exact ⟨fuel, _, hRun⟩

end Replacement

/-- A replacement returns exactly if the document can be rewritten with an opaque value that the path passes by. If no
stride of the path can make an index wrap around in an array that memory has room for, it does not end otherwise. -/
theorem replacement_returns_iff {tables : Tables} {source : GoString} {path : List (Selector GoString)}
    (hParse : parseString tables source = .ok path) {bound : Nat} (hBound : bound ≤ 2 ^ 62)
    {data value : Json GoString A} (hData : Within bound data) (hValue : Within bound value) :
    ((∃ fuel state, replacement data value path fuel = .ok state) ↔
        (rewrite (marked bound value) bound path true (marked bound data)).isSome = true) ∧
      ((∀ sel ∈ path, Steady bound sel) → (Ends Stop.outOfFuel (replacement data value path) ↔
        (rewrite (marked bound value) bound path true (marked bound data)).isSome = true)) := by
  have hFlat := flat_of_parseString hParse
  have hReturns := exists_replacement_iff hFlat hData.shallow hValue.shallow
  refine ⟨hReturns, fun hSteady => hReturns.symm.trans ?_ |>.symm⟩
  constructor
  · rintro ⟨fuel, state, hRun⟩
    exact ⟨fuel, by rw [hRun]; exact fun hStop => by cases hStop⟩
  · rintro ⟨fuel, hNe⟩
    have hBounded : Bounded bound (heapOf (documents data value)) := bounded_heapOf fun
      | .data => hData
      | .value => hValue
    obtain ⟨hPanic, -⟩ := post_apply (fun _ => decoded .leaf ⟨.value, []⟩ value) hBound
      (fun sel hMem => ⟨hFlat sel hMem, hSteady sel hMem⟩) hBounded (decoded .leaf ⟨.data, []⟩ data) fuel true
    cases hRun : replacement data value path fuel with
    | ok state => exact ⟨fuel, state, hRun⟩
    | error stop =>
      cases stop with
      | outOfFuel => exact absurd hRun hNe
      | indexOutOfRange => exact absurd hRun hPanic

def oneMember : Json GoString Unit := .object [(.ofString "a", .null)]

theorem within_leaf (bound : Nat) (a : A) : Within bound (.leaf a : Json K A) := by
  refine ⟨?_, fun place elts hGet => ?_⟩
  · cases bound with
    | zero => exact .inr ⟨a, rfl⟩
    | succ bound => exact fun c hMem => by cases hMem
  · rcases place with _ | ⟨_ | _, place⟩ <;> cases hGet

theorem within_oneMember : Within 1 oneMember := by
  refine ⟨fun c hMem => .inl (mem_singleton.mp hMem), fun place elts hGet => ?_⟩
  rcases place with _ | ⟨k | i, place⟩
  · cases hGet
  · obtain ⟨c, hChild, hGet⟩ := Option.bind_eq_some_iff.mp hGet
    obtain rfl : c = .null := mem_singleton.mp (Json.mem_children hChild)
    rcases place with _ | ⟨_ | _, place⟩ <;> cases hGet
  · cases hGet

/-- A scalar ends the recursion. -/
theorem replacement_returns_iff_scalar :
    parseString asciiTables (.ofString "$..[*]") = .ok [.recurse, .everyChild] ∧
      (∃ fuel state, replacement oneMember (.leaf ()) [.recurse, .everyChild] fuel = .ok state) ∧
      Ends Stop.outOfFuel (replacement oneMember (.leaf ()) [.recurse, .everyChild]) := by
  have hParse : parseString asciiTables (.ofString "$..[*]") = .ok [.recurse, .everyChild] := rfl
  have hIff := replacement_returns_iff hParse (by decide : 1 ≤ 2 ^ 62) within_oneMember (within_leaf 1 ())
  refine ⟨hParse, hIff.1.mpr (by decide), (hIff.2 fun sel hMem r hRange => ?_).mpr (by decide)⟩
  subst hRange
  simp at hMem

/-- `$..` with a value that has a member: it is put everywhere, and then its member is visited. -/
theorem recursive_replacement_endless :
    parseString asciiTables (.ofString "$..") = .ok [.recurse] ∧ Within 1 oneMember ∧
      ¬ Ends Stop.outOfFuel (replacement oneMember oneMember [.recurse]) := by
  refine ⟨rfl, within_oneMember, ?_⟩
  rintro ⟨fuel, hNe⟩
  have hBounded : Bounded 1 (heapOf (documents oneMember oneMember)) := bounded_heapOf fun
    | .data => within_oneMember
    | .value => within_oneMember
  cases hRun : replacement oneMember oneMember [.recurse] fuel with
  | ok state =>
    obtain ⟨h', x'⟩ := state
    have hChild : (heapOf (documents oneMember oneMember) ⟨.value, []⟩).child (.key (.ofString "a")) = some .null := rfl
    cases runs_of_apply hRun with
    | recurse hFirst hChildren =>
      cases hFirst
      exact not_runs_children hChild hChildren
    | select hSimple => cases hSimple
  | error stop =>
    cases stop with
    | outOfFuel => exact hNe hRun
    | indexOutOfRange =>
      refine (post_apply _ (by decide) (fun sel hMem => ?_) hBounded _ fuel true).1 hRun
      cases mem_singleton.mp hMem
      exact ⟨.recurse, fun r hRange => by cases hRange⟩

end KubeStellar.JsonPath.InPlace
