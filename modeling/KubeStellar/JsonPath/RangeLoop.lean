import KubeStellar.JsonPath.Eval

/-! # The loop over a range

Which indices the loop visits, against the progression that the range stands for.
-/

namespace KubeStellar.JsonPath

open List Fuel

def indicesFrom (limit : Int) (stride : Numeral) : Nat → Nat → Option (List Nat)
  | 0, i => if (i : Int) < limit then none else some []
  | n + 1, i =>
    if (i : Int) < limit then
      if i + stride.val < 2 ^ 63 then (indicesFrom limit stride n (i + stride)).map (i :: ·) else none
    else some []

/-- The indices that the loop visits. There are none if it does not advance, or an addition wraps around. -/
def Range.indices (r : Range) (length : Nat) : Option (List Nat) := indicesFrom (r.limit length) r.stride length r.start

variable {J : Type} {typed : List J} {r : Range} {i : Nat} {body : J → Except Stop J} {indices : List Nat}

def Range.Selects (r : Range) (length i : Nat) : Prop := (i : Int) < r.limit length ∧ ∃ k, i = r.start + k * r.stride

theorem Range.Selects.lt_length {length : Nat} (hSelects : r.Selects length i) : i < length := by
  have hLimit := r.limit_le length
  have hBelow := hSelects.1
  omega

def Range.NoOverflow (r : Range) (length : Nat) : Prop := ∀ i, r.Selects length i → i + r.stride.val < 2 ^ 63

theorem updateAt_eq {elt : J} (hElt : typed[i]? = some elt) (body : J → Except Stop J) :
    updateAt body typed i = body elt >>= fun elt => .ok (typed.set i elt) := by
  rw [updateAt, hElt]
  rfl

theorem foldlM_updateAt (hIncr : indices.Pairwise (· < ·)) (hInside : ∀ i ∈ indices, i < typed.length)
    (hBody : ∀ i ∈ indices, ∀ elt, typed[i]? = some elt → ∃ elt', body elt = .ok elt') :
    ∃ typed', indices.foldlM (updateAt body) typed = .ok typed' ∧ typed'.length = typed.length ∧
      (∀ i ∈ indices, ∀ elt, typed[i]? = some elt → ∃ elt', body elt = .ok elt' ∧ typed'[i]? = some elt') ∧
      ∀ i, i ∉ indices → typed'[i]? = typed[i]? := by
  induction indices generalizing typed with
  | nil => exact ⟨typed, rfl, rfl, fun _ hMem => absurd hMem not_mem_nil, fun _ _ => rfl⟩
  | cons i indices ih =>
    obtain ⟨hFirst, hLater⟩ := pairwise_cons.mp hIncr
    obtain ⟨hHead, hTail⟩ := forall_mem_cons.mp hInside
    have hElt := List.getElem?_eq_getElem hHead
    obtain ⟨elt', hOk⟩ := hBody i mem_cons_self _ hElt
    have hKept (j : Nat) (hj : j ∈ indices) : (typed.set i elt')[j]? = typed[j]? :=
      List.getElem?_set_ne (Nat.ne_of_lt (hFirst j hj))
    obtain ⟨typed', hFold, hLength, hVisited, hOthers⟩ := @ih (typed.set i elt') hLater
      (fun j hj => by rw [length_set]; exact hTail j hj)
      (fun j hj elt hGet => hBody j (mem_cons_of_mem _ hj) elt ((hKept j hj).symm.trans hGet))
    have hNotLater : i ∉ indices := fun hMem => Nat.lt_irrefl i (hFirst i hMem)
    refine ⟨typed', ?_, hLength.trans length_set, forall_mem_cons.mpr ⟨fun elt hGet => ?_, fun j hj elt hGet => ?_⟩,
      fun j hj => ?_⟩
    · rw [foldlM_cons, updateAt_eq hElt, hOk, ok_bind, ok_bind, hFold]
    · rw [hElt, Option.some.injEq] at hGet
      exact ⟨elt', hGet ▸ hOk, by rw [hOthers i hNotLater, List.getElem?_set_self hHead]⟩
    · exact hVisited j hj elt ((hKept j hj).trans hGet)
    · rw [mem_cons, not_or] at hj
      rw [hOthers j hj.2, List.getElem?_set_ne (Ne.symm hj.1)]

def VisitsSelected (r : Range) (typed : List J) : Prop :=
  ∃ indices : List Nat, indices.Pairwise (· < ·) ∧ (∀ i, i ∈ indices ↔ r.Selects typed.length i) ∧
    (∀ i ∈ indices, i < typed.length) ∧
    ∀ body : J → Except Stop J, ∃ enough, ∀ fuel ≥ enough,
      rangeLoop (updateAt body) (r.limit typed.length) r.stride fuel r.start typed =
        indices.foldlM (updateAt body) typed

variable {limit : Int} {stride : Numeral} {n : Nat}

theorem indicesFrom_of_done (hDone : ¬ (i : Int) < limit) (n : Nat) : indicesFrom limit stride n i = some [] := by
  cases n <;> rw [indicesFrom, if_neg hDone]

/-- A loop that is entered visits its first index and is entered again. -/
theorem indicesFrom_entered (hMore : (i : Int) < limit) (hSome : indicesFrom limit stride n i = some indices) :
    ∃ m later, n = m + 1 ∧ i + stride.val < 2 ^ 63 ∧ indicesFrom limit stride m (i + stride) = some later ∧
      indices = i :: later := by
  cases n with
  | zero =>
    rw [indicesFrom, if_pos hMore] at hSome
    cases hSome
  | succ m =>
    rw [indicesFrom, if_pos hMore] at hSome
    split at hSome
    · rename_i hNext
      obtain ⟨later, hLater, rfl⟩ := Option.map_eq_some_iff.mp hSome
      exact ⟨m, later, rfl, hNext, hLater, rfl⟩
    · cases hSome

theorem stride_ne_zero (hMore : (i : Int) < limit) (hSome : indicesFrom limit stride n i = some indices) :
    stride.val ≠ 0 := by
  intro hZero
  induction n generalizing indices with
  | zero => obtain ⟨m, later, hEq, -⟩ := indicesFrom_entered hMore hSome; cases hEq
  | succ n ih =>
    obtain ⟨m, later, hEq, -, hLater, -⟩ := indicesFrom_entered hMore hSome
    cases hEq
    rw [hZero, Nat.add_zero] at hLater
    exact ih hLater

theorem indicesFrom_enough {m : Nat} (hSome : indicesFrom limit stride m i = some indices) (hEnough : limit ≤ i + n) :
    indicesFrom limit stride n i = some indices := by
  induction n generalizing m i indices with
  | zero =>
    have hDone : ¬ (i : Int) < limit := by omega
    rw [← hSome, indicesFrom_of_done hDone, indicesFrom_of_done hDone]
  | succ n ih =>
    by_cases hMore : (i : Int) < limit
    · have hStride := stride_ne_zero hMore hSome
      obtain ⟨m, later, rfl, hNext, hLater, rfl⟩ := indicesFrom_entered hMore hSome
      rw [indicesFrom, if_pos hMore, if_pos hNext, ih hLater (by omega)]
      rfl
    · rw [← hSome, indicesFrom_of_done hMore, indicesFrom_of_done hMore]

theorem progression_iff (stride i j : Nat) : (∃ k, j = i + k * stride) ↔ j = i ∨ ∃ k, j = i + stride + k * stride := by
  constructor
  · rintro ⟨k, rfl⟩
    cases k with
    | zero => exact .inl (by omega)
    | succ k => exact .inr ⟨k, by rw [Nat.succ_mul]; omega⟩
  · rintro (rfl | ⟨k, rfl⟩)
    · exact ⟨0, by omega⟩
    · exact ⟨k + 1, by rw [Nat.succ_mul]; omega⟩

/-- The loop visits the progression up to the limit, and no addition wraps around. -/
theorem indicesFrom_spec (hSome : indicesFrom limit stride n i = some indices) : indices.Pairwise (· < ·) ∧
    (∀ j, j ∈ indices ↔ (j : Int) < limit ∧ ∃ k, j = i + k * stride) ∧ ∀ j ∈ indices, j + stride.val < 2 ^ 63 := by
  induction indices generalizing n i with
  | nil =>
    have hDone : ¬ (i : Int) < limit := fun hMore => by
      obtain ⟨m, later, -, -, -, hEq⟩ := indicesFrom_entered hMore hSome
      cases hEq
    refine ⟨.nil, fun j => iff_of_false not_mem_nil ?_, fun j hMem => absurd hMem not_mem_nil⟩
    rintro ⟨hBelow, k, rfl⟩
    omega
  | cons first later ih =>
    have hMore : (i : Int) < limit := by
      by_contra hDone
      rw [indicesFrom_of_done hDone] at hSome
      cases hSome
    have hStride := stride_ne_zero hMore hSome
    obtain ⟨m, later, rfl, hNext, hLater, hEq⟩ := indicesFrom_entered hMore hSome
    cases hEq
    obtain ⟨hIncr, hMem, hRoom⟩ := ih hLater
    refine ⟨pairwise_cons.mpr ⟨fun j hj => ?_, hIncr⟩, fun j => ?_, forall_mem_cons.mpr ⟨hNext, hRoom⟩⟩
    · obtain ⟨-, k, rfl⟩ := (hMem j).mp hj
      omega
    · rw [mem_cons, hMem, progression_iff _ first j]
      constructor
      · rintro (rfl | ⟨hBelow, hk⟩)
        · exact ⟨hMore, .inl rfl⟩
        · exact ⟨hBelow, .inr hk⟩
      · rintro ⟨hBelow, rfl | hk⟩
        · exact .inl rfl
        · exact .inr ⟨hBelow, hk⟩

theorem exists_indicesFrom (hStride : 1 ≤ stride.val) (hEnough : limit ≤ i + n)
    (hNoOverflow : ∀ j : Nat, (j : Int) < limit → (∃ k, j = i + k * stride) → j + stride < 2 ^ 63) :
    ∃ indices, indicesFrom limit stride n i = some indices := by
  induction n generalizing i with
  | zero => exact ⟨[], indicesFrom_of_done (by omega) _⟩
  | succ n ih =>
    by_cases hMore : (i : Int) < limit
    · have hNext : i + stride < 2 ^ 63 := hNoOverflow i hMore ⟨0, by omega⟩
      obtain ⟨later, hLater⟩ := ih (i := i + stride) (by omega) fun j hj hk =>
        hNoOverflow j hj ((progression_iff _ _ _).mpr (.inr hk))
      exact ⟨i :: later, by rw [indicesFrom, if_pos hMore, if_pos hNext, hLater]; rfl⟩
    · exact ⟨[], indicesFrom_of_done hMore _⟩

section Loop

variable {S : Type} {visit : S → Nat → Except Stop S} {s s' : S} {fuel : Nat}

theorem rangeLoop_of_indices (hSome : indicesFrom limit stride n i = some indices) (hFuel : n < fuel) :
    rangeLoop visit limit stride fuel i s = indices.foldlM visit s := by
  induction fuel generalizing n i s indices with
  | zero => omega
  | succ fuel ih =>
    by_cases hMore : (i : Int) < limit
    · obtain ⟨m, later, rfl, hNext, hLater, rfl⟩ := indicesFrom_entered hMore hSome
      rw [rangeLoop, if_pos hMore, if_neg (by omega), Int.toNat_natCast, foldlM_cons, wrap_of_lt (by omega) (by omega)]
      exact congrArg _ (funext fun s => by exact_mod_cast ih hLater (Nat.lt_of_succ_lt_succ hFuel))
    · rw [indicesFrom_of_done hMore, Option.some.injEq] at hSome
      subst hSome
      rw [rangeLoop, if_neg hMore]
      rfl

theorem rangeLoop_eq_ok (hIndex : i < 2 ^ 63) (hRun : rangeLoop visit limit stride fuel i s = .ok s') :
    ∃ indices, indicesFrom limit stride fuel i = some indices ∧ indices.foldlM visit s = .ok s' := by
  induction fuel generalizing i s with
  | zero => cases hRun
  | succ fuel ih =>
    by_cases hMore : (i : Int) < limit
    · rw [rangeLoop, if_pos hMore, if_neg (by omega), Int.toNat_natCast, bind_eq_ok] at hRun
      obtain ⟨s1, hVisit, hRun⟩ := hRun
      by_cases hNext : i + stride.val < 2 ^ 63
      · rw [wrap_of_lt (by omega) (by omega)] at hRun
        obtain ⟨later, hLater, hFold⟩ := ih hNext (by exact_mod_cast hRun)
        refine ⟨i :: later, ?_, by rw [foldlM_cons, hVisit, ok_bind, hFold]⟩
        rw [indicesFrom, if_pos hMore, if_pos hNext, hLater]
        rfl
      · -- the next index is negative
        have hNegative : wrap (i + stride) < 0 := wrap_of_le (by omega) (by omega)
        cases fuel with
        | zero => cases hRun
        | succ fuel =>
          rw [rangeLoop, if_pos (by omega), if_pos hNegative] at hRun
          cases hRun
    · rw [rangeLoop, if_neg hMore] at hRun
      exact ⟨[], indicesFrom_of_done hMore _, hRun⟩

end Loop

theorem visitsSelected_of_indices (hSome : r.indices typed.length = some indices) : VisitsSelected r typed := by
  obtain ⟨hIncr, hMem, -⟩ := indicesFrom_spec hSome
  exact ⟨indices, hIncr, hMem, fun i hi => Range.Selects.lt_length ((hMem i).mp hi), fun body =>
    ⟨typed.length + 1, fun fuel hFuel => rangeLoop_of_indices hSome hFuel⟩⟩

theorem visitsSelected_of_noOverflow
    (hSafe : r.limit typed.length ≤ r.start ∨ (1 ≤ r.stride.val ∧ r.NoOverflow typed.length)) :
    VisitsSelected r typed := by
  rcases hSafe with hDone | ⟨hStride, hNoOverflow⟩
  · have hOver : ¬ (r.start : Int) < r.limit typed.length := by omega
    exact visitsSelected_of_indices (indicesFrom_of_done (by exact_mod_cast hOver) _)
  · have hLimit := r.limit_le typed.length
    obtain ⟨indices, hSome⟩ := exists_indicesFrom hStride (by omega : r.limit typed.length ≤ r.start + typed.length)
      fun j hj hk => hNoOverflow j ⟨hj, hk⟩
    exact visitsSelected_of_indices hSome

theorem foldlM_updateAt_ok (hInside : ∀ i ∈ indices, i < typed.length) :
    indices.foldlM (updateAt .ok) typed = .ok typed := by
  induction indices with
  | nil => rfl
  | cons i indices ih =>
    obtain ⟨hHead, hTail⟩ := forall_mem_cons.mp hInside
    rw [foldlM_cons, updateAt_eq (List.getElem?_eq_getElem hHead), ok_bind, ok_bind, set_getElem_self, ih hTail]

theorem VisitsSelected.exists_indices (hVisits : VisitsSelected r typed) :
    ∃ n indices, indicesFrom (r.limit typed.length) r.stride n r.start = some indices := by
  obtain ⟨indices, -, -, hInside, hLoop⟩ := hVisits
  obtain ⟨enough, hEnough⟩ := hLoop .ok
  obtain ⟨indices', hSome, -⟩ := rangeLoop_eq_ok r.start.isLt
    ((hEnough enough (Nat.le_refl _)).trans (foldlM_updateAt_ok hInside))
  exact ⟨enough, indices', hSome⟩

theorem not_visitsSelected_of_stuck (hEntered : (r.start : Int) < r.limit typed.length)
    (hStride : r.stride.val = 0) : ¬ VisitsSelected r typed := by
  intro hVisits
  obtain ⟨n, indices, hSome⟩ := hVisits.exists_indices
  exact stride_ne_zero hEntered hSome hStride

theorem not_visitsSelected_of_overflow (hSelects : r.Selects typed.length i)
    (hOverflow : 2 ^ 63 ≤ i + r.stride.val) : ¬ VisitsSelected r typed := by
  intro hVisits
  obtain ⟨n, indices, hSome⟩ := hVisits.exists_indices
  obtain ⟨-, hMem, hNext⟩ := indicesFrom_spec hSome
  exact Nat.not_le_of_lt (hNext i ((hMem i).mpr hSelects)) hOverflow

/-- A loop that is entered needs a stride, and room for the last addition. -/
theorem visitsSelected_iff (r : Range) (typed : List J) :
    VisitsSelected r typed ↔ r.limit typed.length ≤ r.start ∨ (1 ≤ r.stride.val ∧ r.NoOverflow typed.length) := by
  refine ⟨fun hVisits => ?_, visitsSelected_of_noOverflow⟩
  by_cases hEntered : (r.start : Int) < r.limit typed.length
  · refine .inr ⟨?_, fun i hSelects => ?_⟩
    · by_contra hStride
      exact not_visitsSelected_of_stuck hEntered (by omega) hVisits
    · by_contra hOverflow
      exact not_visitsSelected_of_overflow hSelects (by omega) hVisits
  · exact .inl (by omega)

/-- `[0:5:0]` stays at the first element, and `[1::9223372036854775807]` leaves an array of two at its lower end. -/
theorem visitsSelected_fails :
    (parseString asciiTables (.ofString "$[0:5:0]") = .ok [.range ⟨⟨0, by decide⟩, some 5, ⟨0, by decide⟩⟩] ∧
        ¬ VisitsSelected ⟨⟨0, by decide⟩, some 5, ⟨0, by decide⟩⟩ [(), (), (), (), ()]) ∧
      parseString asciiTables (.ofString "$[1::9223372036854775807]") =
          .ok [.range ⟨⟨1, by decide⟩, none, ⟨2 ^ 63 - 1, by decide⟩⟩] ∧
        ¬ VisitsSelected ⟨⟨1, by decide⟩, none, ⟨2 ^ 63 - 1, by decide⟩⟩ [(), ()] :=
  ⟨⟨rfl, not_visitsSelected_of_stuck (by decide) rfl⟩, rfl,
    @not_visitsSelected_of_overflow _ _ _ 1 ⟨by decide, 0, rfl⟩ (by decide)⟩

end KubeStellar.JsonPath
