import KubeStellar.Library.Json
import KubeStellar.JsonPath.Parser

/-! # Evaluation of paths

`pkg/jsonpath/eval.go`. Maps and slices are updated in place there; here an update is a new tree. Each member of a map
is visited once and on its own, so they are visited in the order of the list.
-/

namespace KubeStellar.JsonPath

inductive Stop where
  | outOfFuel
  | indexOutOfRange
deriving DecidableEq

variable {index : Int} {fuel fuel' : Nat} {J : Type}

/-- `limit` in the loop over a range. -/
def Range.limit (r : Range) (length : Nat) : Int :=
  match r.afterEnd with
  | some afterEnd => if afterEnd < length then afterEnd else length
  | none => length

variable {S : Type}

/-- `for index := …; index < limit; index += stride`. -/
def rangeLoop (visit : S → Nat → Except Stop S) (limit : Int) (stride : Numeral) : Nat → Int → S → Except Stop S
  | 0, _, _ => .error .outOfFuel
  | fuel + 1, index, s =>
    if index < limit then
      if index < 0 then .error .indexOutOfRange
      else do
        let s ← visit s index.toNat
        rangeLoop visit limit stride fuel (wrap (index + stride)) s
    else .ok s

/-- `typed[index] = …(typed[index])`. -/
def updateAt (body : J → Except Stop J) (typed : List J) (i : Nat) : Except Stop (List J) :=
  match typed[i]? with
  | none => .error .indexOutOfRange
  | some elt => do
    let elt ← body elt
    return typed.set i elt

theorem Range.limit_le (r : Range) (length : Nat) : r.limit length ≤ length := by
  unfold Range.limit
  split
  · split <;> omega
  · exact Int.le_refl _

variable {limit : Int} {stride : Numeral}

theorem below_rangeLoop {visit visit' : S → Nat → Except Stop S}
    (hVisit : ∀ s i, Fuel.Below Stop.outOfFuel (visit s i) (visit' s i)) (hLe : fuel ≤ fuel') (index : Int) (s : S) :
    Fuel.Below Stop.outOfFuel (rangeLoop visit limit stride fuel index s)
      (rangeLoop visit' limit stride fuel' index s) := by
  induction fuel generalizing fuel' index s with
  | zero => exact .inl rfl
  | succ fuel ih =>
    obtain ⟨fuel', rfl⟩ : ∃ n, fuel' = n + 1 := ⟨fuel' - 1, by omega⟩
    rw [rangeLoop, rangeLoop.eq_2 visit']
    split
    · split
      · exact .refl _
      · exact (hVisit _ _).bind fun _ => ih (Nat.le_of_succ_le_succ hLe) _ _
    · exact .refl _

theorem below_updateAt {body body' : J → Except Stop J}
    (hBody : ∀ elt, Fuel.Below Stop.outOfFuel (body elt) (body' elt))
    (typed : List J) (i : Nat) : Fuel.Below Stop.outOfFuel (updateAt body typed i) (updateAt body' typed i) := by
  unfold updateAt
  split
  · exact .refl _
  · exact (hBody _).bind fun _ => .refl _

variable {K A : Type} [DecidableEq K]

def apply (fn : Json K A → Json K A) : Nat → Json K A → List (Selector K) → Bool → Except Stop (Json K A)
  | 0, _, _, _ => .error .outOfFuel
  | _ + 1, data, [], _ => .ok (fn data)
  | fuel + 1, data, .name name :: path, definite =>
    match data with
    | .object typed =>
      if definite then do
        let elt ← apply fn fuel ((Json.lookup name typed).getD .null) path definite
        return .object (Json.assign name elt typed)
      else
        match Json.lookup name typed with
        | some elt => do
          let elt ← apply fn fuel elt path definite
          return .object (Json.assign name elt typed)
        | none => .ok data
    | _ => .ok data
  | fuel + 1, data, .range range :: path, definite =>
    let definite := definite && range.afterEnd == some (wrap (range.start + 1)) && range.stride.val == 1
    match data with
    | .array typed => do
      let typed ← rangeLoop (updateAt fun elt => apply fn fuel elt path definite) (range.limit typed.length)
        range.stride fuel range.start typed
      return .array typed
    | _ => .ok data
  | fuel + 1, data, .list list :: path, definite =>
    list.foldlM (fun data sub => apply fn fuel data (sub :: path) definite) data
  | fuel + 1, data, .everyChild :: path, _ => data.forEachChild fun child => apply fn fuel child path false
  | fuel + 1, data, .recurse :: path, _ => do
    let data ← apply fn fuel data path false
    data.forEachChild fun child => apply fn fuel child (.recurse :: path) false

variable {name : K} {typed : List (K × Json K A)}

theorem apply_name_found (fn : Json K A → Json K A) {elt : Json K A}
    (hLookup : Json.lookup name typed = some elt) (fuel : Nat) (path : List (Selector K)) :
    apply fn (fuel + 1) (.object typed) (.name name :: path) false =
      apply fn fuel elt path false >>= fun elt => .ok (.object (Json.assign name elt typed)) := by
  rw [apply]
  simp only [hLookup, Bool.false_eq_true, if_false]
  rfl

theorem apply_name_missing (fn : Json K A → Json K A)
    (hLookup : Json.lookup name typed = none) (fuel : Nat) (path : List (Selector K)) :
    apply fn (fuel + 1) (.object typed) (.name name :: path) false = .ok (.object typed) := by
  rw [apply]
  simp only [hLookup, Bool.false_eq_true, if_false]

theorem below_apply_succ (fn : Json K A → Json K A) (fuel : Nat) (data : Json K A) (path : List (Selector K))
    (definite : Bool) :
    Fuel.Below Stop.outOfFuel (apply fn fuel data path definite) (apply fn (fuel + 1) data path definite) := by
  induction fuel generalizing data path definite with
  | zero => exact .inl rfl
  | succ fuel ih =>
    cases path with
    | nil => exact .refl _
    | cons sel path =>
      cases sel with
      | name name =>
        cases data with
        | object typed =>
          cases definite with
          | true => exact (ih _ _ _).bind fun _ => .refl _
          | false =>
            cases hLookup : Json.lookup name typed with
            | none =>
              rw [apply_name_missing fn hLookup, apply_name_missing fn hLookup]
              exact .refl _
            | some elt =>
              rw [apply_name_found fn hLookup, apply_name_found fn hLookup]
              exact (ih _ _ _).bind fun _ => .refl _
        | null | leaf _ | array _ => exact .refl _
      | range range =>
        cases data with
        | array typed =>
          exact (below_rangeLoop (below_updateAt fun _ => ih _ _ _) (Nat.le_succ _) _ _).bind fun _ => .refl _
        | null | leaf _ | object _ => exact .refl _
      | list list => exact Fuel.Below.foldlM (fun _ _ => ih _ _ _) _ _
      | everyChild => exact Json.below_forEachChild (fun _ => ih _ _ _) _
      | recurse => exact (ih _ _ _).bind fun _ => Json.below_forEachChild (fun _ => ih _ _ _) _

theorem below_apply (fn : Json K A → Json K A) (data : Json K A) (path : List (Selector K)) (definite : Bool)
    (hLe : fuel ≤ fuel') :
    Fuel.Below Stop.outOfFuel (apply fn fuel data path definite) (apply fn fuel' data path definite) :=
  Fuel.below_of_le (fun fuel => below_apply_succ fn fuel data path definite) hLe

def Returns (fn : Json K A → Json K A) (data : Json K A) (path : List (Selector K)) (definite : Bool)
    (result : Json K A) : Prop :=
  ∃ enough, ∀ fuel ≥ enough, apply fn fuel data path definite = .ok result

variable {fn : Json K A → Json K A} {data result : Json K A} {path : List (Selector K)} {definite : Bool}

theorem returns_iff : Returns fn data path definite result ↔ ∃ fuel, apply fn fuel data path definite = .ok result := by
  constructor
  · rintro ⟨enough, hEnough⟩
    exact ⟨enough, hEnough enough (Nat.le_refl _)⟩
  · rintro ⟨fuel, hOk⟩
    exact ⟨fuel, fun fuel' hLe => (below_apply fn data path definite hLe).ok_eq hOk⟩

theorem Returns.unique {result' : Json K A} (hReturns : Returns fn data path definite result)
    (hReturns' : Returns fn data path definite result') : result = result' := by
  obtain ⟨enough, hEnough⟩ := hReturns
  obtain ⟨enough', hEnough'⟩ := hReturns'
  exact Except.ok.inj ((hEnough (max enough enough') (Nat.le_max_left _ _)).symm.trans
    (hEnough' _ (Nat.le_max_right _ _)))

end KubeStellar.JsonPath
