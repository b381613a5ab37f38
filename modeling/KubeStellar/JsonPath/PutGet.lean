import KubeStellar.JsonPath.Termination

/-! # Putting a value at a path of names

What is found at the path after an evaluation with `definite`. Trees and cells agree on such paths. They need not where
a selector is recursive: the value may become a part of itself in place, and a tree never does.
-/

namespace KubeStellar.JsonPath

variable {K A : Type} [DecidableEq K]

def memberAt (data : Json K A) (names : List K) : Option (Json K A) := data.get (names.map .key)

def OnPrefixes (names : List K) (P : List K → Prop) : Prop :=
  ∀ before after, names = before ++ after → after ≠ [] → P before

omit [DecidableEq K] in
theorem onPrefixes_nil (P : List K → Prop) : OnPrefixes [] P := by
  intro before after hNames hAfter
  exact absurd (List.append_eq_nil_iff.mp hNames.symm).2 hAfter

variable {name : K} {names : List K}

omit [DecidableEq K] in
theorem onPrefixes_cons {P : List K → Prop} :
    OnPrefixes (name :: names) P ↔ P [] ∧ OnPrefixes names fun before => P (name :: before) := by
  constructor
  · intro hAll
    exact ⟨hAll [] (name :: names) rfl (List.cons_ne_nil _ _), fun before after hNames hAfter =>
      hAll (name :: before) after (by rw [hNames, List.cons_append]) hAfter⟩
  · rintro ⟨hNil, hCons⟩ before after hNames hAfter
    cases before with
    | nil => exact hNil
    | cons first before =>
      obtain ⟨rfl, hRest⟩ := List.cons.inj hNames
      exact hCons before after hRest hAfter

theorem memberAt_object_cons (typed : List (K × Json K A)) (name : K) (names : List K) :
    memberAt (.object typed) (name :: names) = (Json.lookup name typed).bind fun c => memberAt c names := rfl

theorem returns_nil (fn : Json K A → Json K A) (data : Json K A) (definite : Bool) :
    Returns fn data [] definite (fn data) :=
  returns_iff.mpr ⟨1, rfl⟩

variable {fn : Json K A → Json K A} {typed : List (K × Json K A)} {path : List (Selector K)}

theorem returns_name_definite {result : Json K A} : Returns fn (.object typed) (.name name :: path) true result ↔
      ∃ elt, Returns fn ((Json.lookup name typed).getD .null) path true elt ∧
        result = .object (Json.assign name elt typed) := by
  constructor
  · intro hReturns
    obtain ⟨fuel, hOk⟩ := returns_iff.mp hReturns
    cases fuel with
    | zero => cases hOk
    | succ fuel =>
      obtain ⟨elt, hElt, hPure⟩ := Fuel.bind_eq_ok.mp hOk
      cases hPure
      exact ⟨elt, returns_iff.mpr ⟨fuel, hElt⟩, rfl⟩
  · rintro ⟨elt, hElt, rfl⟩
    obtain ⟨fuel, hOk⟩ := returns_iff.mp hElt
    exact returns_iff.mpr ⟨fuel + 1, Fuel.bind_eq_ok.mpr ⟨elt, hOk, rfl⟩⟩

theorem memberAt_after_name {v : Json K A} : (∃ result, Returns fn (.object typed) (.name name :: path) true result ∧
        memberAt result (name :: names) = some v) ↔
      ∃ elt, Returns fn ((Json.lookup name typed).getD .null) path true elt ∧ memberAt elt names = some v := by
  constructor
  · rintro ⟨result, hReturns, hGet⟩
    obtain ⟨elt, hElt, rfl⟩ := returns_name_definite.mp hReturns
    rw [memberAt_object_cons, Json.lookup_assign, if_pos rfl] at hGet
    exact ⟨elt, hElt, hGet⟩
  · rintro ⟨elt, hElt, hGet⟩
    refine ⟨_, returns_name_definite.mpr ⟨elt, hElt, rfl⟩, ?_⟩
    rw [memberAt_object_cons, Json.lookup_assign, if_pos rfl]
    exact hGet

theorem not_memberAt_null (v : Json K A) (name : K) (names : List K) :
    ¬ ∃ elt, Returns (fun _ => v) .null ((name :: names).map .name) true elt ∧
      memberAt elt (name :: names) = some v := by
  rintro ⟨elt, hReturns, hGet⟩
  have hNull : Returns (fun _ => v) (.null : Json K A) ((name :: names).map .name) true .null :=
    returns_iff.mpr ⟨1, rfl⟩
  rw [hReturns.unique hNull] at hGet
  cases hGet

/-- The value is found iff every member on the way was there. -/
theorem put_get_iff (members : List (K × Json K A)) (names : List K) (v : Json K A)
    (hObjects : OnPrefixes names fun before =>
      ∀ t, memberAt (.object members) before = some t → ∃ typed, t = .object typed) :
    (∃ result, Returns (fun _ => v) (.object members) (names.map .name) true result ∧ memberAt result names = some v) ↔
      OnPrefixes names fun before => (memberAt (.object members) before).isSome := by
  induction names generalizing members with
  | nil => exact ⟨fun _ => onPrefixes_nil _, fun _ => ⟨v, returns_nil _ _ _, rfl⟩⟩
  | cons name names ih =>
    rw [List.map_cons, memberAt_after_name, onPrefixes_cons]
    simp only [memberAt_object_cons]
    cases names with
    | nil => exact ⟨fun _ => ⟨rfl, onPrefixes_nil _⟩, fun _ => ⟨v, returns_nil _ _ _, rfl⟩⟩
    | cons next names =>
      cases hLookup : Json.lookup name members with
      | none =>
        refine iff_of_false (not_memberAt_null v next names) fun hThere => ?_
        exact absurd (onPrefixes_cons.mp hThere.2).1 (by simp)
      | some c =>
        have hHere := (onPrefixes_cons.mp hObjects).2
        simp only [memberAt_object_cons, hLookup, Option.bind_some] at hHere
        obtain ⟨typed, rfl⟩ := (onPrefixes_cons.mp hHere).1 c rfl
        exact (ih typed hHere).trans ⟨fun h => ⟨rfl, h⟩, And.right⟩

/-- `$.spec.replicas` in an object without a spec introduces the spec, but as null. -/
theorem put_get_missing_member : (OnPrefixes ["spec", "replicas"] fun before =>
      ∀ t, memberAt (.object [] : Json String Nat) before = some t → ∃ typed, t = .object typed) ∧
    Returns (fun _ => .leaf 3) (.object [] : Json String Nat) [.name "spec", .name "replicas"] true
      (.object [("spec", .null)]) ∧
    ¬ ∃ result, Returns (fun _ => .leaf 3) (.object [] : Json String Nat) [.name "spec", .name "replicas"] true result ∧
      memberAt result ["spec", "replicas"] = some (.leaf 3) := by
  have hReturns : Returns (fun _ => .leaf 3) (.object [] : Json String Nat) [.name "spec", .name "replicas"] true
      (.object [("spec", .null)]) := returns_iff.mpr ⟨2, rfl⟩
  refine ⟨?_, hReturns, ?_⟩
  · rw [onPrefixes_cons, onPrefixes_cons]
    refine ⟨?_, ?_, onPrefixes_nil _⟩
    · rintro t hGet
      cases hGet
      exact ⟨[], rfl⟩
    · rintro t hGet
      cases hGet
  · rintro ⟨result, hResult, hGet⟩
    rw [hResult.unique hReturns] at hGet
    cases hGet

/-- With a spec, the value is put into it. -/
theorem put_get_iff_spec : (∃ result, Returns (fun _ => .leaf 3) (.object [("spec", .object [])] : Json String Nat)
        (["spec", "replicas"].map .name) true result ∧ memberAt result ["spec", "replicas"] = some (.leaf 3)) ↔
      OnPrefixes ["spec", "replicas"] fun before =>
        (memberAt (.object [("spec", .object [])] : Json String Nat) before).isSome :=
  put_get_iff [("spec", .object [])] ["spec", "replicas"] (.leaf 3) (by
    rw [onPrefixes_cons, onPrefixes_cons]
    refine ⟨?_, ?_, onPrefixes_nil _⟩
    · rintro t hGet
      cases hGet
      exact ⟨_, rfl⟩
    · rintro t hGet
      cases hGet
      exact ⟨_, rfl⟩)

namespace InPlace

theorem rewrite_of_returns (value : Marked K A) (depth : Nat) {t t' : Marked K A} (hDeep : Deep names.length t)
    (hReturns : Returns (fun _ => mark) t (names.map .name) true t') :
    rewrite value depth (names.map .name) true t = some t' := by
  induction names generalizing t t' with
  | nil => rw [hReturns.unique (returns_nil _ _ _)]; rfl
  | cons name names ih =>
    have hSame (hOk : JsonPath.apply (fun _ => mark) 1 t ((name :: names).map .name) true = .ok t) : t' = t :=
      hReturns.unique (returns_iff.mpr ⟨1, hOk⟩)
    cases t with
    | object typed =>
      obtain ⟨elt, hElt, rfl⟩ := returns_name_definite.mp hReturns
      have hBelow : Deep names.length ((Json.lookup name typed).getD .null) := hDeep.child (.key name)
      show ([.key name].foldlM (visitTree (rewrite value depth (names.map .name) true)) (.object typed)) = _
      rw [List.foldlM_cons, visitTree, Json.child, ih hBelow hElt]
      rfl
    | null | array _ => rw [hSame rfl]; rfl
    | leaf a =>
      cases a with
      | none => exact absurd rfl (hDeep [] (Nat.succ_pos _))
      | some a => rw [hSame rfl]; rfl

/-- On a path of names, the evaluation in place returns the document that the evaluation of trees returns, with the
value where the mark is. -/
theorem replacement_of_returns {bound : Nat} {data value : Json K A} (hData : Shallow bound data)
    (hValue : Shallow bound value) {t : Marked K A} {v : Value (Ref K) A} (hv : decoded .leaf ⟨.value, []⟩ value = v)
    (hReturns : Returns (fun _ => mark) (marked bound data) (names.map .name) true t) :
    ∃ fuel h, replacement data value (names.map .name) fuel = .ok (h, shown v ⟨.data, []⟩ t) ∧
      Shows (standIn v) h ⟨.data, []⟩ t := by
  have hPath : ∀ sel ∈ names.map Selector.name, Flat sel := by
    intro sel hMem
    obtain ⟨name, -, rfl⟩ := List.mem_map.mp hMem
    exact .name name
  obtain ⟨h, hRuns, hShows⟩ := (follows_replacement hPath hData hValue hv).1 t
    (rewrite_of_returns _ _ (fun place _ => get_marked_ne_mark bound data place) hReturns)
  subst hv
  obtain ⟨fuel, hRun⟩ := exists_apply_iff.mpr hRuns
  exact ⟨fuel, h, hRun, hShows⟩

end InPlace

end KubeStellar.JsonPath
