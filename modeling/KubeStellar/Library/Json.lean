import KubeStellar.Library.Fuel

/-! # JSON trees

Trees over a type of keys and a type of scalars. A key stands for the first member with it. A place in a tree is the
list of the steps that lead to it, and a node apart from its children is its label.
-/

inductive Json (K A : Type) where
  | null
  | leaf (a : A)
  | array (elts : List (Json K A))
  | object (members : List (K × Json K A))

namespace Json

open List Fuel

inductive Step (K : Type) where
  | key (k : K)
  | index (i : Nat)
deriving DecidableEq

inductive Label (K A : Type) where
  | null
  | leaf (a : A)
  | array (length : Nat)
  | object (keys : List K)
deriving DecidableEq

variable {K A E : Type}

def label : Json K A → Label K A
  | .null => .null
  | .leaf a => .leaf a
  | .array elts => .array elts.length
  | .object members => .object (members.map Prod.fst)

def children : Json K A → List (Json K A)
  | .null => []
  | .leaf _ => []
  | .array elts => elts
  | .object members => members.map Prod.snd

section Members

variable {V : Type} [DecidableEq K] {members : List (K × V)} {k : K}

def lookup (k : K) : List (K × V) → Option V
  | [] => none
  | m :: members => if m.1 = k then some m.2 else lookup k members

def assign (k : K) (v : V) : List (K × V) → List (K × V)
  | [] => [(k, v)]
  | m :: members => if m.1 = k then (m.1, v) :: members else m :: assign k v members

theorem lookup_eq_none_iff : lookup k members = none ↔ k ∉ members.map Prod.fst := by
  induction members with
  | nil => simp [lookup]
  | cons m members ih =>
    rw [lookup, map_cons, mem_cons, not_or, ← ih]
    by_cases hKey : m.1 = k
    · simp [hKey]
    · rw [if_neg hKey]
      exact ⟨fun h => ⟨fun hEq => hKey hEq.symm, h⟩, And.right⟩

theorem lookup_map {V' : Type} (f : K → V → V') (k : K) (members : List (K × V)) :
    lookup k (members.map fun m => (m.1, f m.1 m.2)) = (lookup k members).map (f k) := by
  induction members with
  | nil => rfl
  | cons m members ih =>
    rw [map_cons, lookup, lookup]
    by_cases hKey : m.1 = k
    · rw [if_pos hKey, if_pos hKey, Option.map_some, hKey]
    · rw [if_neg hKey, if_neg hKey, ih]

theorem lookup_isSome_iff : (lookup k members).isSome = true ↔ k ∈ members.map Prod.fst := by
  rw [Option.isSome_iff_ne_none, ne_eq, lookup_eq_none_iff, not_not]

theorem mem_of_lookup {v : V} (hLookup : lookup k members = some v) : (k, v) ∈ members := by
  induction members with
  | nil => cases hLookup
  | cons m members ih =>
    rw [lookup] at hLookup
    by_cases hKey : m.1 = k
    · rw [if_pos hKey, Option.some.injEq] at hLookup
      exact mem_cons.mpr (.inl (by rw [← hKey, ← hLookup]))
    · rw [if_neg hKey] at hLookup
      exact mem_cons_of_mem _ (ih hLookup)

theorem lookup_of_mem (hNodup : (members.map Prod.fst).Nodup) {m : K × V} (hMem : m ∈ members) :
    lookup m.1 members = some m.2 := by
  induction members with
  | nil => cases hMem
  | cons m' members ih =>
    rw [map_cons, nodup_cons] at hNodup
    rw [lookup]
    rcases mem_cons.mp hMem with rfl | hLater
    · rw [if_pos rfl]
    · have hOther : m'.1 ≠ m.1 := fun hKey => hNodup.1 (hKey ▸ mem_map_of_mem hLater)
      rw [if_neg hOther, ih hNodup.2 hLater]

theorem lookup_assign (k k' : K) (v : V) (members : List (K × V)) :
    lookup k' (assign k v members) = if k' = k then some v else lookup k' members := by
  induction members with
  | nil => simp [assign, lookup, eq_comm]
  | cons m members ih =>
    rw [assign]
    by_cases hKey : m.1 = k
    · rw [if_pos hKey, lookup, lookup]
      by_cases hKey' : k' = k
      · rw [if_pos (hKey.trans hKey'.symm), if_pos hKey']
      · have hOther : m.1 ≠ k' := fun h => hKey' (h.symm.trans hKey)
        rw [if_neg hOther, if_neg hKey', if_neg hOther]
    · rw [if_neg hKey, lookup, lookup, ih]
      by_cases hKey' : m.1 = k'
      · rw [if_pos hKey', if_neg fun h => hKey (hKey'.trans h), if_pos hKey']
      · rw [if_neg hKey', if_neg hKey']

theorem keys_assign (hHas : lookup k members ≠ none) (v : V) :
    (assign k v members).map Prod.fst = members.map Prod.fst := by
  induction members with
  | nil => exact absurd rfl hHas
  | cons m members ih =>
    rw [assign]
    by_cases hKey : m.1 = k
    · rw [if_pos hKey, map_cons, map_cons]
    · rw [lookup, if_neg hKey] at hHas
      rw [if_neg hKey, map_cons, map_cons, ih hHas]

theorem lookup_of_forall₂ {R : V → V → Prop} {members' : List (K × V)}
    (hKeys : members'.map Prod.fst = members.map Prod.fst)
    (hAll : List.Forall₂ R (members.map Prod.snd) (members'.map Prod.snd)) {c : V}
    (hLookup : lookup k members = some c) : ∃ c', R c c' ∧ lookup k members' = some c' := by
  induction members generalizing members' with
  | nil => cases hLookup
  | cons m members ih =>
    cases members' with
    | nil => cases hKeys
    | cons m' members' =>
      rw [map_cons, map_cons, forall₂_cons] at hAll
      rw [map_cons, map_cons, List.cons.injEq] at hKeys
      rw [lookup] at hLookup ⊢
      rw [hKeys.1]
      by_cases hKey : m.1 = k
      · rw [if_pos hKey] at hLookup ⊢
        cases hLookup
        exact ⟨m'.2, hAll.1, rfl⟩
      · rw [if_neg hKey] at hLookup ⊢
        exact ih hKeys.2 hAll.2 hLookup

end Members

section Places

variable [DecidableEq K] {step : Step K}

def child : Json K A → Step K → Option (Json K A)
  | .array elts, .index i => elts[i]?
  | .object members, .key k => lookup k members
  | _, _ => none

def get (t : Json K A) : List (Step K) → Option (Json K A)
  | [] => some t
  | step :: place => (t.child step).bind fun c => c.get place

theorem get_append (t : Json K A) (place place' : List (Step K)) :
    t.get (place ++ place') = (t.get place).bind fun c => c.get place' := by
  induction place generalizing t with
  | nil => rfl
  | cons step place ih =>
    rw [cons_append, get, get]
    cases t.child step with
    | none => rfl
    | some c => exact ih c

def put : Json K A → Step K → Json K A → Json K A
  | .array elts, .index i, c => .array (elts.set i c)
  | .object members, .key k, c => .object (assign k c members)
  | t, _, _ => t

omit [DecidableEq K] in
/-- The steps to the children. -/
def Label.steps : Label K A → List (Step K)
  | .array length => (List.range length).map .index
  | .object keys => keys.map .key
  | _ => []

/-- A child can be put there. -/
def Label.Takes : Label K A → Step K → Prop
  | .array length, .index i => i < length
  | .object _, .key _ => True
  | _, _ => False

instance (label : Label K A) (step : Step K) : Decidable (label.Takes step) := by
  cases label <;> cases step <;> unfold Label.Takes <;> infer_instance

def Label.Has : Label K A → Step K → Prop
  | .array length, .index i => i < length
  | .object keys, .key k => k ∈ keys
  | _, _ => False

theorem child_isSome_iff (t : Json K A) (step : Step K) : (t.child step).isSome ↔ t.label.Has step := by
  cases t <;> cases step <;> simp [child, label, Label.Has, lookup_isSome_iff]

theorem mem_children {t c : Json K A} (hChild : t.child step = some c) : c ∈ t.children := by
  cases t <;> cases step <;> simp only [child, children, reduceCtorEq] at hChild ⊢
  · exact mem_of_getElem? hChild
  · exact mem_map.mpr ⟨_, mem_of_lookup hChild, rfl⟩

def Label.Distinct : Label K A → Prop
  | .object keys => keys.Nodup
  | _ => True

theorem exists_step {t c : Json K A} (hDist : t.label.Distinct) (hMem : c ∈ t.children) :
    ∃ step, t.child step = some c := by
  cases t with
  | null => cases hMem
  | leaf a => cases hMem
  | array elts =>
    obtain ⟨i, hIndex, hGet⟩ := getElem_of_mem hMem
    exact ⟨.index i, List.getElem?_eq_some_iff.mpr ⟨hIndex, hGet⟩⟩
  | object members =>
    obtain ⟨m, hm, rfl⟩ := mem_map.mp hMem
    exact ⟨.key m.1, lookup_of_mem hDist hm⟩

theorem child_of_forall₂ {t r : Json K A} {R : Json K A → Json K A → Prop} (hLabel : r.label = t.label)
    (hAll : List.Forall₂ R t.children r.children) {c : Json K A} (hChild : t.child step = some c) :
    ∃ c', R c c' ∧ r.child step = some c' := by
  cases t <;> cases r <;> simp only [label, reduceCtorEq] at hLabel <;> cases step <;>
    simp only [child, reduceCtorEq] at hChild ⊢
  · rename_i elts elts' i
    obtain ⟨hIndex, rfl⟩ := List.getElem?_eq_some_iff.mp hChild
    have hIndex' : i < elts'.length := hAll.length_eq ▸ hIndex
    exact ⟨elts'[i], hAll.get hIndex hIndex', List.getElem?_eq_getElem hIndex'⟩
  · exact lookup_of_forall₂ (Label.object.inj hLabel) hAll hChild

end Places

variable {body : Json K A → Except E (Json K A)} {t r : Json K A}

def forEachChild (body : Json K A → Except E (Json K A)) : Json K A → Except E (Json K A)
  | .null => .ok .null
  | .leaf a => .ok (.leaf a)
  | .array elts => do
    let elts ← elts.mapM body
    return .array elts
  | .object members => do
    let members ← members.mapM fun m => do
      let v ← body m.2
      return (m.1, v)
    return .object members

theorem forEachChild_eq_error {e : E} (hError : t.forEachChild body = .error e) :
    ∃ c ∈ t.children, body c = .error e := by
  cases t with
  | null => cases hError
  | leaf a => cases hError
  | array elts =>
    rcases bind_eq_error.mp hError with hLoop | ⟨_, _, hPure⟩
    · exact mapM_eq_error hLoop
    · cases hPure
  | object members =>
    rcases bind_eq_error.mp hError with hLoop | ⟨_, _, hPure⟩
    · obtain ⟨m, hMem, hm⟩ := mapM_eq_error hLoop
      rcases bind_eq_error.mp hm with hBody | ⟨_, _, hPure⟩
      · exact ⟨m.2, mem_map_of_mem hMem, hBody⟩
      · cases hPure
    · cases hPure

theorem forEachChild_eq_ok (hOk : t.forEachChild body = .ok r) :
    r.label = t.label ∧ List.Forall₂ (fun c c' => body c = .ok c') t.children r.children := by
  cases t with
  | null =>
    cases hOk
    exact ⟨rfl, .nil⟩
  | leaf a =>
    cases hOk
    exact ⟨rfl, .nil⟩
  | array elts =>
    obtain ⟨elts', hLoop, hPure⟩ := bind_eq_ok.mp hOk
    cases hPure
    have hAll := mapM_eq_ok.mp hLoop
    exact ⟨congrArg Label.array hAll.length_eq.symm, hAll⟩
  | object members =>
    obtain ⟨members', hLoop, hPure⟩ := bind_eq_ok.mp hOk
    cases hPure
    have hAll : List.Forall₂ (fun m m' => m.1 = m'.1 ∧ body m.2 = .ok m'.2) members members' := by
      refine (mapM_eq_ok.mp hLoop).imp fun m m' hm => ?_
      obtain ⟨v, hBody, hPair⟩ := bind_eq_ok.mp hm
      cases hPair
      exact ⟨rfl, hBody⟩
    have hKeys : List.Forall₂ Eq (members.map Prod.fst) (members'.map Prod.fst) :=
      forall₂_map_left_iff.mpr (forall₂_map_right_iff.mpr (hAll.imp fun _ _ h => h.1))
    rw [forall₂_eq_eq_eq] at hKeys
    exact ⟨congrArg Label.object hKeys.symm,
      forall₂_map_left_iff.mpr (forall₂_map_right_iff.mpr (hAll.imp fun _ _ h => h.2))⟩

theorem forEachChild_ok_of_forall (hAll : ∀ c ∈ t.children, ∃ c', body c = .ok c') :
    ∃ r, t.forEachChild body = .ok r := by
  cases hRun : t.forEachChild body with
  | ok r => exact ⟨r, rfl⟩
  | error e =>
    obtain ⟨c, hMem, hError⟩ := forEachChild_eq_error hRun
    obtain ⟨c', hOk⟩ := hAll c hMem
    rw [hOk] at hError
    cases hError

theorem below_forEachChild {stop : E} {body' : Json K A → Except E (Json K A)}
    (hBody : ∀ c, Fuel.Below stop (body c) (body' c)) (t : Json K A) :
    Fuel.Below stop (t.forEachChild body) (t.forEachChild body') := by
  cases t with
  | null => exact .refl _
  | leaf a => exact .refl _
  | array elts => exact (Fuel.Below.mapM hBody elts).bind fun _ => .refl _
  | object members =>
    exact (Fuel.Below.mapM (fun m => (hBody m.2).bind fun _ => .refl _) members).bind fun _ => .refl _

end Json
