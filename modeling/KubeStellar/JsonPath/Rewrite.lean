import KubeStellar.JsonPath.Returns

/-! # Evaluation with an opaque value

What an evaluation does to a document if the value that it puts is a leaf without content. Where the path comes back to
that leaf, it must pass the value itself by. If it finds a place there, then the value becomes a part of itself, and a
recursive selector that comes to it does not end.
-/

namespace KubeStellar.JsonPath

open List

open Json (Step Label)

/-- A tree in which a leaf without content stands for the value that was put there. -/
abbrev Marked (K A : Type) := Json K (Option A)

variable {K A : Type}

def mark : Marked K A := .leaf none

/-- Not nested any deeper. -/
def Shallow : Nat → Json K A → Prop
  | 0, t => t = .null ∨ ∃ a, t = .leaf a
  | depth + 1, t => ∀ c ∈ t.children, Shallow depth c

theorem Shallow.child_of_mem {depth : Nat} {t c : Json K A} (hShallow : Shallow depth t) (hMem : c ∈ t.children) :
    ∃ n < depth, Shallow n c := by
  cases depth with
  | zero => rcases hShallow with rfl | ⟨a, rfl⟩ <;> cases hMem
  | succ n => exact ⟨n, Nat.lt_succ_self n, hShallow c hMem⟩

theorem Shallow.mono {n m : Nat} {t : Json K A} (hShallow : Shallow n t) (hLe : n ≤ m) : Shallow m t := by
  induction n generalizing m t with
  | zero =>
    cases m with
    | zero => exact hShallow
    | succ m =>
      intro c hMem
      rcases hShallow with rfl | ⟨a, rfl⟩ <;> cases hMem
  | succ n ih =>
    obtain ⟨m, rfl⟩ := Nat.exists_eq_add_of_le' hLe
    exact fun c hMem => ih (hShallow c hMem) (Nat.le_add_left n m)

def marked : Nat → Json K A → Marked K A
  | _, .null => .null
  | _, .leaf a => .leaf (some a)
  | 0, _ => .null
  | depth + 1, .array elts => .array (elts.map (marked depth))
  | depth + 1, .object members => .object (members.map fun m => (m.1, marked depth m.2))

variable [DecidableEq K]

def visitTree (body : Marked K A → Option (Marked K A)) (t : Marked K A) (step : Step K) : Option (Marked K A) :=
  (body ((t.child step).getD .null)).map (t.put step)

/-- The visits of a selector. At the value that was put, `spared` says whether it passes it by. -/
def through (spared : Bool) (body : Marked K A → Option (Marked K A)) (definite : Bool) (sel : Selector K) :
    Marked K A → Option (Marked K A)
  | .leaf none => if spared then some mark else none
  | t => (visits definite sel t.label).bind fun steps => steps.foldlM (visitTree body) t

def descend (first : Marked K A → Option (Marked K A)) (spared : Bool) : Nat → Marked K A → Option (Marked K A)
  | 0, _ => none
  | depth + 1, t => (first t).bind (through spared (descend first spared depth) false .everyChild)

/-- A document after an evaluation that ends. What is found is replaced by `found`, or else nothing is to be found. The
document is not nested deeper than `depth`. -/
def rewriteWith (found : Option (Marked K A)) (spared : List (Selector K) → Bool) (depth : Nat) :
    List (Selector K) → Bool → Marked K A → Option (Marked K A)
  | [], _, _ => found
  | .recurse :: path, _, t =>
    descend (rewriteWith found spared depth path false) (spared (.everyChild :: .recurse :: path)) (depth + 1) t
  | .list subs :: path, definite, t =>
    subs.foldlM (fun t sub => through (spared (sub :: path))
      (rewriteWith found spared depth path (definiteAfter sub definite)) definite sub t) t
  | sel :: path, definite, t =>
    through (spared (sel :: path)) (rewriteWith found spared depth path (definiteAfter sel definite)) definite sel t

/-- The path finds no place in the value, and all its loops end. -/
def untouched (value : Marked K A) (depth : Nat) (path : List (Selector K)) : Bool :=
  (rewriteWith none (fun _ => false) depth path false value).isSome

/-- The document after the evaluation, if it ends: the value is not looked into, except that the path must pass it
by. -/
def rewrite (value : Marked K A) (depth : Nat) : List (Selector K) → Bool → Marked K A → Option (Marked K A) :=
  rewriteWith (some mark) (untouched value depth) depth

namespace InPlace

inductive Source where
  | data
  | value
deriving DecidableEq

structure Ref (K : Type) where
  source : Source
  place : List (Step K)
deriving DecidableEq

variable {B : Type}

omit [DecidableEq K] in
def Ref.below (ref : Ref K) (place : List (Step K)) : Ref K := ⟨ref.source, ref.place ++ place⟩

variable (leaf : B → Value (Ref K) A)

omit [DecidableEq K] in
def decoded (ref : Ref K) : Json K B → Value (Ref K) A
  | .null => .null
  | .leaf b => leaf b
  | .array _ => .ref ref
  | .object _ => .ref ref

omit [DecidableEq K] in
def cellOf (ref : Ref K) : Json K B → Cell K (Ref K) A
  | .array elts => .array (elts.mapIdx fun i c => decoded leaf (ref.below [.index i]) c)
  | .object members => .object (members.map fun m => (m.1, decoded leaf (ref.below [.key m.1]) m.2))
  | _ => .array []

/-- After decoding, each map and each slice is a cell of its own. -/
def heapOf (trees : Source → Json K A) : Heap K (Ref K) A := fun ref =>
  match (trees ref.source).get ref.place with
  | some t => cellOf .leaf ref t
  | none => .array []

omit [DecidableEq K] in
def IsNode : Json K B → Prop
  | .array _ | .object _ => True
  | .null | .leaf _ => False

/-- The cells below the reference hold the tree. -/
def Shows (h : Heap K (Ref K) A) (ref : Ref K) (t : Json K B) : Prop :=
  ∀ place c, t.get place = some c → IsNode c → h (ref.below place) = cellOf leaf (ref.below place) c

variable {leaf : B → Value (Ref K) A} {h h' : Heap K (Ref K) A} {ref : Ref K} {t c : Json K B} {step : Step K}

omit [DecidableEq K] in
theorem Ref.below_nil (ref : Ref K) : ref.below [] = ref := by
  rw [Ref.below, append_nil]

omit [DecidableEq K] in
theorem Ref.below_below (ref : Ref K) (place place' : List (Step K)) :
    (ref.below place).below place' = ref.below (place ++ place') := by
  rw [Ref.below, Ref.below, Ref.below, append_assoc]

theorem child_cellOf (leaf : B → Value (Ref K) A) (ref : Ref K) (t : Json K B) (step : Step K) :
    (cellOf leaf ref t).child step = (t.child step).map (decoded leaf (ref.below [step])) := by
  cases t <;> cases step <;> simp only [cellOf, Cell.child, Json.child, Option.map_none, getElem?_nil]
  · rw [getElem?_mapIdx]
  · exact Json.lookup_map (fun k => decoded leaf (ref.below [.key k])) _ _

theorem Shows.get (hShows : Shows leaf h ref t) {place : List (Step K)} (hGet : t.get place = some c) :
    Shows leaf h (ref.below place) c := by
  intro place' c' hGet' hNode
  rw [Ref.below_below]
  exact hShows (place ++ place') c' (by rw [Json.get_append, hGet]; exact hGet') hNode

theorem Shows.child (hShows : Shows leaf h ref t) (hChild : t.child step = some c) :
    Shows leaf h (ref.below [step]) c :=
  hShows.get (by rw [Json.get, hChild]; rfl)

theorem Shows.cell (hShows : Shows leaf h ref t) (hNode : IsNode t) : h ref = cellOf leaf ref t := by
  have hCell := hShows [] t rfl hNode
  rwa [Ref.below_nil] at hCell

omit [DecidableEq K] in
/-- The leaf without content stands for the value. -/
def standIn (v : Value (Ref K) A) : Option A → Value (Ref K) A
  | none => v
  | some a => .leaf a

abbrev shown (v : Value (Ref K) A) (ref : Ref K) (t : Marked K A) : Value (Ref K) A := decoded (standIn v) ref t

end InPlace

end KubeStellar.JsonPath
