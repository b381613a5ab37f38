import Mathlib.Data.List.Forall2

/-! # Fuelled computations

A computation that may not end is a function of the number of steps it is given, and stops with a particular error
when they do not suffice. More fuel only replaces that error.
-/

namespace Fuel

open List

variable {E : Type} {α β : Type}

theorem ok_bind (a : α) (f : α → Except E β) : (Except.ok a >>= f) = f a := rfl

variable {x : Except E α} {b : β} {f : α → Except E β}

theorem bind_eq_ok : (x >>= f) = .ok b ↔ ∃ a, x = .ok a ∧ f a = .ok b := by
  cases x with
  | error e =>
    constructor
    · intro h
      cases h
    · rintro ⟨_, h, _⟩
      cases h
  | ok a =>
    constructor
    · exact fun h => ⟨a, rfl, h⟩
    · rintro ⟨_, hOk, h⟩
      cases hOk
      exact h

variable {e : E}

theorem bind_eq_error : (x >>= f) = .error e ↔ x = .error e ∨ ∃ a, x = .ok a ∧ f a = .error e := by
  cases x with
  | error e' =>
    constructor
    · intro h
      cases h
      exact .inl rfl
    · rintro (h | ⟨_, h, _⟩)
      · cases h
        rfl
      · cases h
  | ok a =>
    constructor
    · exact fun h => .inr ⟨a, rfl, h⟩
    · rintro (h | ⟨_, hOk, h⟩)
      · cases h
      · cases hOk
        exact h

variable {xs : List α}

theorem bind_ne_error (hFirst : x ≠ .error e) (hThen : ∀ a, x = .ok a → f a ≠ .error e) : (x >>= f) ≠ .error e := by
  intro h
  rcases bind_eq_error.mp h with h | ⟨a, hOk, h⟩
  · exact hFirst h
  · exact hThen a hOk h

/-- The computation does not stop with this error, and what it returns satisfies the postcondition. -/
def Post (stop : E) (Q : α → Prop) (x : Except E α) : Prop := x ≠ .error stop ∧ ∀ a, x = .ok a → Q a

variable {stop : E} {P Q : α → Prop} {R : β → Prop}

theorem Post.ok {a : α} (hQ : Q a) : Post stop Q (.ok a) := by
  refine ⟨fun h => (by cases h), fun a' hOk => ?_⟩
  cases hOk
  exact hQ

theorem Post.error (hNe : e ≠ stop) : Post stop Q (.error e) :=
  ⟨fun h => hNe (Except.error.inj h), fun _ h => (by cases h)⟩

theorem Post.bind (hFirst : Post stop P x) (hThen : ∀ a, P a → Post stop R (f a)) : Post stop R (x >>= f) := by
  refine ⟨bind_ne_error hFirst.1 fun a hOk => (hThen a (hFirst.2 a hOk)).1, fun b hBind => ?_⟩
  obtain ⟨a, hOk, hRest⟩ := bind_eq_ok.mp hBind
  exact (hThen a (hFirst.2 a hOk)).2 b hRest

theorem Post.foldlM {J : β → Prop} {f : β → α → Except E β} (hStep : ∀ a ∈ xs, ∀ b, J b → Post stop J (f b a))
    (hb : J b) :
    Post stop J (xs.foldlM f b) := by
  induction xs generalizing b with
  | nil => exact .ok hb
  | cons a xs ih =>
    obtain ⟨hHead, hTail⟩ := forall_mem_cons.mp hStep
    exact (hHead b hb).bind fun b' hb' => ih hTail hb'

theorem Post.imp (hPost : Post stop P x) (hImp : ∀ a, P a → Q a) : Post stop Q x :=
  ⟨hPost.1, fun a hOk => hImp a (hPost.2 a hOk)⟩

theorem mapM_eq_ok {ys : List β} : xs.mapM f = .ok ys ↔ List.Forall₂ (fun x y => f x = .ok y) xs ys := by
  induction xs generalizing ys with
  | nil =>
    rw [mapM_nil, forall₂_nil_left_iff]
    exact ⟨fun h => by cases h; rfl, fun h => by cases h; rfl⟩
  | cons x xs ih =>
    simp only [mapM_cons, bind_eq_ok, ih, forall₂_cons_left_iff]
    constructor
    · rintro ⟨y, hy, ys', hys, h⟩
      cases h
      exact ⟨y, ys', hy, hys, rfl⟩
    · rintro ⟨y, ys', hy, hys, rfl⟩
      exact ⟨y, hy, ys', hys, rfl⟩

theorem mapM_eq_error (hError : xs.mapM f = .error e) : ∃ x ∈ xs, f x = .error e := by
  induction xs with
  | nil => cases hError
  | cons x xs ih =>
    rw [mapM_cons, bind_eq_error] at hError
    rcases hError with hHere | ⟨_, _, hRest⟩
    · exact ⟨x, mem_cons_self, hHere⟩
    · rcases bind_eq_error.mp hRest with hLater | ⟨_, _, hPure⟩
      · obtain ⟨x', hMem, hx'⟩ := ih hLater
        exact ⟨x', mem_cons_of_mem _ hMem, hx'⟩
      · cases hPure

variable {stop : E} {y : Except E α} {run : Nat → Except E α} {g : α → Except E β}

def Below (stop : E) (x y : Except E α) : Prop := x = .error stop ∨ x = y

theorem Below.refl (x : Except E α) : Below stop x x := .inr rfl

theorem Below.trans {z : Except E α} (hxy : Below stop x y) (hyz : Below stop y z) : Below stop x z := by
  rcases hxy with h | rfl
  · exact .inl h
  · exact hyz

theorem Below.bind (hxy : Below stop x y) (hfg : ∀ a, Below stop (f a) (g a)) : Below stop (x >>= f) (y >>= g) := by
  rcases hxy with rfl | rfl
  · exact .inl rfl
  · cases x with
    | error e => exact .refl _
    | ok a => exact hfg a

theorem Below.mapM (hfg : ∀ a, Below stop (f a) (g a)) (xs : List α) : Below stop (xs.mapM f) (xs.mapM g) := by
  induction xs with
  | nil => exact .refl _
  | cons x xs ih =>
    rw [mapM_cons, mapM_cons]
    exact (hfg x).bind fun _ => ih.bind fun _ => .refl _

theorem Below.foldlM {f g : β → α → Except E β} (hfg : ∀ b a, Below stop (f b a) (g b a)) (xs : List α) (b : β) :
    Below stop (xs.foldlM f b) (xs.foldlM g b) := by
  induction xs generalizing b with
  | nil => exact .refl _
  | cons x xs ih =>
    exact (hfg b x).bind ih

theorem below_of_le (hStep : ∀ fuel, Below stop (run fuel) (run (fuel + 1))) {fuel fuel' : Nat} (hLe : fuel ≤ fuel') :
    Below stop (run fuel) (run fuel') := by
  induction hLe with
  | refl => exact .refl _
  | step _ ih => exact ih.trans (hStep _)

theorem Below.ok_eq (hBelow : Below stop x y) {a : α} (hOk : x = .ok a) : y = .ok a := by
  rcases hBelow with h | rfl
  · rw [h] at hOk
    cases hOk
  · exact hOk

theorem exists_common {P : Nat → α → Prop} (hMono : ∀ {fuel fuel' a}, fuel ≤ fuel' → P fuel a → P fuel' a)
    (hAll : ∀ x ∈ xs, ∃ fuel, P fuel x) : ∃ fuel, ∀ x ∈ xs, P fuel x := by
  induction xs with
  | nil => exact ⟨0, fun _ hMem => absurd hMem not_mem_nil⟩
  | cons x xs ih =>
    obtain ⟨hHead, hTail⟩ := forall_mem_cons.mp hAll
    obtain ⟨fuel, hx⟩ := hHead
    obtain ⟨fuel', hxs⟩ := ih hTail
    refine ⟨max fuel fuel', forall_mem_cons.mpr ⟨hMono (Nat.le_max_left _ _) hx, fun y hMem => ?_⟩⟩
    exact hMono (Nat.le_max_right _ _) (hxs y hMem)

def Ends (stop : E) (run : Nat → Except E α) : Prop := ∃ fuel, run fuel ≠ .error stop

end Fuel
