import Mathlib.Data.Quot

/-! # Types modulo a computed equality

Code that compares by a function of its own works on the classes of that function, when it is an equivalence.
-/

universe u

variable {E : Type u} (isEqual : E → E → Bool)

/-- The function says which elements count as the same. -/
abbrev IsEquivalence : Prop := Equivalence fun a b => isEqual a b = true

def boolSetoid (hEquiv : IsEquivalence isEqual) : Setoid E := ⟨fun a b => isEqual a b = true, hEquiv⟩

abbrev Modulo (hEquiv : IsEquivalence isEqual) : Type u := Quotient (boolSetoid isEqual hEquiv)

namespace Modulo

variable {isEqual : E → E → Bool} (hEquiv : IsEquivalence isEqual)

def mk (e : E) : Modulo isEqual hEquiv := Quotient.mk _ e

theorem mk_eq_iff (a b : E) : mk hEquiv a = mk hEquiv b ↔ isEqual a b = true := Quotient.eq

instance : DecidableEq (Modulo isEqual hEquiv) :=
  fun a b => Quotient.recOnSubsingleton₂ a b fun a b =>
    decidable_of_iff (isEqual a b = true) (mk_eq_iff hEquiv a b).symm

end Modulo
