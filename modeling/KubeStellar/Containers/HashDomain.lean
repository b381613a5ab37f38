import KubeStellar.Api
import KubeStellar.Library.Modulo
import Mathlib.Data.List.Forall2

/-! # Hash domains

`pkg/placement/hash-domain.go`: an equality of its own for a type, with a hash. A domain is lawful when the equality is
an equivalence and equal elements have the same hash. Hash values are 64 bits wide and wrap around.
-/

namespace KubeStellar

open List

abbrev HashValue := UInt64

structure HashDomain (E : Type) where
  equal : E → E → Bool
  hash : E → HashValue

structure HashDomain.Lawful {E : Type} (domain : HashDomain E) : Prop where
  equiv : IsEquivalence domain.equal
  hash_eq : ∀ a b, domain.equal a b = true → domain.hash a = domain.hash b

variable {E F G : Type}

def pairHashDomain (first : HashDomain E) (second : HashDomain F) : HashDomain (E × F) where
  equal left right := first.equal left.1 right.1 && second.equal left.2 right.2
  hash tup := first.hash tup.1 * 257 + second.hash tup.2

def tripleHashDomain (first : HashDomain E) (second : HashDomain F) (third : HashDomain G) :
    HashDomain (E × F × G) where
  equal left right := first.equal left.1 right.1 && second.equal left.2.1 right.2.1 && third.equal left.2.2 right.2.2
  hash tup := first.hash tup.1 * 65539 + second.hash tup.2.1 * 257 + third.hash tup.2.2

variable {first : HashDomain E} {second : HashDomain F} {third : HashDomain G}

theorem pairHashDomain_equal_iff (left right : E × F) : (pairHashDomain first second).equal left right = true ↔
    first.equal left.1 right.1 = true ∧ second.equal left.2 right.2 = true := Bool.and_eq_true_iff

theorem pairHashDomain_lawful (hFirst : first.Lawful) (hSecond : second.Lawful) :
    (pairHashDomain first second).Lawful where
  equiv := by
    refine ⟨fun a => ?_, fun {a b} hEq => ?_, fun {a b c} hEq hEq' => ?_⟩
    · exact (pairHashDomain_equal_iff a a).mpr ⟨hFirst.equiv.refl _, hSecond.equiv.refl _⟩
    · rw [pairHashDomain_equal_iff] at hEq ⊢
      exact ⟨hFirst.equiv.symm hEq.1, hSecond.equiv.symm hEq.2⟩
    · rw [pairHashDomain_equal_iff] at hEq hEq' ⊢
      exact ⟨hFirst.equiv.trans hEq.1 hEq'.1, hSecond.equiv.trans hEq.2 hEq'.2⟩
  hash_eq a b hEq := by
    rw [pairHashDomain_equal_iff] at hEq
    simp only [pairHashDomain, hFirst.hash_eq _ _ hEq.1, hSecond.hash_eq _ _ hEq.2]

theorem tripleHashDomain_equal_iff (left right : E × F × G) :
    (tripleHashDomain first second third).equal left right = true ↔ first.equal left.1 right.1 = true ∧
      second.equal left.2.1 right.2.1 = true ∧ third.equal left.2.2 right.2.2 = true := by
  simp only [tripleHashDomain, Bool.and_eq_true, and_assoc]

theorem tripleHashDomain_lawful (hFirst : first.Lawful) (hSecond : second.Lawful) (hThird : third.Lawful) :
    (tripleHashDomain first second third).Lawful where
  equiv := by
    refine ⟨fun a => ?_, fun {a b} hEq => ?_, fun {a b c} hEq hEq' => ?_⟩
    · exact (tripleHashDomain_equal_iff a a).mpr ⟨hFirst.equiv.refl _, hSecond.equiv.refl _, hThird.equiv.refl _⟩
    · rw [tripleHashDomain_equal_iff] at hEq ⊢
      exact ⟨hFirst.equiv.symm hEq.1, hSecond.equiv.symm hEq.2.1, hThird.equiv.symm hEq.2.2⟩
    · rw [tripleHashDomain_equal_iff] at hEq hEq' ⊢
      exact ⟨hFirst.equiv.trans hEq.1 hEq'.1, hSecond.equiv.trans hEq.2.1 hEq'.2.1,
        hThird.equiv.trans hEq.2.2 hEq'.2.2⟩
  hash_eq a b hEq := by
    rw [tripleHashDomain_equal_iff] at hEq
    simp only [tripleHashDomain, hFirst.hash_eq _ _ hEq.1, hSecond.hash_eq _ _ hEq.2.1, hThird.hash_eq _ _ hEq.2.2]

def transformHashDomain (transform : E → F) (transformedDomain : HashDomain F) : HashDomain E where
  equal left right := transformedDomain.equal (transform left) (transform right)
  hash arg := transformedDomain.hash (transform arg)

theorem transformHashDomain_lawful (transform : E → F) {transformedDomain : HashDomain F}
    (hLawful : transformedDomain.Lawful) : (transformHashDomain transform transformedDomain).Lawful where
  equiv := ⟨fun a => hLawful.equiv.refl (transform a), fun hEq => hLawful.equiv.symm hEq,
    fun hEq hEq' => hLawful.equiv.trans hEq hEq'⟩
  hash_eq a b hEq := hLawful.hash_eq (transform a) (transform b) hEq

def sliceEqualBy (equal : E → E → Bool) (left right : List E) : Bool :=
  if left.length ≠ right.length then false else (left.zip right).all fun elts => equal elts.1 elts.2

def sliceHashDomain (eltDomain : HashDomain E) : HashDomain (List E) where
  equal := sliceEqualBy eltDomain.equal
  hash slice := slice.foldl (fun ans elt => ans * 263 + eltDomain.hash elt) 0

def sliceEqual [DecidableEq E] : List E → List E → Bool := sliceEqualBy fun a b => decide (a = b)

theorem sliceEqualBy_iff (equal : E → E → Bool) (left right : List E) :
    sliceEqualBy equal left right = true ↔ List.Forall₂ (fun a b => equal a b = true) left right := by
  rw [forall₂_iff_zip, sliceEqualBy]
  by_cases hLength : left.length = right.length
  · rw [if_neg (not_not.mpr hLength), all_eq_true, and_iff_right hLength]
    exact ⟨fun hAll {a b} hMem => hAll (a, b) hMem, fun hAll elts hMem => hAll hMem⟩
  · rw [if_pos hLength]
    exact iff_of_false Bool.false_ne_true fun hBoth => hLength hBoth.1

theorem sliceEqualBy_equivalence {equal : E → E → Bool} (hEquiv : IsEquivalence equal) :
    IsEquivalence (sliceEqualBy equal) := by
  refine ⟨fun a => ?_, fun {a b} hEq => ?_, fun {a b c} hEq hEq' => ?_⟩
  · exact (sliceEqualBy_iff equal a a).mpr (forall₂_same.mpr fun elt _ => hEquiv.refl elt)
  · rw [sliceEqualBy_iff] at hEq ⊢
    exact hEq.flip.imp fun _ _ => hEquiv.symm
  · rw [sliceEqualBy_iff] at hEq hEq' ⊢
    induction hEq generalizing c with
    | nil => exact hEq'
    | cons hHead _ ih =>
      cases hEq' with
      | cons hHead' hTail' => exact .cons (hEquiv.trans hHead hHead') (ih hTail')

theorem sliceHashDomain_lawful {eltDomain : HashDomain E} (hLawful : eltDomain.Lawful) :
    (sliceHashDomain eltDomain).Lawful where
  equiv := sliceEqualBy_equivalence hLawful.equiv
  hash_eq a b hEq := by
    have hElts := (sliceEqualBy_iff eltDomain.equal a b).mp hEq
    clear hEq
    have hFold : ∀ start : HashValue, a.foldl (fun ans elt => ans * 263 + eltDomain.hash elt) start =
        b.foldl (fun ans elt => ans * 263 + eltDomain.hash elt) start := by
      induction hElts with
      | nil => exact fun _ => rfl
      | cons hHead _ ih =>
        intro start
        rw [foldl_cons, foldl_cons, hLawful.hash_eq _ _ hHead]
        exact ih _
    exact hFold 0

variable (stringHash : String → HashValue)

def hashDomainString : HashDomain String where
  equal left right := left = right
  hash := stringHash

def sliceOfStringDomain : HashDomain (List String) := sliceHashDomain (hashDomainString stringHash)

def upsyncSetEqual (left right : UpsyncSet) : Bool :=
  if left.apiGroup ≠ right.apiGroup then false
  else
    sliceEqual left.resources right.resources && sliceEqual left.namespaces right.namespaces &&
      sliceEqual left.names right.names

def hashUpsyncSet : HashDomain UpsyncSet where
  equal := upsyncSetEqual
  hash arg :=
    stringHash arg.apiGroup + 5 * (sliceOfStringDomain stringHash).hash arg.resources +
      37 * (sliceOfStringDomain stringHash).hash arg.namespaces + 257 * (sliceOfStringDomain stringHash).hash arg.names

def hashSinglePlacement : HashDomain SinglePlacement where
  equal left right :=
    left.cluster = right.cluster && left.locationName = right.locationName &&
      left.syncTargetName = right.syncTargetName && left.syncTargetUID = right.syncTargetUID
  hash arg :=
    stringHash arg.cluster + stringHash arg.locationName + stringHash arg.syncTargetName + stringHash arg.syncTargetUID

theorem lawful_of_equal_iff {E : Type} {domain : HashDomain E} (hEqual : ∀ a b, domain.equal a b = true ↔ a = b) :
    domain.Lawful where
  equiv := by
    refine ⟨fun a => (hEqual a a).mpr rfl, fun {a b} hEq => ?_, fun {a b c} hEq hEq' => ?_⟩
    · exact (hEqual b a).mpr ((hEqual a b).mp hEq).symm
    · exact (hEqual a c).mpr (((hEqual a b).mp hEq).trans ((hEqual b c).mp hEq'))
  hash_eq a b hEq := congrArg domain.hash ((hEqual a b).mp hEq)

theorem sliceEqual_iff {E : Type} [DecidableEq E] (left right : List E) :
    sliceEqual left right = true ↔ left = right := by
  rw [sliceEqual, sliceEqualBy_iff]
  simp only [decide_eq_true_eq, forall₂_eq_eq_eq]

theorem hashDomainString_lawful : (hashDomainString stringHash).Lawful :=
  lawful_of_equal_iff fun _ _ => decide_eq_true_iff

theorem hashUpsyncSet_lawful : (hashUpsyncSet stringHash).Lawful := by
  refine lawful_of_equal_iff fun left right => ?_
  obtain ⟨apiGroup, resources, namespaces, names⟩ := left
  obtain ⟨apiGroup', resources', namespaces', names'⟩ := right
  simp only [hashUpsyncSet, upsyncSetEqual, UpsyncSet.mk.injEq]
  by_cases hGroup : apiGroup = apiGroup'
  · rw [if_neg (not_not.mpr hGroup), Bool.and_eq_true, Bool.and_eq_true, sliceEqual_iff, sliceEqual_iff, sliceEqual_iff,
      and_iff_right hGroup, and_assoc]
  · rw [if_pos hGroup]
    exact iff_of_false Bool.false_ne_true fun hBoth => hGroup hBoth.1

theorem hashSinglePlacement_lawful : (hashSinglePlacement stringHash).Lawful := by
  refine lawful_of_equal_iff fun left right => ?_
  obtain ⟨cluster, locationName, syncTargetName, syncTargetUID⟩ := left
  obtain ⟨cluster', locationName', syncTargetName', syncTargetUID'⟩ := right
  simp only [hashSinglePlacement, Bool.and_eq_true, decide_eq_true_eq, SinglePlacement.mk.injEq, and_assoc]

end KubeStellar
