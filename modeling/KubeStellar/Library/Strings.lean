import Mathlib.Algebra.GroupWithZero.Nat
import Mathlib.Algebra.Group.Int.Defs

/-! # Go strings

A Go string is any sequence of bytes. Read rune by rune it is a sequence of encoded characters and of bytes that are
part of no encoded character; each of the latter is read as the replacement character. `strconv.FormatInt` and
`strconv.ParseInt` are at base 10 and 64 bits; `strings.Split` is at a separator that is not empty, whose occurrences
are taken from left to right and do not overlap.
-/

namespace KubeStellar

inductive Rune where
  | char (c : Char)
  | invalid (byte : UInt8)
deriving DecidableEq

/-- The code point that `ReadRune` returns. -/
def Rune.chr : Rune → Char
  | .char c => c
  | .invalid _ => Char.ofNat 0xFFFD

def Rune.size : Rune → Nat
  | .char c => c.utf8Size
  | .invalid _ => 1

theorem Rune.eq_of_chr {r : Rune} {c : Char} (hChr : r.chr = c) (hValid : c ≠ Char.ofNat 0xFFFD) : r = .char c := by
  cases r with
  | char c' => exact congrArg Rune.char hChr
  | invalid byte => exact absurd hChr.symm hValid

abbrev GoString := List Rune

namespace GoString

def ofString (s : String) : GoString := s.toList.map .char

def size (s : GoString) : Nat := (s.map Rune.size).sum

theorem mem_ofString {s : String} {r : Rune} (hMem : r ∈ ofString s) : r = .char r.chr := by
  obtain ⟨c, _, rfl⟩ := List.mem_map.mp hMem
  rfl

end GoString

end KubeStellar

namespace KubeStellar.Strconv

def formatInt (n : Int) : String := toString n

def parseDigits (digits : List Char) : Option Nat :=
  if digits ≠ [] ∧ digits.all Char.isDigit then some (Nat.ofDigitChars 10 digits 0) else none

def parseSigned : List Char → Option Int
  | '-' :: digits => (parseDigits digits).map fun n => -Int.ofNat n
  | '+' :: digits => (parseDigits digits).map Int.ofNat
  | digits => (parseDigits digits).map Int.ofNat

def InInt64 (n : Int) : Prop := -2 ^ 63 ≤ n ∧ n < 2 ^ 63

instance (n : Int) : Decidable (InInt64 n) := inferInstanceAs (Decidable (_ ∧ _))

def parseInt (s : String) : Option Int := (parseSigned s.toList).filter fun n => InInt64 n

theorem inInt64_of_parseInt {s : String} {n : Int} (hParse : parseInt s = some n) : InInt64 n := by
  have hKept := (Option.filter_eq_some_iff.mp hParse).2
  exact of_decide_eq_true hKept

theorem parseDigits_toDigits (n : Nat) : parseDigits (Nat.toDigits 10 n) = some n := by
  have hDigits : (Nat.toDigits 10 n).all Char.isDigit = true :=
    List.all_eq_true.mpr fun _ hMem => Nat.isDigit_of_mem_toDigits (by decide) (by decide) hMem
  rw [parseDigits, if_pos ⟨Nat.toDigits_ne_nil, hDigits⟩, Nat.ofDigitChars_ten_toDigits]

theorem parseSigned_digits {digits : List Char} {n : Nat} (hDigits : parseDigits digits = some n) :
    parseSigned digits = some (n : Int) := by
  unfold parseSigned
  split
  · exact absurd hDigits (by simp [parseDigits, show Char.isDigit '-' = false from rfl])
  · exact absurd hDigits (by simp [parseDigits, show Char.isDigit '+' = false from rfl])
  · rw [hDigits]
    rfl

theorem parseSigned_formatInt (n : Int) : parseSigned (formatInt n).toList = some n := by
  cases n with
  | ofNat m =>
    have hText : (formatInt (Int.ofNat m)).toList = Nat.toDigits 10 m := by
      rw [show formatInt (Int.ofNat m) = toString m from rfl, Nat.toString_eq_ofList_toDigits, String.toList_ofList]
    rw [hText, parseSigned_digits (parseDigits_toDigits m)]
    rfl
  | negSucc m =>
    have hText : (formatInt (Int.negSucc m)).toList = '-' :: Nat.toDigits 10 (m + 1) := by
      rw [show formatInt (Int.negSucc m) = "-" ++ toString (m + 1) from rfl, String.toList_append,
        Nat.toString_eq_ofList_toDigits]
      exact congrArg ('-' :: ·) String.toList_ofList
    rw [hText, parseSigned, parseDigits_toDigits]
    rfl

theorem parseInt_formatInt {n : Int} (hRange : InInt64 n) : parseInt (formatInt n) = some n := by
  rw [parseInt, parseSigned_formatInt, Option.filter_some, if_pos (decide_eq_true hRange)]

theorem formatInt_inj {n m : Int} : formatInt n = formatInt m ↔ n = m := by
  refine ⟨fun hText => ?_, congrArg formatInt⟩
  have hParsed := congrArg (fun s => parseSigned s.toList) hText
  simpa only [parseSigned_formatInt, Option.some.injEq] using hParsed

end KubeStellar.Strconv

namespace KubeStellar.Strings

open List

/-- The parts from here on: `skip` characters still belong to a separator, `part` is the current part, reversed. -/
def splitFrom (sep : List Char) : Nat → List Char → List Char → List String
  | _, part, [] => [String.ofList part.reverse]
  | skip + 1, part, _ :: rest => splitFrom sep skip part rest
  | 0, part, c :: rest =>
    if sep.isPrefixOf (c :: rest) then String.ofList part.reverse :: splitFrom sep (sep.length - 1) [] rest
    else splitFrom sep 0 (c :: part) rest

def split (s sep : String) : List String := splitFrom sep.toList 0 [] s.toList

example : split "a-mb-b" "-mb-" = ["a", "b"] := by decide

example : split "a-mb-mb-b" "-mb-" = ["a", "mb-b"] := by decide

def join (sep : String) : List String → String
  | [] => ""
  | part :: parts => parts.foldl (fun joined part => joined ++ sep ++ part) part

theorem splitFrom_ne_nil (sep : List Char) (skip : Nat) (part l : List Char) : splitFrom sep skip part l ≠ [] := by
  induction l generalizing skip part with
  | nil => cases skip <;> simp [splitFrom]
  | cons x l ih =>
    cases skip with
    | zero =>
      rw [splitFrom]
      split
      · exact cons_ne_nil _ _
      · exact ih 0 (x :: part)
    | succ skip => exact ih skip part

theorem splitFrom_skip (sep part skipped l : List Char) :
    splitFrom sep skipped.length part (skipped ++ l) = splitFrom sep 0 part l := by
  induction skipped with
  | nil => rfl
  | cons x skipped ih => exact ih

theorem splitFrom_of_isPrefixOf (sep part : List Char) {l : List Char} (hSep : sep ≠ []) :
    splitFrom sep 0 part (sep ++ l) = String.ofList part.reverse :: splitFrom sep 0 [] l := by
  obtain ⟨x, rest, rfl⟩ := exists_cons_of_ne_nil hSep
  have hPrefix : (x :: rest).isPrefixOf (x :: (rest ++ l)) = true := isPrefixOf_iff_prefix.mpr ⟨l, rfl⟩
  rw [cons_append, splitFrom, if_pos hPrefix, length_cons, Nat.add_sub_cancel, splitFrom_skip]

theorem splitFrom_of_not_infix {sep l : List Char} (hNone : ¬ sep <:+: l) (part : List Char) :
    splitFrom sep 0 part l = [String.ofList (part.reverse ++ l)] := by
  induction l generalizing part with
  | nil => simp [splitFrom]
  | cons x l ih =>
    rw [infix_cons_iff, not_or] at hNone
    rw [splitFrom, if_neg fun h => hNone.1 <| isPrefixOf_iff_prefix.mp h, ih hNone.2]
    simp

theorem two_le_length_splitFrom {sep l : List Char} (hSep : sep ≠ []) (hIn : sep <:+: l) (part : List Char) :
    2 ≤ (splitFrom sep 0 part l).length := by
  induction l generalizing part with
  | nil => exact absurd (infix_nil.mp hIn) hSep
  | cons x l ih =>
    rw [splitFrom]
    split
    · exact Nat.succ_le_succ (length_pos_iff.mpr (splitFrom_ne_nil _ _ _ _))
    · rename_i hHere
      refine ih ((infix_cons_iff.mp hIn).resolve_left fun hPrefix => ?_) (x :: part)
      exact hHere <| isPrefixOf_iff_prefix.mpr hPrefix

variable (c : Char) (part : List Char) (l : List Char)

theorem splitFrom_cons (x : Char) (l : List Char) : splitFrom [c] 0 part (x :: l) =
      if x = c then String.ofList part.reverse :: splitFrom [c] 0 [] l else splitFrom [c] 0 (x :: part) l := by
  have hSep : List.isPrefixOf [c] (x :: l) = true ↔ x = c := by
    refine isPrefixOf_iff_prefix.trans (cons_prefix_cons.trans ?_)
    exact ⟨fun h => h.1.symm, fun h => ⟨h.symm, nil_prefix⟩⟩
  simp only [splitFrom, hSep, length_singleton, Nat.sub_self]

theorem splitFrom_append (a b : List Char) :
    splitFrom [c] 0 part (a ++ c :: b) = splitFrom [c] 0 part a ++ splitFrom [c] 0 [] b := by
  induction a generalizing part with
  | nil => simp [splitFrom_cons, splitFrom]
  | cons x a ih =>
    rw [cons_append, splitFrom_cons, splitFrom_cons, ih, ih]
    split <;> rfl

theorem exists_append_of_splitFrom {q r : List String} (hSplit : splitFrom [c] 0 part l = q ++ r)
    (hq : q ≠ []) (hr : r ≠ []) :
    ∃ a b, l = a ++ c :: b ∧ splitFrom [c] 0 part a = q ∧ splitFrom [c] 0 [] b = r := by
  induction l generalizing part q with
  | nil =>
    obtain ⟨first, q, rfl⟩ := exists_cons_of_ne_nil hq
    simp only [splitFrom, cons_append, List.cons.injEq] at hSplit
    exact absurd (append_eq_nil_iff.mp hSplit.2.symm).2 hr
  | cons x l ih =>
    rw [splitFrom_cons] at hSplit
    split at hSplit
    · rename_i hSep
      subst hSep
      obtain ⟨first, q, rfl⟩ := exists_cons_of_ne_nil hq
      obtain ⟨rfl, hRest⟩ := List.cons.inj hSplit
      by_cases hMore : q = []
      · exact ⟨[], l, rfl, by simp [splitFrom, hMore], by simpa [hMore] using hRest⟩
      · obtain ⟨a, b, rfl, hA, hB⟩ := ih [] hRest hMore
        exact ⟨x :: a, b, rfl, by rw [splitFrom_cons, if_pos rfl, hA], hB⟩
    · rename_i hOther
      obtain ⟨a, b, rfl, hA, hB⟩ := ih (x :: part) hSplit hq
      exact ⟨x :: a, b, rfl, by rw [splitFrom_cons, if_neg hOther, hA], hB⟩

theorem foldl_join_append (sep : String) (parts : List String) (a b : String) :
    parts.foldl (fun joined part => joined ++ sep ++ part) (a ++ b) =
      a ++ parts.foldl (fun joined part => joined ++ sep ++ part) b := by
  induction parts generalizing b with
  | nil => rfl
  | cons part parts ih =>
    rw [foldl_cons, foldl_cons, ← ih, String.append_assoc, String.append_assoc, String.append_assoc]

theorem join_splitFrom : join (String.ofList [c]) (splitFrom [c] 0 part l) = String.ofList (part.reverse ++ l) := by
  induction l generalizing part with
  | nil => simp [splitFrom, join]
  | cons x l ih =>
    rw [splitFrom_cons]
    split
    · rename_i hSep
      obtain ⟨first, rest, hCons⟩ := exists_cons_of_ne_nil (splitFrom_ne_nil [c] 0 [] l)
      have hRest := ih []
      rw [hCons, join] at hRest
      rw [hCons, join, foldl_cons, foldl_join_append, hRest, hSep, ← String.ofList_append, ← String.ofList_append]
      simp
    · rw [ih]
      simp

theorem join_split (s : String) : join (String.ofList [c]) (split s (String.ofList [c])) = s := by
  rw [split, String.toList_ofList, join_splitFrom]
  exact String.ofList_toList

theorem split_ofList : split (String.ofList l) (String.ofList [c]) = splitFrom [c] 0 [] l := by
  simp [split]

theorem split_inj {s t : String} (hSplit : split s (String.ofList [c]) = split t (String.ofList [c])) : s = t := by
  rw [← join_split c s, hSplit, join_split]

theorem split_append (s t : String) : split (s ++ String.ofList [c] ++ t) (String.ofList [c]) =
    split s (String.ofList [c]) ++ split t (String.ofList [c]) := by
  simp [split, splitFrom_append]

def properPrefixes (c : Char) : List Char → List (List Char)
  | [] => []
  | x :: l => (if x = c then [[]] else []) ++ (properPrefixes c l).map (x :: ·)

theorem mem_properPrefixes_iff (a l : List Char) : a ∈ properPrefixes c l ↔ ∃ b, l = a ++ c :: b := by
  induction l generalizing a with
  | nil => simp [properPrefixes]
  | cons x l ih =>
    cases a with
    | nil => by_cases hSep : x = c <;> simp [properPrefixes, hSep]
    | cons y a =>
      have hHere : y :: a ∉ if x = c then [[]] else ([] : List (List Char)) := by split <;> simp
      rw [properPrefixes, mem_append, or_iff_right hHere, mem_map]
      constructor
      · rintro ⟨a', hMem, hCons⟩
        obtain ⟨rfl, rfl⟩ := List.cons.inj hCons
        obtain ⟨b, rfl⟩ := (ih a').mp hMem
        exact ⟨b, rfl⟩
      · rintro ⟨b, hCons⟩
        obtain ⟨rfl, rfl⟩ := List.cons.inj hCons
        exact ⟨a, (ih a).mpr ⟨b, rfl⟩, rfl⟩

end KubeStellar.Strings
