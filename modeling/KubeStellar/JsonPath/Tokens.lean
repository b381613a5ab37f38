import KubeStellar.JsonPath.Parser
import Mathlib.Data.List.TakeWhile

/-! # Tokens

The texts of the tokens, and that the lexer reads them.
-/

namespace KubeStellar.JsonPath

open List

variable (tables : Tables)

structure Integer (text : GoString) (n : Numeral) : Prop where
  nonempty : text ≠ []
  digits : ∀ r ∈ text, isDecimal r.chr = true
  value : text.foldl (fun value r => 10 * value + (r.chr.toNat - '0'.toNat)) 0 = n.val

structure Identifier (text : GoString) : Prop where
  parts : ∃ first rest, text = first :: rest ∧ Lexer.isIdentifierStart tables first.chr = true ∧
    ∀ r ∈ rest, Lexer.isIdentifierPart tables r.chr = true

inductive Quoted (close : Char) : GoString → Prop where
  | closed : Quoted close [.char close]
  | plain {r : Rune} {text : GoString} (hClose : r ≠ .char close) (hEscape : r ≠ .char backslash)
      (hRest : Quoted close text) : Quoted close (r :: text)
  | escaped {r : Rune} {text : GoString} (hRest : Quoted close text) : Quoted close (.char backslash :: r :: text)

structure StringLiteral (text : GoString) (val : GoString) : Prop where
  quoted : ∃ quote rest, (quote = doubleQuote ∨ quote = singleQuote) ∧ text = .char quote :: rest ∧ Quoted quote rest
  value : tables.literal text = some val

def specialText : Special → GoString
  | .openBracket => .ofString "["
  | .closeBracket => .ofString "]"
  | .star => .ofString "*"
  | .comma => .ofString ","
  | .colon => .ofString ":"
  | .dot => .ofString "."
  | .dotDot => .ofString ".."

def TokenText : Token → GoString → Prop
  | .eof, _ => False
  | .special val, text => text = specialText val
  | .string val, text => StringLiteral tables text val
  | .identifier val, text => text = val ∧ Identifier tables val
  | .number val, text => Integer text val

def Boundary : Token → Rune → Prop
  | .special .dot, r => r.chr ≠ '.'
  | .identifier _, r => Lexer.isIdentifierPart tables r.chr = false
  | .number _, r => isDecimal r.chr = false ∧ r.chr ≠ 'o' ∧ r.chr ≠ 'x'
  | _, _ => True

variable {text rest : GoString} {n : Numeral}

theorem decimal_eq_some {value result : Nat} : decimal value text = some result ↔ (∀ r ∈ text, isDecimal r.chr = true) ∧
      text.foldl (fun value r => 10 * value + (r.chr.toNat - '0'.toNat)) value = result := by
  induction text generalizing value with
  | nil => simp [decimal]
  | cons r text ih =>
    rw [decimal, forall_mem_cons, foldl_cons]
    split
    · rename_i hDigit
      rw [ih]
      simp [hDigit]
    · rename_i hDigit
      simp [hDigit]

theorem parseInt_eq_some (hText : text ≠ []) : parseInt text = some n ↔ Integer text n := by
  rw [parseInt]
  constructor
  · intro hParse
    cases hDecimal : decimal 0 text with
    | none =>
      rw [hDecimal] at hParse
      cases hParse
    | some value =>
      rw [hDecimal] at hParse
      dsimp only at hParse
      split at hParse
      · cases hParse
        obtain ⟨hDigits, hValue⟩ := decimal_eq_some.mp hDecimal
        exact ⟨hText, hDigits, hValue⟩
      · cases hParse
  · intro hInteger
    rw [decimal_eq_some.mpr ⟨hInteger.digits, hInteger.value⟩]
    exact dif_pos n.isLt

theorem numberTail_isPrefix_rest (first : Rune) (rest : GoString) : numberTail first rest <+: rest := by
  rw [numberTail.eq_def]
  split
  · split
    · exact prefix_rfl
    · split
      · exact (prefix_cons_inj _).mpr <| takeWhile_prefix _
      · split
        · exact (prefix_cons_inj _).mpr <| takeWhile_prefix _
        · exact takeWhile_prefix _
  · exact takeWhile_prefix _

theorem takeWhile_of_boundary {p : Rune → Bool} (hText : ∀ r ∈ text, p r = true)
    (hRest : ∀ r, rest.head? = some r → p r = false) : (text ++ rest).takeWhile p = text := by
  rw [takeWhile_append_of_pos hText]
  cases rest with
  | nil => rw [takeWhile_nil, append_nil]
  | cons r rest => rw [takeWhile_cons_of_neg (by simp [hRest r rfl]), append_nil]

theorem numberTail_append {first : Rune} (hText : ∀ r ∈ text, isDecimal r.chr = true)
    (hRest : ∀ r, rest.head? = some r → isDecimal r.chr = false ∧ r.chr ≠ 'o' ∧ r.chr ≠ 'x') :
    numberTail first (text ++ rest) = text := by
  have hDecimal : (text ++ rest).takeWhile (fun r => isDecimal r.chr) = text :=
    takeWhile_of_boundary hText fun r hHead => (hRest r hHead).1
  have hBase : ∀ r, (text ++ rest).head? = some r → r.chr ≠ 'o' ∧ r.chr ≠ 'x' := by
    intro r hHead
    cases text with
    | nil => exact (hRest r hHead).2
    | cons d text =>
      cases hHead
      have hDigit := hText r mem_cons_self
      constructor <;> intro hChr <;> rw [hChr] at hDigit <;> exact absurd hDigit (by decide)
  rw [numberTail.eq_def]
  split
  · split
    · rename_i hNil
      rw [← hDecimal, hNil, takeWhile_nil]
    · rename_i r rest' hCons
      obtain ⟨hOctal, hHex⟩ := hBase r (by rw [hCons]; rfl)
      rw [if_neg hOctal, if_neg hHex, ← hCons, hDecimal]
  · exact hDecimal

variable {input : GoString} {close : Char} (hClose : close = doubleQuote ∨ close = singleQuote)

include hClose in
theorem close_ne : close ≠ Char.ofNat 0xFFFD ∧ close ≠ backslash := by
  rcases hClose with rfl | rfl <;> decide

theorem backslash_ne : backslash ≠ Char.ofNat 0xFFFD := by decide

include hClose in
theorem scanString_sound {scanned : GoString} (hScan : scanString close input = some (scanned, rest)) :
    input = scanned ++ rest ∧ Quoted close scanned := by
  fun_induction scanString close input generalizing scanned rest with
  | case1 => cases hScan
  | case2 r input hChr =>
    cases hScan
    rw [Rune.eq_of_chr hChr (close_ne hClose).1]
    exact ⟨rfl, .closed⟩
  | case3 r hChr hEscape => cases hScan
  | case4 r hChr hEscape escaped input ih =>
    obtain ⟨⟨scanned', rest'⟩, hRest, hPair⟩ := Option.map_eq_some_iff.mp hScan
    cases hPair
    obtain ⟨hInput, hQuoted⟩ := ih hRest
    rw [Rune.eq_of_chr hEscape backslash_ne]
    exact ⟨by rw [hInput]; rfl, .escaped hQuoted⟩
  | case5 r input hChr hEscape ih =>
    obtain ⟨⟨scanned', rest'⟩, hRest, hPair⟩ := Option.map_eq_some_iff.mp hScan
    cases hPair
    obtain ⟨hInput, hQuoted⟩ := ih hRest
    refine ⟨by rw [hInput]; rfl, .plain ?_ ?_ hQuoted⟩
    · rintro rfl
      exact hChr rfl
    · rintro rfl
      exact hEscape rfl

include hClose in
theorem scanString_complete (hQuoted : Quoted close text) (rest : GoString) :
    scanString close (text ++ rest) = some (text, rest) := by
  induction hQuoted with
  | closed =>
    rw [cons_append, scanString.eq_def]
    exact if_pos rfl
  | @plain r text hNotClose hNotEscape _ ih =>
    have hChr : r.chr ≠ close := fun hChr => hNotClose (Rune.eq_of_chr hChr (close_ne hClose).1)
    have hEscape : r.chr ≠ backslash := fun hChr => hNotEscape (Rune.eq_of_chr hChr backslash_ne)
    rw [cons_append, scanString.eq_def]
    dsimp only
    rw [if_neg hChr, if_neg hEscape, ih]
    rfl
  | @escaped r text _ ih =>
    have hEscape : (Rune.char backslash).chr = backslash := rfl
    have hChr : (Rune.char backslash).chr ≠ close := (close_ne hClose).2.symm
    rw [cons_append, cons_append, scanString.eq_def]
    dsimp only
    rw [if_neg hChr, if_pos hEscape, ih]
    rfl

variable {c : Char} {r : Rune} {tables : Tables} {lxr lxr' : Lexer} {tok : Token} {val : Special}

theorem Lexer.after_append (hRest : lxr.rest = text ++ rest) : (lxr.after text).rest = rest := by
  rw [Lexer.after, hRest, drop_left]

theorem special_eq_some (hSpecial : Lexer.special c = some val) :
    c ≠ Char.ofNat 0xFFFD ∧ specialText val = [.char c] := by
  unfold Lexer.special at hSpecial
  split at hSpecial <;> cases hSpecial <;> exact ⟨by decide, rfl⟩

def punctuation : List Char := ['[', ']', '*', ',', ':', '.', doubleQuote, singleQuote]

theorem mem_punctuation_of_special (hSpecial : Lexer.special c = some val) : c ∈ punctuation := by
  unfold Lexer.special at hSpecial
  split at hSpecial <;> cases hSpecial <;> decide

theorem not_identifierStart_of_punctuation (hMem : c ∈ punctuation) : Lexer.isIdentifierStart tables c = false := by
  have hOther : ∀ c ∈ punctuation, (c == '$') = false ∧ (c == '_') = false := all_iff_forall_prop.mp (by decide)
  rw [Lexer.isIdentifierStart, (hOther c hMem).1, (hOther c hMem).2, tables.pattern_punctuation c hMem]
  simp

theorem not_identifierStart_of_decimal (hDecimal : isDecimal c = true) : Lexer.isIdentifierStart tables c = false := by
  have hDollar : (c == '$') = false := by
    rw [beq_eq_false_iff_ne]
    rintro rfl
    exact absurd hDecimal (by decide)
  have hUnderscore : (c == '_') = false := by
    rw [beq_eq_false_iff_ne]
    rintro rfl
    exact absurd hDecimal (by decide)
  rw [Lexer.isIdentifierStart, hDollar, hUnderscore, tables.start_decimal c hDecimal]
  simp

theorem identifier_excludes (hStart : Lexer.isIdentifierStart tables c = true) :
    Lexer.special c = none ∧ c ≠ '.' ∧ isDecimal c = false ∧ ¬ (c = doubleQuote ∨ c = singleQuote) := by
  have hOther : c ∉ punctuation := by
    intro hMem
    rw [not_identifierStart_of_punctuation hMem] at hStart
    cases hStart
  refine ⟨?_, ?_, ?_, ?_⟩
  · cases hSpecial : Lexer.special c with
    | none => rfl
    | some val => exact absurd (mem_punctuation_of_special hSpecial) hOther
  · rintro rfl
    exact hOther (by decide)
  · cases hDecimal : isDecimal c with
    | false => rfl
    | true =>
      rw [not_identifierStart_of_decimal hDecimal] at hStart
      cases hStart
  · rintro (rfl | rfl) <;> exact hOther (by decide)

theorem decimal_excludes (hDecimal : isDecimal c = true) : Lexer.special c = none ∧ c ≠ '.' := by
  have hOther : ∀ c ∈ punctuation, isDecimal c = false := all_iff_forall_prop.mp (by decide)
  constructor
  · cases hSpecial : Lexer.special c with
    | none => rfl
    | some val =>
      rw [hOther c (mem_punctuation_of_special hSpecial)] at hDecimal
      cases hDecimal
  · rintro rfl
    exact absurd hDecimal (by decide)

theorem rest_eq_of_prefix (hPrefix : text <+: lxr.rest) : lxr.rest = text ++ (lxr.after text).rest := by
  obtain ⟨rest, hRest⟩ := hPrefix
  rw [Lexer.after_append hRest.symm, hRest]

theorem nextNumber_sound (hRest : lxr.rest = r :: input) (hNext : lxr.nextNumber r input = .ok (tok, lxr')) :
    ∃ text, lxr.rest = text ++ lxr'.rest ∧ TokenText tables tok text := by
  rw [Lexer.nextNumber] at hNext
  split at hNext
  · cases hNext
  · rename_i num hParse
    cases hNext
    refine ⟨r :: numberTail r input, rest_eq_of_prefix ?_, (parseInt_eq_some (cons_ne_nil _ _)).mp hParse⟩
    rw [hRest]
    exact (prefix_cons_inj _).mpr (numberTail_isPrefix_rest r input)

theorem nextString_sound (hRest : lxr.rest = r :: input) (hQuote : r.chr = doubleQuote ∨ r.chr = singleQuote)
    (hNext : lxr.nextString tables r input = .ok (tok, lxr')) :
    ∃ text, lxr.rest = text ++ lxr'.rest ∧ TokenText tables tok text := by
  rw [Lexer.nextString] at hNext
  split at hNext
  · cases hNext
  · rename_i scanned rest hScan
    split at hNext
    · cases hNext
    · rename_i val hLiteral
      cases hNext
      obtain ⟨hInput, hQuoted⟩ := scanString_sound hQuote hScan
      refine ⟨r :: scanned, rest_eq_of_prefix ?_, ⟨r.chr, scanned, hQuote, ?_, hQuoted⟩, hLiteral⟩
      · rw [hRest, hInput]
        exact (prefix_cons_inj _).mpr (prefix_append _ _)
      · rw [← Rune.eq_of_chr rfl (close_ne hQuote).1]

theorem next_sound (hNext : lxr.next tables = .ok (tok, lxr')) :
    (lxr.rest = [] ∧ tok = .eof) ∨ ∃ text, lxr.rest = text ++ lxr'.rest ∧ TokenText tables tok text := by
  cases hRest : lxr.rest with
  | nil =>
    rw [Lexer.next, hRest] at hNext
    cases hNext
    exact .inl ⟨rfl, rfl⟩
  | cons r input =>
    rw [← hRest]
    refine .inr ?_
    rw [Lexer.next, hRest] at hNext
    dsimp only at hNext
    cases hSpecial : Lexer.special r.chr with
    | some val =>
      rw [hSpecial] at hNext
      cases hNext
      obtain ⟨hValid, hText⟩ := special_eq_some hSpecial
      refine ⟨[r], rest_eq_of_prefix (by rw [hRest]; exact ⟨input, rfl⟩), ?_⟩
      rw [TokenText, hText, ← Rune.eq_of_chr rfl hValid]
    | none =>
      rw [hSpecial] at hNext
      dsimp only at hNext
      by_cases hDot : r.chr = '.'
      · rw [if_pos hDot] at hNext
        have hRune : r = .char '.' := Rune.eq_of_chr hDot (by decide)
        cases input with
        | nil =>
          cases hNext
          exact ⟨[r], rest_eq_of_prefix (hRest ▸ prefix_rfl), by rw [hRune]; rfl⟩
        | cons r' input =>
          dsimp only at hNext
          by_cases hDot' : r'.chr = '.'
          · rw [if_pos hDot'] at hNext
            cases hNext
            have hRune' : r' = .char '.' := Rune.eq_of_chr hDot' (by decide)
            exact ⟨[r, r'], rest_eq_of_prefix (by rw [hRest]; exact ⟨input, rfl⟩), by rw [hRune, hRune']; rfl⟩
          · rw [if_neg hDot'] at hNext
            cases hNext
            exact ⟨[r], rest_eq_of_prefix (by rw [hRest]; exact ⟨r' :: input, rfl⟩), by rw [hRune]; rfl⟩
      · rw [if_neg hDot] at hNext
        split at hNext
        · exact nextNumber_sound hRest hNext
        · split at hNext
          · rename_i hQuote
            exact nextString_sound hRest hQuote hNext
          · split at hNext
            · rename_i hStart
              cases hNext
              refine ⟨_, rest_eq_of_prefix ?_, rfl, ⟨r, _, rfl, hStart, fun r' hMem => ?_⟩⟩
              · rw [hRest]
                exact (prefix_cons_inj _).mpr <| takeWhile_prefix _
              · exact (@mem_takeWhile_imp _ (fun r : Rune => Lexer.isIdentifierPart tables r.chr) _ _ hMem)
            · cases hNext

theorem next_special (hRest : lxr.rest = specialText val ++ rest)
    (hBoundary : ∀ r, rest.head? = some r → Boundary tables (.special val) r) :
    lxr.next tables = .ok (.special val, lxr.after (specialText val)) := by
  rw [Lexer.next, hRest]
  cases val with
  | dot =>
    cases rest with
    | nil => rfl
    | cons r rest => exact if_neg (hBoundary r rfl)
  | openBracket | closeBracket | star | comma | colon | dotDot => rfl

theorem next_number (hInteger : Integer text n) (hRest : lxr.rest = text ++ rest)
    (hBoundary : ∀ r, rest.head? = some r → Boundary tables (.number n) r) :
    lxr.next tables = .ok (.number n, lxr.after text) := by
  cases text with
  | nil => exact absurd rfl hInteger.nonempty
  | cons first text =>
    obtain ⟨hFirst, hText⟩ := forall_mem_cons.mp hInteger.digits
    obtain ⟨hSpecial, hDot⟩ := decimal_excludes hFirst
    rw [Lexer.next, hRest, cons_append]
    dsimp only
    rw [hSpecial]
    rw [if_neg hDot, if_pos hFirst, Lexer.nextNumber, numberTail_append hText hBoundary,
      (parseInt_eq_some hInteger.nonempty).mpr hInteger]

theorem next_string {val : GoString} (hString : StringLiteral tables text val) (hRest : lxr.rest = text ++ rest) :
    lxr.next tables = .ok (.string val, lxr.after text) := by
  obtain ⟨⟨quote, body, hQuote, rfl, hQuoted⟩, hValue⟩ := hString
  have hChr : (Rune.char quote).chr = quote := rfl
  have hOther : Lexer.special quote = none ∧ quote ≠ '.' ∧ isDecimal quote = false := by
    rcases hQuote with rfl | rfl <;> decide
  rw [← hChr] at hQuote hOther hQuoted
  rw [Lexer.next, hRest, cons_append]
  dsimp only
  rw [hOther.1]
  rw [if_neg hOther.2.1, hOther.2.2, if_neg Bool.false_ne_true, if_pos hQuote, Lexer.nextString,
    scanString_complete hQuote hQuoted]
  dsimp only
  rw [hValue]

theorem next_identifier {val : GoString} (hIdentifier : Identifier tables val) (hRest : lxr.rest = val ++ rest)
    (hBoundary : ∀ r, rest.head? = some r → Boundary tables (.identifier val) r) :
    lxr.next tables = .ok (.identifier val, lxr.after val) := by
  obtain ⟨first, parts, rfl, hStart, hParts⟩ := hIdentifier
  obtain ⟨hSpecial, hDot, hDecimal, hQuote⟩ := identifier_excludes hStart
  rw [Lexer.next, hRest, cons_append]
  dsimp only
  rw [hSpecial]
  rw [if_neg hDot, hDecimal, if_neg Bool.false_ne_true, if_neg hQuote, if_pos hStart, Lexer.nextIdentifierName,
    takeWhile_of_boundary hParts hBoundary]

theorem next_complete (hText : TokenText tables tok text) (hRest : lxr.rest = text ++ rest)
    (hBoundary : ∀ r, rest.head? = some r → Boundary tables tok r) :
    lxr.next tables = .ok (tok, lxr.after text) := by
  cases tok with
  | eof => exact absurd hText id
  | special val =>
    rw [hText] at hRest ⊢
    exact next_special hRest hBoundary
  | string val => exact next_string hText hRest
  | identifier val =>
    obtain ⟨rfl, hIdentifier⟩ := hText
    exact next_identifier hIdentifier hRest hBoundary
  | number val => exact next_number hText hRest hBoundary

end KubeStellar.JsonPath
