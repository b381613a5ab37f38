import KubeStellar.Library.Fuel
import KubeStellar.JsonPath.Tokens

/-! # The grammar of paths

The grammar in the comment at the head of `parser.go`, with the selectors that it assigns, and that the parser accepts
exactly the paths and returns their selectors.
-/

namespace KubeStellar.JsonPath

open List Fuel

variable (tables : Tables)

inductive Continued {V : Type} (item : GoString → V → Prop) : GoString → List V → Prop where
  | done : Continued item [] []
  | more {text rest : GoString} {v : V} {vs : List V} (hItem : item text v) (hRest : Continued item rest vs) :
      Continued item (.char ',' :: (text ++ rest)) (v :: vs)

inductive Separated {V : Type} (item : GoString → V → Prop) : GoString → List V → Prop where
  | mk {text rest : GoString} {v : V} {vs : List V} (hItem : item text v) (hRest : Continued item rest vs) :
      Separated item (text ++ rest) (v :: vs)

inductive OptionalInteger : GoString → Option Numeral → Prop where
  | omitted : OptionalInteger [] none
  | given {text : GoString} {n : Numeral} (hInteger : Integer text n) : OptionalInteger text (some n)

inductive RangeTail (start : Numeral) : GoString → Range → Prop where
  | noStride {second : GoString} {afterEnd : Option Numeral} (hEnd : OptionalInteger second afterEnd) :
      RangeTail start second ⟨start, afterEnd.map fun n => (n.val : Int), ⟨1, by decide⟩⟩
  | withStride {second third : GoString} {afterEnd stride : Option Numeral} (hEnd : OptionalInteger second afterEnd)
      (hStride : OptionalInteger third stride) :
      RangeTail start (second ++ (.char ':' :: third))
        ⟨start, afterEnd.map fun n => (n.val : Int), stride.getD ⟨1, by decide⟩⟩

inductive RangeText : GoString → Range → Prop where
  | mk {first tail : GoString} {start : Option Numeral} {range : Range} (hStart : OptionalInteger first start)
      (hTail : RangeTail (start.getD ⟨0, by decide⟩) tail range) : RangeText (first ++ (.char ':' :: tail)) range

inductive BracketText : GoString → Selector GoString → Prop where
  | star : BracketText [.char '*'] .everyChild
  | strings {text : GoString} {names : List GoString} (hNames : Separated (StringLiteral tables) text names) :
      BracketText text (listOf (names.map .name))
  | integers {text : GoString} {indices : List Numeral} (hIndices : Separated Integer text indices) :
      BracketText text (listOf (indices.map fun index => .range (rangeOf1 index)))
  | range {text : GoString} {range : Range} (hRange : RangeText text range) : BracketText text (.range range)

inductive DotText : GoString → Selector GoString → Prop where
  | name {text : GoString} (hName : Identifier tables text) : DotText text (.name text)
  | index {text : GoString} {index : Numeral} (hIndex : Integer text index) : DotText text (.range (rangeOf1 index))
  | star : DotText [.char '*'] .everyChild

/-- Selectors one after the other; the flag says that they follow a `..`. -/
inductive SelectorsText : Bool → GoString → List (Selector GoString) → Prop where
  | nil {takeStar : Bool} : SelectorsText takeStar [] []
  | dot {takeStar : Bool} {text rest : GoString} {sel : Selector GoString} {sels : List (Selector GoString)}
      (hSel : DotText tables text sel) (hRest : SelectorsText false rest sels) :
      SelectorsText takeStar (.char '.' :: (text ++ rest)) (sel :: sels)
  | bracket {takeStar : Bool} {text rest : GoString} {sel : Selector GoString} {sels : List (Selector GoString)}
      (hSel : BracketText tables text sel) (hRest : SelectorsText false rest sels) :
      SelectorsText takeStar (.char '[' :: (text ++ (.char ']' :: rest))) (sel :: sels)
  | recurse {takeStar : Bool} {rest : GoString} {sels : List (Selector GoString)}
    (hRest : SelectorsText true rest sels) :
      SelectorsText takeStar (.char '.' :: .char '.' :: rest) (.recurse :: sels)
  | star {rest : GoString} {sels : List (Selector GoString)} (hRest : SelectorsText false rest sels) :
      SelectorsText true (.char '*' :: rest) (.everyChild :: sels)

def PathText (source : GoString) (sels : List (Selector GoString)) : Prop :=
  ∃ rest, source = .char '$' :: rest ∧ SelectorsText tables false rest sels

variable {start num1 n : Numeral} {range : Range} {sel : Selector GoString} {first source : GoString} {takeStar : Bool}
  {sels : List (Selector GoString)} {fuel pos : Nat} {afterEnd : Option Int}
  {tables : Tables} {lxr lxr' lxr1 : Lexer} {tok : Token} {subs : List (Selector GoString)}

theorem nextToken_eq_ok {read : Token × Lexer} : nextToken tables lxr = .ok read ↔ lxr.next tables = .ok read := by
  rw [nextToken]
  cases lxr.next tables with
  | error err => exact ⟨fun h => (by cases h), fun h => (by cases h)⟩
  | ok read' => exact ⟨fun h => (by cases h; rfl), fun h => (by cases h; rfl)⟩

theorem nextToken_sound (hNext : nextToken tables lxr = .ok (tok, lxr')) (hTok : tok ≠ .eof) :
    ∃ text, lxr.rest = text ++ lxr'.rest ∧ TokenText tables tok text := by
  rcases next_sound (nextToken_eq_ok.mp hNext) with ⟨-, hEof⟩ | hRead
  · exact absurd hEof hTok
  · exact hRead

theorem nextToken_special {val : Special} (hNext : nextToken tables lxr = .ok (.special val, lxr')) :
    lxr.rest = specialText val ++ lxr'.rest := by
  obtain ⟨text, hRest, hText⟩ := nextToken_sound hNext (by simp)
  rw [hRest, hText]

theorem nextToken_number (hNext : nextToken tables lxr = .ok (.number n, lxr')) :
    ∃ text, lxr.rest = text ++ lxr'.rest ∧ Integer text n :=
  nextToken_sound hNext (by simp)

theorem TokenText.ne_nil {text : GoString} (hText : TokenText tables tok text) : text ≠ [] := by
  cases tok with
  | eof => exact absurd hText id
  | special val => cases val <;> rw [hText] <;> exact cons_ne_nil _ _
  | string val =>
    obtain ⟨quote, rest, -, rfl, -⟩ := hText.quoted
    exact cons_ne_nil _ _
  | identifier val =>
    obtain ⟨rfl, first, parts, rfl, -⟩ := hText
    exact cons_ne_nil _ _
  | number val => exact hText.nonempty

theorem nextToken_consumes (hNext : nextToken tables lxr = .ok (tok, lxr')) (hTok : tok ≠ .eof) :
    lxr'.rest.length < lxr.rest.length := by
  obtain ⟨text, hRest, hText⟩ := nextToken_sound hNext hTok
  have hPos : 0 < text.length := length_pos_of_ne_nil hText.ne_nil
  rw [hRest, length_append]
  omega

theorem nextToken_length_le (hNext : nextToken tables lxr = .ok (tok, lxr')) : lxr'.rest.length ≤ lxr.rest.length := by
  by_cases hTok : tok = .eof
  · subst hTok
    have hNil : lxr.rest = [] := by
      rcases next_sound (nextToken_eq_ok.mp hNext) with ⟨hNil, -⟩ | ⟨_, -, hText⟩
      · exact hNil
      · exact absurd hText id
    have hSame : lxr.next tables = .ok (.eof, lxr) := by rw [Lexer.next, hNil]
    rw [nextToken_eq_ok, hSame] at hNext
    cases hNext
    exact le_rfl
  · exact (nextToken_consumes hNext hTok).le

theorem nextToken_post {α : Type} {f : Token × Lexer → Except ParseError α} {Q : α → Prop}
    (hThen : ∀ tok lxr', nextToken tables lxr = .ok (tok, lxr') → Post .outOfFuel Q (f (tok, lxr'))) :
    Post .outOfFuel Q (nextToken tables lxr >>= f) := by
  refine Post.bind (P := fun read => nextToken tables lxr = .ok read) ⟨?_, fun _ hOk => hOk⟩ fun read =>
    hThen read.1 read.2
  rw [nextToken]
  split <;> simp

theorem post_expected {α : Type} {Q : α → Prop} {what : String} :
    Post ParseError.outOfFuel Q (.error (.expected pos what tok)) :=
  .error (by simp)

theorem parseStride_spec : Post .outOfFuel (fun parsed => ∃ third stride, OptionalInteger third stride ∧
      parsed.1 = ⟨start, afterEnd, stride.getD ⟨1, by decide⟩⟩ ∧ lxr.rest = third ++ (.char ']' :: parsed.2.rest))
    (parseStride tables lxr start afterEnd) := by
  refine nextToken_post fun tok lxr1 hTok => ?_
  dsimp only
  split
  · exact .ok ⟨[], none, .omitted, rfl, nextToken_special hTok⟩
  · rename_i stride
    refine nextToken_post fun tok' lxr2 hTok' => ?_
    dsimp only
    split
    · obtain ⟨third, hRest, hThird⟩ := nextToken_number hTok
      refine .ok ⟨third, some stride, .given hThird, rfl, ?_⟩
      rw [hRest, nextToken_special hTok']
      rfl
    · exact post_expected
  · exact post_expected

theorem parseAfterEnd_spec {second : GoString} {afterEnd : Option Numeral}
    (hTok : nextToken tables lxr = .ok (tok, lxr1)) (hEnd : OptionalInteger second afterEnd) :
    Post .outOfFuel (fun parsed => ∃ more, RangeTail start (second ++ more) parsed.1 ∧
      lxr.rest = more ++ (.char ']' :: parsed.2.rest))
      (parseAfterEnd tables tok pos lxr1 start (afterEnd.map fun n => (n.val : Int))) := by
  rw [parseAfterEnd.eq_def]
  split
  · exact .ok ⟨[], by rw [append_nil]; exact .noStride hEnd, nextToken_special hTok⟩
  · refine parseStride_spec.imp ?_
    rintro ⟨range, lxr'⟩ ⟨third, stride, hStride, rfl, hRest⟩
    refine ⟨.char ':' :: third, .withStride hEnd hStride, ?_⟩
    rw [nextToken_special hTok, hRest]
    rfl
  · exact post_expected

theorem parseRange_spec : Post .outOfFuel (fun parsed => ∃ tail, RangeTail start tail parsed.1 ∧
      lxr.rest = tail ++ (.char ']' :: parsed.2.rest)) (parseRange tables lxr start) := by
  refine nextToken_post fun tok lxr1 hTok => ?_
  dsimp only
  split
  · refine nextToken_post fun tok' lxr2 hTok' => ?_
    obtain ⟨second, hRest, hSecond⟩ := nextToken_number hTok
    refine (parseAfterEnd_spec hTok' (.given hSecond)).imp ?_
    rintro parsed ⟨more, hTail, hRest'⟩
    exact ⟨second ++ more, hTail, by rw [hRest, hRest', append_assoc]⟩
  · exact parseAfterEnd_spec hTok .omitted

theorem parseStrings_spec (hFuel : lxr.rest.length < fuel) (subs : List (Selector GoString)) :
    Post .outOfFuel (fun parsed => ∃ text names, Continued (StringLiteral tables) text names ∧
      parsed.1 = listOf (subs ++ names.map .name) ∧ lxr.rest = text ++ (.char ']' :: parsed.2.rest))
      (parseStrings tables fuel lxr subs) := by
  induction fuel generalizing lxr subs with
  | zero => exact absurd hFuel (Nat.not_lt_zero _)
  | succ fuel ih =>
    refine nextToken_post fun tok lxr1 hTok => ?_
    dsimp only
    split
    · exact .ok ⟨[], [], .done, by rw [map_nil, append_nil], nextToken_special hTok⟩
    · have hLess := nextToken_consumes hTok (by simp)
      refine nextToken_post fun tok' lxr2 hTok' => ?_
      have hLess' := nextToken_length_le hTok'
      dsimp only
      split
      · rename_i val
        obtain ⟨first, hFirst, hString⟩ := nextToken_sound hTok' (by simp)
        refine (ih (by omega) _).imp ?_
        rintro parsed ⟨text, names, hNames, hSel, hRest⟩
        refine ⟨.char ',' :: (first ++ text), val :: names, .more hString hNames, ?_, ?_⟩
        · rw [hSel, map_cons, append_assoc, singleton_append]
        · rw [nextToken_special hTok, hFirst, hRest, cons_append, append_assoc]
          rfl
      · exact post_expected
    · exact post_expected

theorem parseNumbers_spec (hTok : nextToken tables lxr = .ok (tok, lxr1)) (hFuel : lxr1.rest.length < fuel) (pos : Nat)
    (subs : List (Selector GoString)) :
    Post .outOfFuel (fun parsed => ∃ text indices, Continued Integer text indices ∧
      parsed.1 = listOf (subs ++ indices.map fun index => .range (rangeOf1 index)) ∧
      lxr.rest = text ++ (.char ']' :: parsed.2.rest)) (parseNumbers tables fuel tok pos lxr1 subs) := by
  induction fuel generalizing lxr tok pos lxr1 subs with
  | zero => exact absurd hFuel (Nat.not_lt_zero _)
  | succ fuel ih =>
    rw [parseNumbers.eq_def]
    dsimp only
    split
    · exact .ok ⟨[], [], .done, by rw [map_nil, append_nil], nextToken_special hTok⟩
    · refine nextToken_post fun tok' lxr2 hTok' => ?_
      dsimp only
      split
      · rename_i num
        have hLess := nextToken_consumes hTok' (by simp)
        refine nextToken_post fun tok'' lxr3 hTok'' => ?_
        have hLess' := nextToken_length_le hTok''
        obtain ⟨first, hFirst, hInteger⟩ := nextToken_number hTok'
        refine (ih hTok'' (by omega) _ _).imp ?_
        rintro parsed ⟨text, indices, hIndices, hSel, hRest⟩
        refine ⟨.char ',' :: (first ++ text), num :: indices, .more hInteger hIndices, ?_, ?_⟩
        · rw [hSel, map_cons, append_assoc, singleton_append]
        · rw [nextToken_special hTok, hFirst, hRest, cons_append, append_assoc]
          rfl
      · exact post_expected
    · exact post_expected

theorem parseNumericSubscripts_spec (hFirst : Integer first num1) :
    Post .outOfFuel (fun parsed => ∃ more, BracketText tables (first ++ more) parsed.1 ∧
      lxr.rest = more ++ (.char ']' :: parsed.2.rest)) (parseNumericSubscripts tables lxr num1) := by
  refine nextToken_post fun tok lxr1 hTok => ?_
  dsimp only
  split
  · rename_i hColon
    subst hColon
    refine parseRange_spec.bind ?_
    rintro ⟨range, lxr2⟩ ⟨tail, hTail, hRest⟩
    refine .ok ⟨.char ':' :: tail, .range (@RangeText.mk first tail (some num1) range (.given hFirst) hTail), ?_⟩
    rw [nextToken_special hTok, hRest]
    rfl
  · refine (parseNumbers_spec hTok (Nat.lt_succ_of_le (nextToken_length_le hTok)) _ _).imp ?_
    rintro ⟨sel, lxr'⟩ ⟨text, indices, hIndices, rfl, hRest⟩
    exact ⟨text, .integers (.mk hFirst hIndices), hRest⟩

theorem parseDot_spec : Post .outOfFuel (fun parsed => ∃ text, DotText tables text parsed.1 ∧
      lxr.rest = text ++ parsed.2.rest) (parseDot tables lxr) := by
  refine nextToken_post fun tok lxr1 hTok => ?_
  dsimp only
  split
  · exact .ok ⟨[.char '*'], .star, nextToken_special hTok⟩
  · obtain ⟨text, hRest, rfl, hName⟩ := nextToken_sound hTok (by simp)
    exact .ok ⟨text, .name hName, hRest⟩
  · obtain ⟨text, hRest, hIndex⟩ := nextToken_number hTok
    exact .ok ⟨text, .index hIndex, hRest⟩
  · exact post_expected

theorem parseBracket_spec : Post .outOfFuel (fun parsed => ∃ text, BracketText tables text parsed.1 ∧
      lxr.rest = text ++ (.char ']' :: parsed.2.rest)) (parseBracket tables lxr) := by
  refine nextToken_post fun tok lxr1 hTok => ?_
  dsimp only
  split
  · refine nextToken_post fun tok' lxr2 hTok' => ?_
    dsimp only
    split
    · refine .ok ⟨[.char '*'], .star, ?_⟩
      rw [nextToken_special hTok, nextToken_special hTok']
      rfl
    · exact post_expected
  · refine parseRange_spec.bind ?_
    rintro ⟨range, lxr2⟩ ⟨tail, hTail, hRest⟩
    refine .ok ⟨.char ':' :: tail, .range (@RangeText.mk [] tail none range .omitted hTail), ?_⟩
    rw [nextToken_special hTok, hRest]
    rfl
  · obtain ⟨first, hFirst, hInteger⟩ := nextToken_number hTok
    refine (parseNumericSubscripts_spec hInteger).imp ?_
    rintro parsed ⟨more, hText, hRest⟩
    exact ⟨first ++ more, hText, by rw [hFirst, hRest, append_assoc]⟩
  · obtain ⟨first, hFirst, hString⟩ := nextToken_sound hTok (by simp)
    refine (parseStrings_spec (Nat.lt_succ_self _) _).imp ?_
    rintro ⟨sel, lxr'⟩ ⟨text, names, hNames, rfl, hRest⟩
    exact ⟨first ++ text, .strings (.mk hString hNames), by rw [hFirst, hRest, append_assoc]⟩
  · exact post_expected

theorem parseSelectors_spec (hFuel : lxr.rest.length < fuel) (takeStar : Bool) (parsed : List (Selector GoString)) :
    Post .outOfFuel (fun sels => ∃ more, sels = parsed ++ more ∧ SelectorsText tables takeStar lxr.rest more)
      (parseSelectors tables fuel lxr takeStar parsed) := by
  induction fuel generalizing lxr takeStar parsed with
  | zero => exact absurd hFuel (Nat.not_lt_zero _)
  | succ fuel ih =>
    have hNext : ∀ {val lxr1 lxr' star sel}, lxr.next tables = .ok (.special val, lxr1) →
        lxr'.rest.length ≤ lxr1.rest.length → (∀ more, SelectorsText tables star lxr'.rest more →
          SelectorsText tables takeStar (specialText val ++ lxr1.rest) (sel :: more)) →
        Post .outOfFuel (fun sels => ∃ more, sels = parsed ++ more ∧ SelectorsText tables takeStar lxr.rest more)
          (parseSelectors tables fuel lxr' star (parsed ++ [sel])) := by
      intro val lxr1 lxr' star sel hTok hLe hText
      have hLess := nextToken_consumes (nextToken_eq_ok.mpr hTok) (by simp)
      refine (ih (by omega) star _).imp ?_
      rintro sels ⟨more, rfl, hMore⟩
      refine ⟨sel :: more, by rw [append_assoc, singleton_append], ?_⟩
      rw [nextToken_special (nextToken_eq_ok.mpr hTok)]
      exact hText more hMore
    rw [parseSelectors.eq_def]
    dsimp only
    split
    · rename_i hRest
      exact .ok ⟨[], (append_nil _).symm, hRest ▸ .nil⟩
    · split
      · exact .error (by simp)
      · rename_i lxr1 hTok
        refine parseDot_spec.bind ?_
        rintro ⟨sel, lxr2⟩ ⟨text, hText, hRest⟩
        refine hNext hTok (by simp [hRest]) fun more hMore => ?_
        rw [hRest]
        exact @SelectorsText.dot tables takeStar text lxr2.rest sel more hText hMore
      · rename_i lxr1 hTok
        refine parseBracket_spec.bind ?_
        rintro ⟨sel, lxr2⟩ ⟨text, hText, hRest⟩
        refine hNext hTok (by grind) fun more hMore => ?_
        rw [hRest]
        exact .bracket hText hMore
      · rename_i lxr1 hTok
        exact hNext hTok le_rfl fun more hMore => .recurse hMore
      · rename_i lxr1 _ _ _ hTok
        split
        · rename_i hStar
          obtain ⟨rfl, rfl⟩ := hStar
          exact hNext hTok le_rfl fun more hMore => .star hMore
        · exact .error (by simp)

theorem parse_spec : Post .outOfFuel (PathText tables source) (parseString tables source) := by
  refine nextToken_post fun tok lxr1 hTok => ?_
  dsimp only
  split
  · rename_i hDollar
    subst hDollar
    obtain ⟨text, hRest, rfl, -⟩ := nextToken_sound hTok (by simp)
    refine (parseSelectors_spec (Nat.lt_succ_of_le (nextToken_length_le hTok)) _ _).imp ?_
    rintro sels ⟨more, rfl, hMore⟩
    exact ⟨lxr1.rest, hRest, hMore⟩
  · exact .error (by simp)

theorem parse_ne_outOfFuel : parseString tables source ≠ .error .outOfFuel := parse_spec.1

theorem parse_sound (hParse : parseString tables source = .ok sels) : PathText tables source sels :=
  parse_spec.2 sels hParse

variable {text rest : GoString} {indices : List Numeral}

theorem nextToken_complete (tok : Token) (hText : TokenText tables tok text) (hRest : lxr.rest = text ++ rest)
    (hBoundary : ∀ r, rest.head? = some r → Boundary tables tok r) :
    ∃ lxr', nextToken tables lxr = .ok (tok, lxr') ∧ lxr'.rest = rest :=
  ⟨lxr.after text, nextToken_eq_ok.mpr (next_complete hText hRest hBoundary), Lexer.after_append hRest⟩

theorem nextToken_of_special (tables : Tables) (val : Special) (hVal : val ≠ .dot)
    (hRest : lxr.rest = specialText val ++ rest) :
    ∃ lxr', nextToken tables lxr = .ok (.special val, lxr') ∧ lxr'.rest = rest := by
  refine nextToken_complete _ rfl hRest fun r _ => ?_
  cases val with
  | dot => exact absurd rfl hVal
  | openBracket | closeBracket | star | comma | colon | dotDot => trivial

theorem nextToken_of_string {val : GoString} (hString : StringLiteral tables text val)
    (hRest : lxr.rest = text ++ rest) :
    ∃ lxr', nextToken tables lxr = .ok (.string val, lxr') ∧ lxr'.rest = rest :=
  nextToken_complete _ hString hRest fun _ _ => trivial

theorem nextToken_of_integer (tables : Tables) {c : Char} (hInteger : Integer text n)
    (hEnd : c ∈ [':', ',', ']']) (hRest : lxr.rest = text ++ (.char c :: rest)) :
    ∃ lxr', nextToken tables lxr = .ok (.number n, lxr') ∧ lxr'.rest = .char c :: rest := by
  have hOther : ∀ c ∈ [':', ',', ']'], isDecimal c = false ∧ c ≠ 'o' ∧ c ≠ 'x' := all_iff_forall_prop.mp (by decide)
  refine nextToken_complete _ hInteger hRest fun r hHead => ?_
  cases hHead
  exact hOther c hEnd

theorem nextToken_bind {α : Type} {f : Token × Lexer → Except ParseError (α × Lexer)} {a : α} {rest1 : GoString}
    (hTok : ∃ lxr1, nextToken tables lxr = .ok (tok, lxr1) ∧ lxr1.rest = rest1)
    (hThen : ∀ lxr1, lxr1.rest = rest1 → ∃ lxr', f (tok, lxr1) = .ok (a, lxr') ∧ lxr'.rest = rest) :
    ∃ lxr', nextToken tables lxr >>= f = .ok (a, lxr') ∧ lxr'.rest = rest := by
  obtain ⟨lxr1, hOk, hRest1⟩ := hTok
  rw [hOk]
  exact hThen lxr1 hRest1

theorem nextToken_close {α : Type} {f : Token × Lexer → Except ParseError (α × Lexer)} {a : α}
    (hRest : lxr.rest = .char ']' :: rest) (hOk : ∀ lxr1, f (.special .closeBracket, lxr1) = .ok (a, lxr1)) :
    ∃ lxr', nextToken tables lxr >>= f = .ok (a, lxr') ∧ lxr'.rest = rest :=
  nextToken_bind (nextToken_of_special tables .closeBracket (by decide) hRest) fun lxr1 hRest1 =>
    ⟨lxr1, hOk lxr1, hRest1⟩

theorem parseStride_complete (tables : Tables) {third : GoString} {stride : Option Numeral}
    (hStride : OptionalInteger third stride) (hRest : lxr.rest = third ++ (.char ']' :: rest)) (start : Numeral)
    (afterEnd : Option Int) :
    ∃ lxr', parseStride tables lxr start afterEnd = .ok (⟨start, afterEnd, stride.getD ⟨1, by decide⟩⟩, lxr') ∧
      lxr'.rest = rest := by
  cases hStride with
  | omitted => exact nextToken_close hRest fun _ => rfl
  | given hInteger =>
    refine nextToken_bind (nextToken_of_integer tables hInteger (by decide) hRest) fun lxr1 hRest1 => ?_
    exact nextToken_close hRest1 fun _ => rfl

theorem parseRange_complete {tail : GoString} (hTail : RangeTail start tail range)
    (hRest : lxr.rest = tail ++ (.char ']' :: rest)) :
    ∃ lxr', parseRange tables lxr start = .ok (range, lxr') ∧ lxr'.rest = rest := by
  cases hTail with
  | noStride hEnd =>
    cases hEnd with
    | omitted => exact nextToken_close hRest fun _ => rfl
    | given hInteger =>
      refine nextToken_bind (nextToken_of_integer tables hInteger (by decide) hRest) fun lxr1 hRest1 => ?_
      exact nextToken_close hRest1 fun _ => rfl
  | withStride hEnd hStride =>
    rw [append_assoc] at hRest
    cases hEnd with
    | omitted =>
      refine nextToken_bind (nextToken_of_special tables .colon (by decide) hRest) fun lxr1 hRest1 => ?_
      exact parseStride_complete tables hStride hRest1 start none
    | given hInteger =>
      refine nextToken_bind (nextToken_of_integer tables hInteger (by decide) hRest) fun lxr1 hRest1 => ?_
      refine nextToken_bind (nextToken_of_special tables .colon (by decide) hRest1) fun lxr2 hRest2 => ?_
      exact parseStride_complete tables hStride hRest2 start _

theorem exists_fuel {n : Nat} (hFuel : text.length < fuel) (hLess : n < text.length) :
    ∃ fuel', fuel = fuel' + 1 ∧ n < fuel' :=
  ⟨fuel - 1, by omega, by omega⟩

theorem parseStrings_complete {names : List GoString} (hNames : Continued (StringLiteral tables) text names)
    (hFuel : text.length < fuel) (hRest : lxr.rest = text ++ (.char ']' :: rest)) (subs : List (Selector GoString)) :
    ∃ lxr', parseStrings tables fuel lxr subs = .ok (listOf (subs ++ names.map .name), lxr') ∧ lxr'.rest = rest := by
  induction hNames generalizing fuel lxr subs with
  | done =>
    obtain ⟨fuel, rfl⟩ := Nat.exists_eq_add_of_lt hFuel
    rw [map_nil, append_nil]
    exact nextToken_close hRest fun _ => rfl
  | @more first text name names hString hNames ih =>
    obtain ⟨fuel, rfl, hFuel'⟩ := exists_fuel (n := text.length) hFuel (by grind)
    rw [cons_append, append_assoc] at hRest
    refine nextToken_bind (nextToken_of_special tables .comma (by decide) hRest) fun lxr1 hRest1 => ?_
    refine nextToken_bind (nextToken_of_string hString hRest1) fun lxr2 hRest2 => ?_
    rw [map_cons, ← singleton_append, ← append_assoc]
    exact ih hFuel' hRest2 (subs ++ [.name name])

theorem nextToken_of_first (tables : Tables) (hFirst : Integer first n) (hIndices : Continued Integer text indices)
    (hRest : lxr.rest = first ++ (text ++ (.char ']' :: rest))) :
    ∃ lxr', nextToken tables lxr = .ok (.number n, lxr') ∧ lxr'.rest = text ++ (.char ']' :: rest) := by
  cases hIndices with
  | done => exact nextToken_of_integer tables hFirst (by decide) hRest
  | more _ _ => exact nextToken_of_integer tables hFirst (by decide) hRest

theorem parseNumbers_complete (hIndices : Continued Integer text indices)
    (hFuel : text.length < fuel) (hRest : lxr.rest = text ++ (.char ']' :: rest)) (subs : List (Selector GoString)) :
    ∃ tok lxr1, nextToken tables lxr = .ok (tok, lxr1) ∧ tok ≠ .special .colon ∧ ∀ pos, ∃ lxr',
      parseNumbers tables fuel tok pos lxr1 subs =
        .ok (listOf (subs ++ indices.map fun index => .range (rangeOf1 index)), lxr') ∧ lxr'.rest = rest := by
  induction hIndices generalizing fuel lxr subs with
  | done =>
    obtain ⟨fuel, rfl⟩ := Nat.exists_eq_add_of_lt hFuel
    obtain ⟨lxr1, hTok, hRest1⟩ := nextToken_of_special tables .closeBracket (by decide) hRest
    rw [map_nil, append_nil]
    exact ⟨_, lxr1, hTok, by simp, fun pos => ⟨lxr1, rfl, hRest1⟩⟩
  | @more first text index indices hInteger hIndices ih =>
    obtain ⟨fuel, rfl, hFuel'⟩ := exists_fuel (n := text.length) hFuel (by grind)
    rw [cons_append, append_assoc] at hRest
    obtain ⟨lxr1, hTok, hRest1⟩ := nextToken_of_special tables .comma (by decide) hRest
    refine ⟨_, lxr1, hTok, by simp, fun pos => ?_⟩
    rw [map_cons, ← singleton_append, ← append_assoc]
    refine nextToken_bind (nextToken_of_first tables hInteger hIndices hRest1) fun lxr2 hRest2 => ?_
    obtain ⟨tok, lxr3, hTok', -, hParse⟩ := ih hFuel' hRest2 (subs ++ [.range (rangeOf1 index)])
    obtain ⟨lxr4, hParse, hRest4⟩ := hParse lxr2.chrPos
    exact ⟨lxr4, bind_eq_ok.mpr ⟨_, hTok', hParse⟩, hRest4⟩

theorem lt_rest_length {c : Rune} (hRest : lxr.rest = text ++ (c :: rest)) : text.length < lxr.rest.length + 1 := by
  rw [hRest, length_append]
  omega

theorem parseBracket_complete (hText : BracketText tables text sel) (hRest : lxr.rest = text ++ (.char ']' :: rest)) :
    ∃ lxr', parseBracket tables lxr = .ok (sel, lxr') ∧ lxr'.rest = rest := by
  cases hText with
  | star =>
    refine nextToken_bind (nextToken_of_special tables .star (by decide) hRest) fun lxr1 hRest1 => ?_
    exact nextToken_close hRest1 fun _ => rfl
  | strings hNames =>
    obtain @⟨first, text, name, names, hString, hNames⟩ := hNames
    rw [append_assoc] at hRest
    refine nextToken_bind (nextToken_of_string hString hRest) fun lxr1 hRest1 => ?_
    exact parseStrings_complete hNames (lt_rest_length hRest1) hRest1 [.name name]
  | integers hIndices =>
    obtain @⟨first, text, index, indices, hInteger, hIndices⟩ := hIndices
    rw [append_assoc] at hRest
    refine nextToken_bind (nextToken_of_first tables hInteger hIndices hRest) fun lxr1 hRest1 => ?_
    obtain ⟨tok, lxr2, hTok', hColon, hParse⟩ :=
      parseNumbers_complete hIndices (lt_rest_length hRest1) hRest1 [.range (rangeOf1 index)]
    obtain ⟨lxr3, hParse, hRest3⟩ := hParse lxr1.chrPos
    refine ⟨lxr3, ?_, hRest3⟩
    dsimp only
    rw [parseNumericSubscripts, hTok', ok_bind]
    dsimp only
    rw [if_neg hColon]
    exact hParse
  | range hRange =>
    obtain @⟨first, tail, start, range, hStart, hTail⟩ := hRange
    rw [append_assoc] at hRest
    cases hStart with
    | omitted =>
      refine nextToken_bind (nextToken_of_special tables .colon (by decide) hRest) fun lxr1 hRest1 => ?_
      obtain ⟨lxr2, hParse, hRest2⟩ := parseRange_complete hTail hRest1
      exact ⟨lxr2, bind_eq_ok.mpr ⟨_, hParse, rfl⟩, hRest2⟩
    | given hInteger =>
      refine nextToken_bind (nextToken_of_integer tables hInteger (by decide) hRest) fun lxr1 hRest1 => ?_
      refine nextToken_bind (nextToken_of_special tables .colon (by decide) hRest1) fun lxr2 hRest2 => ?_
      obtain ⟨lxr3, hParse, hRest3⟩ := parseRange_complete hTail hRest2
      exact ⟨lxr3, bind_eq_ok.mpr ⟨_, hParse, rfl⟩, hRest3⟩

theorem DotText.head (hText : DotText tables text sel) : ∀ r, (text ++ rest).head? = some r → r.chr ≠ '.' := by
  intro r hHead
  cases hText with
  | name hName =>
    obtain ⟨first, parts, rfl, hStart, -⟩ := hName
    cases hHead
    exact (identifier_excludes hStart).2.1
  | index hIndex =>
    cases text with
    | nil => exact absurd rfl hIndex.nonempty
    | cons first text =>
      cases hHead
      exact (decimal_excludes (hIndex.digits r mem_cons_self)).2
  | star =>
    cases hHead
    decide

theorem SelectorsText.head (hText : SelectorsText tables false text sels) :
    ∀ r, text.head? = some r → r = .char '.' ∨ r = .char '[' := by
  intro r hHead
  cases hText with
  | nil => cases hHead
  | dot hSel hRest =>
    cases hHead
    exact .inl rfl
  | bracket hSel hRest =>
    cases hHead
    exact .inr rfl
  | recurse hRest =>
    cases hHead
    exact .inl rfl

theorem not_identifierPart {r : Rune} (hRune : r = .char '.' ∨ r = .char '[') :
    Lexer.isIdentifierPart tables r.chr = false := by
  have hDot : tables.pattern '.' = true := tables.pattern_punctuation _ (by decide)
  have hBracket : tables.pattern '[' = true := tables.pattern_punctuation _ (by decide)
  rcases hRune with rfl | rfl
  · simp [Lexer.isIdentifierPart, Rune.chr, tables.digit_dot, hDot]
  · simp [Lexer.isIdentifierPart, Rune.chr, tables.digit_openBracket, hBracket]

theorem parseDot_complete (hText : DotText tables text sel) (hRest : lxr.rest = text ++ rest)
    (hHead : ∀ r, rest.head? = some r → r = .char '.' ∨ r = .char '[') :
    ∃ lxr', parseDot tables lxr = .ok (sel, lxr') ∧ lxr'.rest = rest := by
  cases hText with
  | name hName =>
    have hBoundary : ∀ r, rest.head? = some r → Lexer.isIdentifierPart tables r.chr = false :=
      fun r hr => not_identifierPart (hHead r hr)
    exact nextToken_bind (nextToken_complete (.identifier text) ⟨rfl, hName⟩ hRest hBoundary) fun lxr1 hRest1 =>
      ⟨lxr1, rfl, hRest1⟩
  | @index _ index hIndex =>
    have hBoundary : ∀ r, rest.head? = some r → isDecimal r.chr = false ∧ r.chr ≠ 'o' ∧ r.chr ≠ 'x' := by
      intro r hr
      rcases hHead r hr with rfl | rfl <;> decide
    exact nextToken_bind (nextToken_complete (.number index) hIndex hRest hBoundary) fun lxr1 hRest1 =>
      ⟨lxr1, rfl, hRest1⟩
  | star =>
    exact nextToken_bind (nextToken_of_special tables .star (by decide) hRest) fun lxr1 hRest1 => ⟨lxr1, rfl, hRest1⟩

theorem parseSelectors_complete (hText : SelectorsText tables takeStar text sels)
    (hFuel : text.length < fuel) (hRest : lxr.rest = text) (parsed : List (Selector GoString)) :
    parseSelectors tables fuel lxr takeStar parsed = .ok (parsed ++ sels) := by
  induction hText generalizing fuel lxr parsed with
  | nil =>
    obtain ⟨fuel, rfl⟩ := Nat.exists_eq_add_of_lt hFuel
    rw [parseSelectors, if_pos hRest, append_nil]
  | @dot takeStar text rest sel sels hSel hSels ih =>
    obtain ⟨fuel, rfl, hFuel'⟩ := exists_fuel (n := rest.length) hFuel (by grind)
    obtain ⟨lxr1, hTok, hRest1⟩ := @nextToken_complete tables _ _ _ (.special .dot) rfl hRest hSel.head
    obtain ⟨lxr2, hParse, hRest2⟩ := parseDot_complete hSel hRest1 hSels.head
    simp only [parseSelectors, hRest, reduceCtorEq, if_false, nextToken_eq_ok.mp hTok, hParse, ok_bind]
    rw [ih hFuel' hRest2, append_assoc, singleton_append]
  | @bracket takeStar text rest sel sels hSel hSels ih =>
    obtain ⟨fuel, rfl, hFuel'⟩ := exists_fuel (n := rest.length) hFuel (by grind)
    obtain ⟨lxr1, hTok, hRest1⟩ := nextToken_of_special tables .openBracket (by decide) hRest
    obtain ⟨lxr2, hParse, hRest2⟩ := parseBracket_complete hSel hRest1
    simp only [parseSelectors, hRest, reduceCtorEq, if_false, nextToken_eq_ok.mp hTok, hParse, ok_bind]
    rw [ih hFuel' hRest2, append_assoc, singleton_append]
  | @recurse takeStar rest sels hSels ih =>
    obtain ⟨fuel, rfl, hFuel'⟩ := exists_fuel (n := rest.length) hFuel (by grind)
    obtain ⟨lxr1, hTok, hRest1⟩ := nextToken_of_special tables .dotDot (by decide) hRest
    simp only [parseSelectors, hRest, reduceCtorEq, if_false, nextToken_eq_ok.mp hTok]
    rw [ih hFuel' hRest1, append_assoc, singleton_append]
  | @star rest sels hSels ih =>
    obtain ⟨fuel, rfl, hFuel'⟩ := exists_fuel (n := rest.length) hFuel (by grind)
    obtain ⟨lxr1, hTok, hRest1⟩ := nextToken_of_special tables .star (by decide) hRest
    simp only [parseSelectors, hRest, reduceCtorEq, if_false, nextToken_eq_ok.mp hTok, and_self, if_true]
    rw [ih hFuel' hRest1, append_assoc, singleton_append]

theorem parse_complete (hText : PathText tables source sels) : parseString tables source = .ok sels := by
  obtain ⟨rest, rfl, hSels⟩ := hText
  have hDollar : Identifier tables (.ofString "$") := ⟨.char '$', [], rfl, rfl, fun _ hMem => (by cases hMem)⟩
  have hBoundary : ∀ r, rest.head? = some r → Lexer.isIdentifierPart tables r.chr = false :=
    fun r hr => not_identifierPart (hSels.head r hr)
  obtain ⟨lxr1, hTok, hRest1⟩ := @nextToken_complete tables (newLexer (.char '$' :: rest)) (.ofString "$") rest
    (.identifier (.ofString "$")) ⟨rfl, hDollar⟩ rfl hBoundary
  have hFuel : rest.length < (newLexer (.char '$' :: rest)).rest.length + 1 := Nat.lt_succ_of_lt (Nat.lt_succ_self _)
  rw [parseString, parse, hTok, ok_bind]
  dsimp only
  rw [if_pos rfl, parseSelectors_complete hSels hFuel hRest1, nil_append]

/-- The parser returns, accepts the paths of the grammar and returns the selectors that it assigns to them. -/
theorem parseString_correct (tables : Tables) (source : GoString) : parseString tables source ≠ .error .outOfFuel ∧
      ∀ sels, parseString tables source = .ok sels ↔ PathText tables source sels :=
  ⟨parse_ne_outOfFuel, fun _ => ⟨parse_sound, parse_complete⟩⟩

end KubeStellar.JsonPath
