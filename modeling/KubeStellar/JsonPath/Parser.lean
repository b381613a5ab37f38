import KubeStellar.Library.Strings
import Mathlib.Algebra.Group.Nat.Defs
import Mathlib.Data.Bool.AllAny
import Mathlib.Data.List.Basic

/-! # The lexer and the parser

`pkg/jsonpath/lexer.go` and `pkg/jsonpath/parser.go`. The lexer holds the input from the next rune on; the position of
that rune is in bytes. Every round of a loop consumes input, so that as many rounds as there are runes suffice.
-/

namespace KubeStellar.JsonPath

/-- An `int` after an addition: 64 bits, wrapping around. -/
def wrap (x : Int) : Int := (x + 2 ^ 63) % 2 ^ 64 - 2 ^ 63

theorem wrap_of_lt {x : Int} (hLow : 0 ≤ x) (hHigh : x < 2 ^ 63) : wrap x = x := by
  unfold wrap
  omega

theorem wrap_of_le {x : Int} (hLow : 2 ^ 63 ≤ x) (hHigh : x < 2 ^ 64) : wrap x < 0 := by
  unfold wrap
  omega

/-- What a number in a path can be: numbers are not signed and fit in an `int64`. -/
abbrev Numeral := Fin (2 ^ 63)

structure Range where
  start : Numeral
  /-- Negative after an overflow in `rangeOf1`. -/
  afterEnd : Option Int
  stride : Numeral
deriving DecidableEq

theorem Numeral.zero_lt : 0 < 2 ^ 63 := by decide

theorem Numeral.one_lt : 1 < 2 ^ 63 := by decide

def rangeOf1 (index : Numeral) : Range := ⟨index, some (wrap (index + 1)), ⟨1, Numeral.one_lt⟩⟩

inductive Selector (K : Type) where
  | name (name : K)
  | range (range : Range)
  | list (list : List (Selector K))
  | recurse
  | everyChild

@[elab_as_elim]
theorem Selector.listInduction {K : Type} {motive : Selector K → Prop} (name : ∀ n, motive (.name n))
    (range : ∀ r, motive (.range r)) (list : ∀ subs, (∀ sub ∈ subs, motive sub) → motive (.list subs))
    (recurse : motive .recurse) (everyChild : motive .everyChild) (sel : Selector K) : motive sel :=
  @Selector.rec K motive (fun subs => ∀ sub ∈ subs, motive sub) name range list recurse everyChild
    (fun _ hMem => absurd hMem List.not_mem_nil)
    (fun _ _ ihHead ihTail => List.forall_mem_cons.mpr ⟨ihHead, ihTail⟩) sel

def doubleQuote : Char := Char.ofNat 34

def singleQuote : Char := Char.ofNat 39

def backslash : Char := Char.ofNat 92

def isDecimal (c : Char) : Bool := '0' ≤ c && c ≤ '9'

structure Tables where
  /-- `unicode.In(r, Letter, Title, Lm, Other_ID_Start)`. -/
  start : Char → Bool
  /-- `unicode.In(r, Letter, Title, Lm, Other_ID_Continue)`. -/
  continued : Char → Bool
  /-- `unicode.IsDigit`. -/
  digit : Char → Bool
  /-- `unicode.In(r, Pattern_Syntax, Pattern_White_Space)`. -/
  pattern : Char → Bool
  literal : GoString → Option GoString
  start_decimal : ∀ c, isDecimal c = true → start c = false
  digit_dot : digit '.' = false
  digit_openBracket : digit '[' = false
  pattern_punctuation : ∀ c ∈ ['[', ']', '*', ',', ':', '.', doubleQuote, singleQuote], pattern c = true

theorem isAlpha_of_isDecimal {c : Char} (hDecimal : isDecimal c = true) : c.isAlpha = false := by
  have hHigh : c.val ≤ 57 := by
    simp [isDecimal] at hDecimal
    exact hDecimal.2
  have hAlpha : c.isAlpha = (decide (c.val ≥ 65 ∧ c.val ≤ 90) || (c.val ≥ 97 && c.val ≤ 122)) := rfl
  grind

def asciiTables : Tables where
  start c := c.isAlpha
  continued c := c.isAlpha
  digit := isDecimal
  pattern c := !c.isAlphanum
  literal src := some (src.drop 1).dropLast
  start_decimal _ hDecimal := isAlpha_of_isDecimal hDecimal
  digit_dot := by decide
  digit_openBracket := by decide
  pattern_punctuation := List.all_iff_forall_prop.mp (by decide)

inductive Special where
  | openBracket
  | closeBracket
  | star
  | comma
  | colon
  | dot
  | dotDot
deriving DecidableEq

inductive Token where
  | eof
  | special (val : Special)
  | string (val : GoString)
  | identifier (val : GoString)
  | number (val : Numeral)
deriving DecidableEq

inductive LexError where
  | unexpected (chr : Char)
  /-- `strconv.ErrSyntax`, with the string up to the end of the input. -/
  | unterminated (src : GoString)
  | notLiteral (src : GoString)
  /-- `strconv.ParseInt` fails. -/
  | notInt (src : GoString)
deriving DecidableEq

structure Lexer where
  chrPos : Nat
  rest : GoString
deriving DecidableEq

def newLexer (source : GoString) : Lexer := ⟨0, source⟩

def isOctal (c : Char) : Bool := '0' ≤ c && c < '8'

def isHex (c : Char) : Bool := isDecimal c || ('a' ≤ c && c ≤ 'f') || ('A' ≤ c && c ≤ 'F')

def decimal : Nat → GoString → Option Nat
  | value, [] => some value
  | value, r :: src => if isDecimal r.chr then decimal (10 * value + (r.chr.toNat - '0'.toNat)) src else none

/-- `strconv.ParseInt(src, 10, 64)` of a text that begins with a digit. -/
def parseInt (src : GoString) : Option Numeral :=
  match decimal 0 src with
  | none => none
  | some value => if h : value < 2 ^ 63 then some ⟨value, h⟩ else none

def scanString (close : Char) : GoString → Option (GoString × GoString)
  | [] => none
  | r :: rest =>
    if r.chr = close then some ([r], rest)
    else if r.chr = backslash then
      match rest with
      | [] => none
      | escaped :: rest => (scanString close rest).map fun scanned => (r :: escaped :: scanned.1, scanned.2)
    else (scanString close rest).map fun scanned => (r :: scanned.1, scanned.2)

def numberTail (first : Rune) (rest : GoString) : GoString :=
  if first.chr = '0' then
    match rest with
    | [] => []
    | r :: rest =>
      if r.chr = 'o' then r :: rest.takeWhile (fun r => isOctal r.chr)
      else if r.chr = 'x' then r :: rest.takeWhile (fun r => isHex r.chr)
      else (r :: rest).takeWhile fun r => isDecimal r.chr
  else rest.takeWhile fun r => isDecimal r.chr

namespace Lexer

variable (tables : Tables)

def isIdentifierStart (r : Char) : Bool :=
  r == '$' || r == '_' || (tables.start r && !tables.pattern r)

def isIdentifierPart (r : Char) : Bool :=
  r == '$' || r == '_' || r.toNat == 0x200C || r.toNat == 0x200D || tables.digit r ||
    (tables.continued r && !tables.pattern r)

variable (lxr : Lexer)

def after (src : GoString) : Lexer := ⟨lxr.chrPos + src.size, lxr.rest.drop src.length⟩

def nextString (quote : Rune) (rest : GoString) : Except LexError (Token × Lexer) :=
  match scanString quote.chr rest with
  | none => .error (.unterminated lxr.rest)
  | some (scanned, _) =>
    match tables.literal (quote :: scanned) with
    | none => .error (.notLiteral (quote :: scanned))
    | some val => .ok (.string val, lxr.after (quote :: scanned))

def nextNumber (first : Rune) (rest : GoString) : Except LexError (Token × Lexer) :=
  let numSrc := first :: numberTail first rest
  match parseInt numSrc with
  | none => .error (.notInt numSrc)
  | some num => .ok (.number num, lxr.after numSrc)

def nextIdentifierName (first : Rune) (rest : GoString) : Except LexError (Token × Lexer) :=
  let name := first :: rest.takeWhile fun r => isIdentifierPart tables r.chr
  .ok (.identifier name, lxr.after name)

def special : Char → Option Special
  | '[' => some .openBracket
  | ']' => some .closeBracket
  | '*' => some .star
  | ',' => some .comma
  | ':' => some .colon
  | _ => none

def next : Except LexError (Token × Lexer) :=
  match lxr.rest with
  | [] => .ok (.eof, lxr)
  | r :: rest =>
    match special r.chr with
    | some val => .ok (.special val, lxr.after [r])
    | none =>
      if r.chr = '.' then
        match rest with
        | [] => .ok (.special .dot, lxr.after [r])
        | r' :: _ =>
          if r'.chr = '.' then .ok (.special .dotDot, lxr.after [r, r']) else .ok (.special .dot, lxr.after [r])
      else if isDecimal r.chr then lxr.nextNumber r rest
      else if r.chr = doubleQuote ∨ r.chr = singleQuote then nextString tables lxr r rest
      else if isIdentifierStart tables r.chr then nextIdentifierName tables lxr r rest
      else .error (.unexpected r.chr)

end Lexer

inductive ParseError where
  | lexical (err : LexError)
  | noDollar
  | expected (pos : Nat) (what : String) (got : Token)
  /-- Syntax error at position …: the token that no branch takes. -/
  | unexpectedToken (pos : Nat) (got : Token)
  | unexpectedInput (pos : Nat) (err : LexError)
  | outOfFuel
deriving DecidableEq

def listOf {K : Type} : List (Selector K) → Selector K
  | [sub] => sub
  | subs => .list subs

variable (tables : Tables) (lxr : Lexer)

def nextToken : Except ParseError (Token × Lexer) :=
  match lxr.next tables with
  | .error err => .error (.lexical err)
  | .ok read => .ok read

/-- `parseRange` after the second colon. -/
def parseStride (start : Numeral) (afterEnd : Option Int) : Except ParseError (Range × Lexer) := do
  let (tok, lxr1) ← nextToken tables lxr
  match tok with
  | .special .closeBracket => .ok (⟨start, afterEnd, ⟨1, Numeral.one_lt⟩⟩, lxr1)
  | .number stride => do
    let (tok, lxr2) ← nextToken tables lxr1
    match tok with
    | .special .closeBracket => .ok (⟨start, afterEnd, stride⟩, lxr2)
    | tok => .error (.expected lxr1.chrPos "close bracket" tok)
  | tok => .error (.expected lxr.chrPos "number" tok)

/-- `parseRange` at the token after the end. -/
def parseAfterEnd (tok : Token) (col2pos : Nat) (lxr : Lexer) (start : Numeral) (afterEnd : Option Int) :
    Except ParseError (Range × Lexer) :=
  match tok with
  | .special .closeBracket => .ok (⟨start, afterEnd, ⟨1, Numeral.one_lt⟩⟩, lxr)
  | .special .colon => parseStride tables lxr start afterEnd
  | tok => .error (.expected col2pos "colon or close bracket" tok)

def parseRange (start : Numeral) : Except ParseError (Range × Lexer) := do
  let (tok, lxr1) ← nextToken tables lxr
  match tok with
  | .number afterEnd => do
    let (tok, lxr2) ← nextToken tables lxr1
    parseAfterEnd tables tok lxr1.chrPos lxr2 start (some afterEnd.val)
  | tok => parseAfterEnd tables tok lxr.chrPos lxr1 start none

/-- The loop of `parseStringSubscripts`. -/
def parseStrings : Nat → Lexer → List (Selector GoString) → Except ParseError (Selector GoString × Lexer)
  | 0, _, _ => .error .outOfFuel
  | fuel + 1, lxr, subs => do
    let (tok, lxr1) ← nextToken tables lxr
    match tok with
    | .special .closeBracket => .ok (listOf subs, lxr1)
    | .special .comma => do
      let (tok, lxr2) ← nextToken tables lxr1
      match tok with
      | .string val => parseStrings fuel lxr2 (subs ++ [.name val])
      | tok => .error (.expected lxr1.chrPos "string" tok)
    | tok => .error (.expected lxr.chrPos "comma or close bracket" tok)

def parseStringSubscripts (str1 : GoString) : Except ParseError (Selector GoString × Lexer) :=
  parseStrings tables (lxr.rest.length + 1) lxr [.name str1]

/-- The loop of `parseNumericSubscripts`, at a token. -/
def parseNumbers : Nat → Token → Nat → Lexer → List (Selector GoString) →
    Except ParseError (Selector GoString × Lexer)
  | 0, _, _, _, _ => .error .outOfFuel
  | fuel + 1, tok, nextPos, lxr, subs =>
    match tok with
    | .special .closeBracket => .ok (listOf subs, lxr)
    | .special .comma => do
      let (tok, lxr1) ← nextToken tables lxr
      match tok with
      | .number num => do
        let (tok, lxr2) ← nextToken tables lxr1
        parseNumbers fuel tok lxr1.chrPos lxr2 (subs ++ [.range (rangeOf1 num)])
      | tok => .error (.expected lxr.chrPos "number" tok)
    | tok => .error (.expected nextPos "comma or close bracket" tok)

def parseNumericSubscripts (num1 : Numeral) : Except ParseError (Selector GoString × Lexer) := do
  let (tok, lxr1) ← nextToken tables lxr
  if tok = .special .colon then do
    let (range, lxr2) ← parseRange tables lxr1 num1
    return (.range range, lxr2)
  else parseNumbers tables (lxr.rest.length + 1) tok lxr.chrPos lxr1 [.range (rangeOf1 num1)]

def parseDot : Except ParseError (Selector GoString × Lexer) := do
  let (tok, lxr1) ← nextToken tables lxr
  match tok with
  | .special .star => .ok (.everyChild, lxr1)
  | .identifier val => .ok (.name val, lxr1)
  | .number num1 => .ok (.range (rangeOf1 num1), lxr1)
  | tok => .error (.expected lxr.chrPos "star or identifer" tok)

def parseBracket : Except ParseError (Selector GoString × Lexer) := do
  let (tok, lxr1) ← nextToken tables lxr
  match tok with
  | .special .star => do
    let (tok, lxr2) ← nextToken tables lxr1
    match tok with
    | .special .closeBracket => .ok (.everyChild, lxr2)
    | tok => .error (.expected lxr1.chrPos "close bracket" tok)
  | .special .colon => do
    let (range, lxr2) ← parseRange tables lxr1 ⟨0, Numeral.zero_lt⟩
    return (.range range, lxr2)
  | .number num1 => parseNumericSubscripts tables lxr1 num1
  | .string str1 => parseStringSubscripts tables lxr1 str1
  | tok => .error (.expected lxr.chrPos "number or string" tok)

/-- The loop of `Parse`; the flag says that a bare star may come. -/
def parseSelectors : Nat → Lexer → Bool → List (Selector GoString) → Except ParseError (List (Selector GoString))
  | 0, _, _, _ => .error .outOfFuel
  | fuel + 1, lxr, takeStar, parsed =>
    if lxr.rest = [] then .ok parsed
    else
      match lxr.next tables with
      | .error err => .error (.unexpectedInput lxr.chrPos err)
      | .ok (.special .dot, lxr1) => do
        let (sel, lxr2) ← parseDot tables lxr1
        parseSelectors fuel lxr2 false (parsed ++ [sel])
      | .ok (.special .openBracket, lxr1) => do
        let (sel, lxr2) ← parseBracket tables lxr1
        parseSelectors fuel lxr2 false (parsed ++ [sel])
      | .ok (.special .dotDot, lxr1) => parseSelectors fuel lxr1 true (parsed ++ [.recurse])
      | .ok (tok, lxr1) =>
        if takeStar ∧ tok = .special .star then parseSelectors fuel lxr1 false (parsed ++ [.everyChild])
        else .error (.unexpectedToken lxr.chrPos tok)

def parse : Except ParseError (List (Selector GoString)) := do
  let (tok, lxr1) ← nextToken tables lxr
  if tok = .identifier (.ofString "$") then parseSelectors tables (lxr.rest.length + 1) lxr1 false []
  else .error .noDollar

def parseString (source : GoString) : Except ParseError (List (Selector GoString)) := parse tables (newLexer source)

end KubeStellar.JsonPath
