import DiceNotation.Evaluator
import DiceNotation.Text.Digit
import DiceNotation.Text.Blank

/-!
# The words of a formula

A formula refers to the values of a request by slots, `$0`, `$1` and so on, and raises to a power by
`^`. Before it is read it is brought into the form that reports show (`preparedText`): the slot `$7`
becomes the name `slot7`, and `^` becomes `**`. The prepared text is then cut into tokens
(`tokenize?`), which fails on characters that belong to none, on numbers with zeros in front, and on
numbers that run into a name.

The tokens are those that formulas of requests are made of: names, whole numbers in decimal digits,
the signs of arithmetic and parentheses. The language of the evaluator has more of them. What it
says about texts with numbers of another form (fractions, exponents, other bases), with strings,
comparisons, commas or any sign beyond these is not modelled; here they are refused. Its reserved
words, constants among them, are tokens of their own, which no part of a formula begins or goes on
with, so that they are refused as well.
-/

namespace DiceNotation

/-- The word that stands for the mark of a slot. -/
def slotWord : Text := ['s', 'l', 'o', 't']

/-- A text with the marks of its slots spelled out. A mark without a digit behind it is no slot. -/
def spellSlots : Text → Text
  | [] => []
  | '$' :: c :: rest =>
    if isDigit c then slotWord ++ spellSlots (c :: rest) else '$' :: spellSlots (c :: rest)
  | c :: rest => c :: spellSlots rest

/-- A text with the sign of powers doubled. -/
def spellPowers : Text → Text
  | [] => []
  | c :: rest => if c == '^' then '*' :: '*' :: spellPowers rest else c :: spellPowers rest

/-- A formula in the form that is read and shown. -/
def preparedText (formula : Text) : Text :=
  spellPowers (spellSlots formula)

/-- The words and signs of a formula. -/
inductive Token
  | name (text : Text)
  /-- A word that looks like a name but is none. -/
  | reserved (text : Text)
  | literal (n : Nat)
  | plus
  | minus
  | star
  | slash
  | percent
  | doubleStar
  | doubleSlash
  | leftParen
  | rightParen
  deriving DecidableEq

/-- Whether a character separates the tokens of a formula. -/
def isFormulaBlank (c : Char) : Bool :=
  c == ' ' || c == '\t' || c == '\x0c'

/-- Whether a name can begin with the character. -/
def isNameStart (c : Char) : Bool :=
  c.isAlpha || c == '_'

/-- Whether a name can go on with the character. -/
def isNameChar (c : Char) : Bool :=
  isNameStart c || isDigit c

/-- The zeros of the digits that are mere variants of the ASCII ones. -/
def variantZeros : List Nat :=
  [0xff10, 0x1d7ce, 0x1d7d8, 0x1d7e2, 0x1d7ec, 0x1d7f6, 0x1fbf0]

/-- A character with a variant of an ASCII digit replaced by that digit; names that differ in such
variants are the same. -/
def plainChar (c : Char) : Char :=
  match variantZeros.find? fun first => first ≤ c.toNat && c.toNat < first + 10 with
  | some first => Char.ofNat ('0'.toNat + (c.toNat - first))
  | none => c

/-- The number that a run of ASCII digits denotes. Zeros in front are allowed to zero alone. -/
def literalValue? (digits : Text) : Option Nat :=
  if digits.all (· == '0') then some 0
  else if digits.head? = some '0' || literalDigits < digits.length then none
  else some (numeralValue digits)

/-- The token that a sign is. -/
def signToken? : Char → Option Token
  | '+' => some .plus
  | '-' => some .minus
  | '*' => some .star
  | '/' => some .slash
  | '%' => some .percent
  | '(' => some .leftParen
  | ')' => some .rightParen
  | _ => none

/-- The token that a word is. -/
def wordToken (word : Text) : Token :=
  if word ∈ reservedWords then .reserved word else .name word

theorem length_dropWhile_le (p : Char → Bool) (text : Text) :
    (text.dropWhile p).length ≤ text.length :=
  (List.dropWhile_sublist p).length_le

/-- Cuts a prepared formula into tokens, as long ones as possible. It is refused if some of it is
none of the tokens above, even where the evaluator has others. -/
def tokenize? (text : Text) : Option (List Token) :=
  match text with
  | [] => some []
  | '*' :: '*' :: rest => (tokenize? rest).map (.doubleStar :: ·)
  | '/' :: '/' :: rest => (tokenize? rest).map (.doubleSlash :: ·)
  | c :: rest =>
    if isFormulaBlank c then tokenize? rest
    else if isNameStart c then
      let word := wordToken ((c :: rest.takeWhile isNameChar).map plainChar)
      (tokenize? (rest.dropWhile isNameChar)).map (word :: ·)
    else if c.isDigit then
      let after := rest.dropWhile Char.isDigit
      if after.head?.any isNameChar then none
      else
        match literalValue? (c :: rest.takeWhile Char.isDigit), tokenize? after with
        | some n, some tokens => some (.literal n :: tokens)
        | _, _ => none
    else
      match signToken? c with
      | some token => (tokenize? rest).map (token :: ·)
      | none => none
termination_by text.length
decreasing_by
  all_goals
    have := length_dropWhile_le isNameChar rest
    have := length_dropWhile_le Char.isDigit rest
    simp_all only [List.length_cons]
    omega

/-- Whether never too many parentheses are open, if `depth` are open at the start. -/
def isWithinNesting (depth : Nat) : List Token → Bool
  | [] => true
  | .leftParen :: rest => decide (depth < maxNesting) && isWithinNesting (depth + 1) rest
  | .rightParen :: rest => isWithinNesting (depth - 1) rest
  | _ :: rest => isWithinNesting depth rest

end DiceNotation
