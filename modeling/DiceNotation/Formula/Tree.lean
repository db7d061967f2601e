import DiceNotation.Formula.Token

/-!
# The structure of a formula

The tokens of a formula are read into a tree. There are three levels of operators: sums below
products below factors. Sums and products associate to the left. A factor is a sign with the factor
it applies to, or a power, whose base is an operand and whose exponent is again a factor, so that
powers associate to the right and bind tighter than a sign on their left. An operand may be followed
by argument lists, each of which makes a call of what stands before it.

Reading is by recursive descent. Every reader returns how much is left with a proof that it is
shorter than what there was, and so the descent ends.
-/

namespace DiceNotation

/-- The operations that join two operands. -/
inductive Operation
  | add
  | sub
  | mul
  | div
  | rem
  | floorDiv
  | pow
  deriving DecidableEq

/-- The signs that may stand in front of an operand. -/
inductive Sign
  | plus
  | minus
  deriving DecidableEq

/-- The structure of a formula. -/
inductive Tree
  | name (text : Text)
  | literal (n : Nat)
  | signed (sign : Sign) (operand : Tree)
  | binary (operation : Operation) (left right : Tree)
  /-- A pair of parentheses with nothing between them. -/
  | tuple
  /-- A call, with or without an argument. -/
  | call (callee : Tree)
  deriving DecidableEq

/-- The levels of operators, from the loosest to the tightest. -/
inductive Level
  | sum
  | product
  | factor
  deriving DecidableEq

/-- The operation that a token stands for between two operands. -/
def Token.operation? : Token → Option Operation
  | .plus => some .add
  | .minus => some .sub
  | .star => some .mul
  | .slash => some .div
  | .percent => some .rem
  | .doubleSlash => some .floorDiv
  | .doubleStar => some .pow
  | _ => none

/-- The sign that a token stands for in front of an operand. -/
def Token.sign? : Token → Option Sign
  | .plus => some .plus
  | .minus => some .minus
  | _ => none

/-- Whether an operation can be applied at a level. -/
def Level.admits : Level → Operation → Bool
  | .sum, _ => true
  | .product, .add | .product, .sub => false
  | .product, _ => true
  | .factor, .pow => true
  | .factor, _ => false

/-- The level at which the right operand of an operation is read. -/
def Operation.rightLevel : Operation → Level
  | .add | .sub => .product
  | _ => .factor

/-- A tree read from fewer than `bound` tokens, with the tokens that are left. -/
structure Parsed (bound : Nat) where
  tree : Tree
  rest : List Token
  shorter : rest.length < bound

/-- The tokens of an argument list behind its parenthesis, without a leading star or double star. -/
def dropStars : List Token → List Token
  | .star :: rest => rest
  | .doubleStar :: rest => rest
  | tokens => tokens

theorem length_dropStars_le (tokens : List Token) : (dropStars tokens).length ≤ tokens.length := by
  unfold dropStars
  split <;> simp

mutual

/-- Reads a tree made of operators that the level admits. -/
def readTree? (level : Level) (tokens : List Token) : Option (Parsed tokens.length) :=
  match readOperand? tokens with
  | none => none
  | some first =>
    match readMore? level first.tree first.rest with
    | none => none
    | some last =>
      some ⟨last.tree, last.rest, Nat.lt_of_lt_of_le last.shorter first.shorter⟩
termination_by (tokens.length, 1)
decreasing_by
  · exact Prod.Lex.right _ Nat.zero_lt_one
  · exact Prod.Lex.left _ _ first.shorter

/-- Reads a signed factor, or an operand with the argument lists behind it. -/
def readOperand? (tokens : List Token) : Option (Parsed tokens.length) :=
  match tokens with
  | .name text :: rest => readCalls? (.name text) rest
  | .literal n :: rest => readCalls? (.literal n) rest
  | .leftParen :: .rightParen :: rest =>
    (readCalls? .tuple rest).map fun last => ⟨last.tree, last.rest, Nat.lt_succ_of_lt last.shorter⟩
  | .leftParen :: rest =>
    match readTree? .sum rest with
    | some ⟨tree, .rightParen :: after, shorter⟩ =>
      (readCalls? tree after).map fun last =>
        ⟨last.tree, last.rest, Nat.lt_succ_of_lt (Nat.lt_trans last.shorter shorter)⟩
    | _ => none
  | token :: rest =>
    match token.sign? with
    | none => none
    | some sign =>
      (readTree? .factor rest).map fun operand =>
        ⟨.signed sign operand.tree, operand.rest, Nat.lt_succ_of_lt operand.shorter⟩
  | [] => none
termination_by (tokens.length, 0)
decreasing_by
  all_goals
    simp only [List.length_cons] at *
    exact Prod.Lex.left _ _ (by omega)

/-- Applies the operations ahead that the level admits to the tree read so far, from left to
right. -/
def readMore? (level : Level) (left : Tree) (tokens : List Token) :
    Option (Parsed (tokens.length + 1)) :=
  match tokens with
  | [] => some ⟨left, [], Nat.lt_succ_self _⟩
  | token :: rest =>
    match token.operation? with
    | none => some ⟨left, token :: rest, Nat.lt_succ_self _⟩
    | some operation =>
      if level.admits operation then
        match readTree? operation.rightLevel rest with
        | none => none
        | some right =>
          (readMore? level (.binary operation left right.tree) right.rest).map fun last =>
            ⟨last.tree, last.rest,
              Nat.lt_succ_of_lt (Nat.lt_succ_of_lt (Nat.lt_of_lt_of_le last.shorter right.shorter))⟩
      else some ⟨left, token :: rest, Nat.lt_succ_self _⟩
termination_by (tokens.length, 0)
decreasing_by
  · exact Prod.Lex.left _ _ (Nat.lt_succ_self _)
  · exact Prod.Lex.left _ _ (Nat.lt_succ_of_lt right.shorter)

/-- Applies the argument lists ahead to the operand read so far. -/
def readCalls? (callee : Tree) (tokens : List Token) : Option (Parsed (tokens.length + 1)) :=
  match tokens with
  | .leftParen :: .rightParen :: rest =>
    (readCalls? (.call callee) rest).map fun last =>
      ⟨last.tree, last.rest, Nat.lt_succ_of_lt (Nat.lt_succ_of_lt last.shorter)⟩
  | .leftParen :: rest =>
    match readTree? .sum (dropStars rest) with
    | some ⟨_, .rightParen :: after, shorter⟩ =>
      (readCalls? (.call callee) after).map fun last =>
        ⟨last.tree, last.rest, Nat.lt_succ_of_lt (Nat.lt_succ_of_lt
          (Nat.lt_of_lt_of_le (Nat.lt_trans last.shorter shorter) (length_dropStars_le rest)))⟩
    | _ => none
  | tokens => some ⟨callee, tokens, Nat.lt_succ_self _⟩
termination_by (tokens.length, 0)
decreasing_by
  all_goals
    simp only [List.length_cons] at *
    have := length_dropStars_le rest
    exact Prod.Lex.left _ _ (by omega)

end

/-- The tree that all the tokens together stand for. -/
def Tree.ofTokens? (tokens : List Token) : Option Tree :=
  match readTree? .sum tokens with
  | some ⟨tree, [], _⟩ => some tree
  | _ => none

end DiceNotation
