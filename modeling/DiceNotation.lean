import DiceNotation.Cursor
import DiceNotation.Setting
import DiceNotation.Proofs.Cursor
import DiceNotation.Reply.Basic
import DiceNotation.Proofs.Formula.Powerless
import DiceNotation.Proofs.Formula.Quotient
import DiceNotation.Proofs.Dice.Rolling
import DiceNotation.Proofs.Dice.Tally
import DiceNotation.Proofs.Dice.Lookalike
import DiceNotation.Proofs.Dice.Duality
import DiceNotation.Proofs.Dice.Dominance
import DiceNotation.Proofs.Modifier.Lookahead
import DiceNotation.Proofs.Modifier.Reroll
import DiceNotation.Proofs.Modifier.Fault
import DiceNotation.Proofs.Formula.Exact
import DiceNotation.Proofs.Formula.Grammar
import DiceNotation.Proofs.Formula.Renaming
import DiceNotation.Proofs.Request.Notation
import DiceNotation.Proofs.Request.Label
import DiceNotation.Proofs.Request.Layout
import DiceNotation.Proofs.Request.Agreement
import DiceNotation.Proofs.Request.Termination
import DiceNotation.Proofs.Request.Details
import DiceNotation.Proofs.Request.Limit
import DiceNotation.Proofs.Request.Spelling
import DiceNotation.Proofs.Reply.Answer
