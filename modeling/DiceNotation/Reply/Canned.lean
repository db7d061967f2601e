import DiceNotation.Text.Basic

/-!
# Canned replies

A few words, given as the whole request and in exactly this spelling, are answered with a fixed
text instead of a roll (`cannedReply?`).
-/

namespace DiceNotation

/-- What a user needs to know to write a request. -/
def helpLines : List String :=
  ["Supports standard dice notation, as well as some extended functionality.",
   "syntax: <roll>[<operator><roll><operator><roll>...][<operator><constant>] [label]",
   "roll: [<number of dice>]d<number of sides>[<modifiers>]",
   "      default number of dice: 1, at most 999",
   "number of sides: any integer of 2 or more, or f (for Fudge dice)",
   "operator: + - * / % ^ and parentheses",
   "constant: any integer",
   "modifiers:",
   "  ! - exploding dice, a maximum roll value causes an additional roll",
   "  d<number> - drop the lowest X rolls from this group",
   "  k<number> - keep the highest X rolls from this group",
   "  h - alter either d or k modifier to affect the highest rolls, e.g. dh3: drop the highest 3 rolls",
   "  l - alter either d or k modifier to affect the lowest rolls, e.g. kl2: keep the lowest 2 rolls",
   "  r - reroll based on certain rules",
   "    r4 - reroll all 4s",
   "    r<3 - reroll anything less than 3",
   "    r>=11 - reroll anything greater than or equal to 11",
   "modifiers can be combined, but d and k are mutually exclusive"]

/-- The help text, one line to each of its rules. -/
def helpText : String :=
  "\n".intercalate helpLines

/-- The fixed reply to a request, if it is one of the known words. -/
def cannedReply? (request : Text) : Option String :=
  match String.ofList request with
  | "barrel" => some "Donkey Kong rolls a barrel down the ramp and crushes you. -1000pts"
  | "rick" => some "No."
  | "katamari" => some "Na naaaaa, na na na na na na, na na Katamari Damacy...."
  | "help" | "syntax" => some helpText
  | _ => none

end DiceNotation
