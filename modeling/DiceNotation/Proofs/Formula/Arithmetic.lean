import DiceNotation.Proofs.Formula.Reading
import DiceNotation.Proofs.Formula.Word

/-!
# Formulas of arithmetic

An arithmetic tree (`Arith`) over slots and literals is written with single spaces between its words
and with parentheses around an operand just where its place is looser than the one that the operand
stands at, or where they are asked for besides (`Arith.words`). Written like this, it is compiled to
a formula with the value of the tree (`Arith.compile_text`), whatever parentheses are added, as long
as never too many of them are open.

* *Reading:* A tree is read from any writing of it, with all the parentheses that one may add
    (`Arith.IsWrittenAt`, `Arith.IsWrittenAt.isReadAt`). This is by induction on the writing, with
    the rules for reading in place, of which there is one for every constructor. The words of a tree
    are one of its writings (`Arith.isWrittenAt_words`).
* *Evaluating:* The formula is evaluated like the tree (`Arith.evaluate_tree`).
-/

namespace DiceNotation

/-- An arithmetic tree. -/
inductive Arith
  | slot (position : Nat)
  | literal (n : Nat)
  | signed (sign : Sign) (operand : Arith)
  | binary (operation : Operation) (left right : Arith)
  deriving DecidableEq

namespace Arith

/-! ## Writing -/

/-- The place of the tree in the order of binding. -/
def place : Arith → Place
  | .slot _ | .literal _ => .operand
  | .signed _ _ => .factor
  | .binary operation _ _ => operation.place

/-- Words, in parentheses if need be. -/
def enclose (need : Bool) (words : List Word) : List Word :=
  if need then .leftParen :: (words ++ [.rightParen]) else words

/-- Whether the tree stands in parentheses at a place: it is looser than the place, or the
parentheses are asked for. -/
def isEnclosed (extra : Arith → Bool) (place : Place) (t : Arith) : Bool :=
  extra t || !decide (place ≤ t.place)

/-- The words of the tree without parentheses around all of it. -/
def bare (extra : Arith → Bool) : Arith → List Word
  | .slot position => [.slot position]
  | .literal n => [.literal n]
  | .signed sign t => .sign sign :: enclose (isEnclosed extra .factor t) (t.bare extra)
  | .binary operation left right =>
    enclose (isEnclosed extra operation.leftPlace left) (left.bare extra) ++
      .operation operation ::
        enclose (isEnclosed extra operation.rightPlace right) (right.bare extra)

/-- The words of the tree at a place. -/
def wordsAt (extra : Arith → Bool) (place : Place) (t : Arith) : List Word :=
  enclose (isEnclosed extra place t) (t.bare extra)

/-- The words of the tree, with parentheses where they are needed and around the trees that `extra`
asks them for. -/
def words (extra : Arith → Bool) (t : Arith) : List Word :=
  t.wordsAt extra .sum

/-- The tree in writing. -/
def text (extra : Arith → Bool) (t : Arith) : Text :=
  joinWith [' '] ((t.words extra).map Word.text)

/-- No parentheses but the needed ones. -/
def minimal (_ : Arith) : Bool :=
  false

/-- Parentheses around every tree with an operand. -/
def full : Arith → Bool
  | .slot _ | .literal _ => false
  | .signed _ _ | .binary _ _ _ => true

/-- The positions of the slots in the tree. -/
def slots : Arith → List Nat
  | .slot position => [position]
  | .literal _ => []
  | .signed _ t => t.slots
  | .binary _ left right => left.slots ++ right.slots

/-- The literals in the tree. -/
def literals : Arith → List Nat
  | .slot _ => []
  | .literal n => [n]
  | .signed _ t => t.literals
  | .binary _ left right => left.literals ++ right.literals

/-! ## Values -/

/-- The value of the tree, from the bottom up and from left to right, if every slot has a number. -/
def value (number : Nat → Quantity) : Arith → Evaluation Quantity
  | .slot position => .ok (number position)
  | .literal n => .ok (.int n)
  | .signed sign t =>
    match t.value number with
    | .ok a => .ok (sign.apply a)
    | .error e => .error e
  | .binary operation left right =>
    match left.value number with
    | .error e => .error e
    | .ok a =>
      match right.value number with
      | .error e => .error e
      | .ok b => (operation.apply a b).toEvaluation

/-- The value of the tree as a number that can be reported. -/
def result (number : Nat → Quantity) (t : Arith) : Evaluation Number :=
  match t.value number with
  | .error e => .error e
  | .ok a =>
    match Number.ofQuantity a with
    | .ok n => .ok n
    | .error e => .fail e

/-- The scope gives the numbers to all slots of the tree. -/
def IsBound (scope : Scope) (number : Nat → Quantity) (t : Arith) : Prop :=
  ∀ position ∈ t.slots, scope.value? (slotIdentifier position) = some (number position)

instance (scope : Scope) (number : Nat → Quantity) (t : Arith) :
    Decidable (t.IsBound scope number) :=
  inferInstanceAs (Decidable (∀ position ∈ t.slots, _ = some (number position)))

/-- The tree that is read. -/
def tree : Arith → Tree
  | .slot position => .name (slotIdentifier position)
  | .literal n => .literal n
  | .signed sign t => .signed sign t.tree
  | .binary operation left right => .binary operation left.tree right.tree

variable {t : Arith} {extra : Arith → Bool} {scope : Scope} {number : Nat → Quantity}

/-- The formula is evaluated like the tree: nothing else than the slots is looked up. -/
theorem evaluate_tree (formula : Text) (h : t.IsBound scope number) :
    t.tree.evaluate formula scope = t.value number := by
  induction t with
  | slot position =>
    rw [tree, Tree.evaluate, h position (List.mem_singleton_self _)]
    rfl
  | literal n => rfl
  | signed sign t ih =>
    cases hvalue : t.value number <;> simp only [tree, Tree.evaluate, value, ih h, hvalue]
  | binary operation left right ihl ihr =>
    obtain ⟨hleft, hright⟩ := List.forall_mem_append.1 h
    cases ha : left.value number with
    | error e => simp only [tree, Tree.evaluate, value, ihl hleft, ha]
    | ok a =>
      cases hb : right.value number <;>
        simp only [tree, Tree.evaluate, value, ihl hleft, ha, ihr hright, hb]

theorem evaluate_eq_result (formula : Text) (h : t.IsBound scope number) :
    Formula.evaluate ⟨formula, .value t.tree⟩ scope = t.result number := by
  cases ha : t.value number with
  | error e => simp only [Formula.evaluate, Formula.quantity, result, evaluate_tree formula h, ha]
  | ok a =>
    cases hn : Number.ofQuantity a <;>
      simp only [Formula.evaluate, Formula.quantity, result, evaluate_tree formula h, ha, hn]

/-! ## Reading -/

/-- The words write the tree at a place. Any tree may stand in parentheses, needed or not, and as
often as one likes. -/
inductive IsWrittenAt : Place → Arith → List Word → Prop
  | slot (position : Nat) : IsWrittenAt .operand (.slot position) [.slot position]
  | literal (n : Nat) : IsWrittenAt .operand (.literal n) [.literal n]
  | signed {t : Arith} {words : List Word} (sign : Sign) :
    IsWrittenAt .factor t words → IsWrittenAt .factor (.signed sign t) (.sign sign :: words)
  | binary {left right : Arith} {words others : List Word} (operation : Operation) :
    IsWrittenAt operation.leftPlace left words → IsWrittenAt operation.rightPlace right others →
      IsWrittenAt operation.place (.binary operation left right)
        (words ++ .operation operation :: others)
  | parens {place : Place} {t : Arith} {words : List Word} :
    IsWrittenAt place t words → IsWrittenAt .operand t (.leftParen :: (words ++ [.rightParen]))
  | looser {place other : Place} {t : Arith} {words : List Word} :
    other ≤ place → IsWrittenAt place t words → IsWrittenAt other t words

/-- The word can be the first one of a tree. -/
def IsFirst (word : Word) : Prop :=
  word.token ≠ .rightParen ∧ word.token ≠ .star

variable {place : Place} {words : List Word}

theorem IsWrittenAt.exists_cons (h : t.IsWrittenAt place words) :
    ∃ word more, words = word :: more ∧ IsFirst word := by
  induction h with
  | slot position => exact ⟨_, _, rfl, nofun, nofun⟩
  | literal n => exact ⟨_, _, rfl, nofun, nofun⟩
  | signed sign _ _ =>
    refine ⟨_, _, rfl, ?_⟩
    cases sign <;> exact ⟨nofun, nofun⟩
  | binary operation _ _ ihleft _ =>
    obtain ⟨word, more, rfl, hfirst⟩ := ihleft
    exact ⟨_, _, rfl, hfirst⟩
  | parens _ _ => exact ⟨_, _, rfl, nofun, nofun⟩
  | looser _ _ ih => exact ih

/-- A tree is read from whatever it is written with. -/
theorem IsWrittenAt.isReadAt (h : t.IsWrittenAt place words) :
    IsReadAt place t.tree (words.map Word.token) := by
  induction h with
  | slot position => exact (isReadAsOperand_name _).isReadAt
  | literal n => exact (isReadAsOperand_literal n).isReadAt
  | signed sign _ ih => exact ih.signed sign.sign?_token
  | binary operation _ _ ihleft ihright =>
    rw [List.map_append, List.map_cons]
    exact ihleft.binary operation operation.operation?_token ihright
  | parens h ih =>
    obtain ⟨word, more, rfl, hword, -⟩ := h.exists_cons
    have hparens := (ih.parens hword).isReadAt
    simpa [Word.token] using hparens
  | looser hle _ ih => exact ih.mono hle

/-- With parentheses where they are needed, a tree is written at any place. -/
theorem isWrittenAt_wordsAt (h : t.IsWrittenAt t.place (t.bare extra)) (place : Place) :
    t.IsWrittenAt place (t.wordsAt extra place) := by
  rw [wordsAt, enclose]
  cases hneed : isEnclosed extra place t with
  | true => exact .looser (Place.le_operand place) (.parens h)
  | false =>
    have hplace : place ≤ t.place := by
      simpa [isEnclosed] using (Bool.or_eq_false_iff.1 hneed).2
    exact .looser hplace h

theorem isWrittenAt_bare (extra : Arith → Bool) (t : Arith) :
    t.IsWrittenAt t.place (t.bare extra) := by
  induction t with
  | slot position => exact .slot position
  | literal n => exact .literal n
  | signed sign t ih => exact .signed sign (isWrittenAt_wordsAt ih .factor)
  | binary operation left right ihleft ihright =>
    exact .binary operation (isWrittenAt_wordsAt ihleft operation.leftPlace)
      (isWrittenAt_wordsAt ihright operation.rightPlace)

/-- The tree is one of its writings, whatever parentheses are asked for. -/
theorem isWrittenAt_words (extra : Arith → Bool) (t : Arith) :
    t.IsWrittenAt .sum (t.words extra) :=
  isWrittenAt_wordsAt (isWrittenAt_bare extra t) .sum

/-! ## Nesting -/

/-- The most parentheses that are open at once in words, if `depth` are open in front of them. -/
def mostOpen (depth : Nat) : List Word → Nat
  | [] => depth
  | .leftParen :: words => mostOpen (depth + 1) words
  | .rightParen :: words => max depth (mostOpen (depth - 1) words)
  | _ :: words => mostOpen depth words

theorem le_mostOpen (depth : Nat) (words : List Word) : depth ≤ mostOpen depth words := by
  fun_induction mostOpen depth words with
  | case1 => exact Nat.le_refl _
  | case2 depth words ih => exact Nat.le_of_succ_le ih
  | case3 depth words ih => exact Nat.le_max_left _ _
  | case4 depth word words _ _ ih => exact ih

theorem isWithinNesting_iff_mostOpen_le {depth : Nat} {words : List Word}
    (hdepth : depth ≤ maxNesting) :
    isWithinNesting depth (words.map Word.token) = true ↔ mostOpen depth words ≤ maxNesting := by
  fun_induction mostOpen depth words with
  | case1 => exact iff_of_true rfl hdepth
  | case2 depth words ih =>
    rw [List.map_cons, Word.token, isWithinNesting, Bool.and_eq_true, decide_eq_true_iff]
    constructor
    · exact fun ⟨hlt, hwithin⟩ => (ih hlt).1 hwithin
    · intro hmost
      have hlt : depth < maxNesting := Nat.le_trans (le_mostOpen (depth + 1) words) hmost
      exact ⟨hlt, (ih hlt).2 hmost⟩
  | case3 depth words ih =>
    rw [Nat.max_le]
    exact (ih (Nat.le_trans (Nat.sub_le depth 1) hdepth)).trans
      ⟨fun hmost => ⟨hdepth, hmost⟩, And.right⟩
  | case4 depth word words hleft hright ih =>
    rw [List.map_cons, isWithinNesting.eq_4]
    · exact ih hdepth
    · exact fun heq => hleft (Word.token_eq_leftParen heq)
    · exact fun heq => hright (Word.token_eq_rightParen heq)

/-! ## Compiling -/

theorem IsWrittenAt.isShort (h : t.IsWrittenAt place words)
    (hliterals : ∀ n ∈ t.literals, (decimalText n).length ≤ literalDigits) :
    ∀ word ∈ words, word.IsShort := by
  induction h with
  | slot position => exact List.forall_mem_singleton.2 trivial
  | literal n => exact List.forall_mem_singleton.2 (hliterals n (List.mem_singleton_self n))
  | signed sign _ ih => exact List.forall_mem_cons.2 ⟨trivial, ih hliterals⟩
  | binary operation _ _ ihleft ihright =>
    obtain ⟨hleft, hright⟩ := List.forall_mem_append.1 hliterals
    exact List.forall_mem_append.2
      ⟨ihleft hleft, List.forall_mem_cons.2 ⟨trivial, ihright hright⟩⟩
  | parens _ ih =>
    refine List.forall_mem_cons.2 ⟨trivial, List.forall_mem_append.2 ⟨ih hliterals, ?_⟩⟩
    exact List.forall_mem_singleton.2 trivial
  | looser _ _ ih => exact ih hliterals

theorem IsWrittenAt.ofTokens? (h : t.IsWrittenAt place words) :
    FormulaBody.ofTokens? (words.map Word.token) =
      if mostOpen 0 words ≤ maxNesting then some (.value t.tree) else none := by
  have htree := h.isReadAt.ofTokens?
  have hwithin : isWithinNesting 0 (words.map Word.token) = true ↔ mostOpen 0 words ≤ maxNesting :=
    isWithinNesting_iff_mostOpen_le (Nat.zero_le maxNesting)
  obtain ⟨word, more, rfl, -, hstar⟩ := h.exists_cons
  rw [List.map_cons] at htree hwithin ⊢
  by_cases hnesting : mostOpen 0 (word :: more) ≤ maxNesting
  · rw [FormulaBody.ofTokens?, if_pos (hwithin.2 hnesting), if_pos hnesting, htree]
    · rfl
    · exact fun rest heq => hstar (List.cons.inj heq).1
  · rw [FormulaBody.ofTokens?.eq_def, if_neg (mt hwithin.1 hnesting), if_neg hnesting]

/-- What a tree is written with is compiled to the tree, unless too many parentheses are open. -/
theorem IsWrittenAt.compile_eq (h : t.IsWrittenAt place words)
    (hliterals : ∀ n ∈ t.literals, (decimalText n).length ≤ literalDigits) :
    Formula.compile (joinWith [' '] (words.map Word.text)) =
      if mostOpen 0 words ≤ maxNesting then
        .ok ⟨preparedText (joinWith [' '] (words.map Word.text)), .value t.tree⟩
      else .error .malformed := by
  obtain ⟨word, more, rfl, -⟩ := h.exists_cons
  rw [Formula.compile_joinWith_eq (List.cons_ne_nil _ _) (h.isShort hliterals), h.ofTokens?]
  by_cases hnesting : mostOpen 0 (word :: more) ≤ maxNesting
  · simp only [if_pos hnesting]
  · simp only [if_neg hnesting]

/-- A written tree is compiled to its tree. -/
theorem compile_text_eq (hliterals : ∀ n ∈ t.literals, (decimalText n).length ≤ literalDigits)
    (hnesting : mostOpen 0 (t.words extra) ≤ maxNesting) :
    Formula.compile (t.text extra) = .ok ⟨preparedText (t.text extra), .value t.tree⟩ :=
  ((isWrittenAt_words extra t).compile_eq hliterals).trans (if_pos hnesting)

/-- A tree that is written with the needed parentheses alone is compiled to a formula with the value
of the tree, or with its failure. Written with more parentheses, such as those of `full`, it is
compiled to a formula that agrees with this one. The tree is taken to be shallow enough for the
evaluator; of its limits on nesting, only that on parentheses is modelled (`maxNesting`). -/
theorem compile_text (t : Arith)
    (hliterals : ∀ n ∈ t.literals, (decimalText n).length ≤ literalDigits)
    (hnesting : mostOpen 0 (t.words minimal) ≤ 199) :
    ∃ formula, Formula.compile (t.text minimal) = .ok formula ∧
      (∀ scope number, t.IsBound scope number → formula.evaluate scope = t.result number) ∧
      ∀ extra, mostOpen 0 (t.words extra) ≤ 199 →
        ∃ other, Formula.compile (t.text extra) = .ok other ∧
          ∀ scope number, t.IsBound scope number →
            other.evaluate scope = formula.evaluate scope := by
  have hlimit : 199 ≤ maxNesting := by decide
  refine ⟨_, compile_text_eq hliterals (Nat.le_trans hnesting hlimit),
    fun scope number hbound => evaluate_eq_result _ hbound, fun extra hextra => ?_⟩
  refine ⟨_, compile_text_eq hliterals (Nat.le_trans hextra hlimit), fun scope number hbound => ?_⟩
  rw [evaluate_eq_result _ hbound, evaluate_eq_result _ hbound]

/-- A tree with signs on both sides of powers. -/
def signedPowers : Arith :=
  .binary .sub (.binary .mul (.binary .sub (.slot 0) (.slot 1)) (.literal 2))
    (.signed .minus (.binary .pow (.slot 0)
      (.signed .minus (.binary .pow (.slot 1) (.literal 3)))))

/-- The slots of that tree with their numbers. -/
def signedPowersScope : Scope :=
  .ofList [(slotName 0, .int 4), (slotName 1, .int (-1))]

theorem compile_signedPowers :
    (∀ n ∈ signedPowers.literals, (decimalText n).length ≤ literalDigits) ∧
      mostOpen 0 (signedPowers.words minimal) ≤ 199 ∧
      signedPowers.text minimal = "( $0 - $1 ) * 2 - - $0 ^ - $1 ^ 3".toList ∧
      signedPowers.text full =
        "( ( ( $0 - $1 ) * 2 ) - ( - ( $0 ^ ( - ( $1 ^ 3 ) ) ) ) )".toList ∧
      ∃ formula, Formula.compile (signedPowers.text minimal) = .ok formula ∧
        formula.evaluate signedPowersScope = .ok (.int 14) := by
  have hliterals : ∀ n ∈ signedPowers.literals, (decimalText n).length ≤ literalDigits := by
    decide
  have hnesting : mostOpen 0 (signedPowers.words minimal) ≤ 199 := by decide
  have hbound : signedPowers.IsBound signedPowersScope fun i => .int (if i = 0 then 4 else -1) := by
    decide
  obtain ⟨formula, hformula, hvalue, -⟩ := compile_text signedPowers hliterals hnesting
  refine ⟨hliterals, hnesting, by cbv, by cbv, formula, hformula, ?_⟩
  rw [hvalue _ _ hbound]
  cbv

end Arith

end DiceNotation
