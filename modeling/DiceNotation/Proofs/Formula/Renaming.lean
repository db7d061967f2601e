import DiceNotation.Proofs.Formula.Reading
import DiceNotation.Proofs.Formula.Value
import DiceNotation.Proofs.Formula.Word
import DiceNotation.Proofs.Lexeme
import Mathlib

/-!
# Slots under other numbers

Slots are never mixed up (`Formula.slots_kept_apart`): if the slots of a formula and those of its
values are numbered in another way, then the formula is compiled or refused as before, and has the
same number or fails for the same reason, whatever its slots are and however many values there are.

* *Reading:* Names are not looked into. Tokens with other names are read as the same tree with these
    other names (`Reads.rename`), by induction over the four readers together. So no name gets into
    a tree but those of tokens (`FormulaBody.name_mem_of_mem_names`): if only the other names are
    changed, the tree stays the same.
* *Evaluating:* A tree has the same value under other names if these stand for the same values
    (`Tree.evaluate_rename`), and then it depends on the values of its own names alone
    (`Tree.evaluate_congr`).
* *Spelling:* Formulas and values spell slots out separately, but as the same names, and different
    slots as different ones (`value?_slotScope`). What is written without slots and letters has no
    names (`Fragment.name_notMem_of_figures`), so all the names of a formula are those of its slots.
-/

namespace DiceNotation

/-! ## Names -/

/-- The token with another name, if it is a name. -/
def Token.rename (f : Text → Text) : Token → Token
  | .name text => .name (f text)
  | token => token

/-- The tree with other names. -/
def Tree.rename (f : Text → Text) : Tree → Tree
  | .name text => .name (f text)
  | .literal n => .literal n
  | .signed sign operand => .signed sign (operand.rename f)
  | .binary operation left right => .binary operation (left.rename f) (right.rename f)
  | .tuple => .tuple
  | .call callee => .call (callee.rename f)

/-- What is asked for, with other names. -/
def FormulaBody.rename (f : Text → Text) : FormulaBody → FormulaBody
  | .value tree => .value (tree.rename f)
  | .starred tree => .starred (tree.rename f)

/-- The names in a tree that are looked up or called. -/
def Tree.names : Tree → List Text
  | .name text => [text]
  | .literal _ => []
  | .signed _ operand => operand.names
  | .binary _ left right => left.names ++ right.names
  | .tuple => []
  | .call callee => callee.names

/-- The error under other names: it is about the other name, in the other prepared text. -/
def FormulaError.rename (f : Text → Text) (formula : Text) : FormulaError → FormulaError
  | .unknownName name _ => .unknownName (f name) formula
  | .unknownFunction name _ => .unknownFunction (f name) formula
  | error => error

/-- The outcome under other names, which differs in what errors say of names. -/
def Evaluation.rename {α : Type} (f : Text → Text) (formula : Text) :
    Evaluation α → Evaluation α
  | .error (.reported error) => .error (.reported (error.rename f formula))
  | outcome => outcome

variable {f : Text → Text} {level : Level} {tokens rest : List Token} {left callee tree : Tree}

/-! ## Reading -/

theorem Token.operation?_rename (token : Token) :
    (token.rename f).operation? = token.operation? := by
  cases token <;> rfl

theorem Token.sign?_rename (token : Token) : (token.rename f).sign? = token.sign? := by
  cases token <;> rfl

theorem Token.rename_eq_iff {token other : Token} (h : ∀ text, other ≠ .name text) :
    token.rename f = other ↔ token = other := by
  cases token with
  | name text => exact iff_of_false (h _).symm (h _).symm
  | _ => exact Iff.rfl

theorem head?_map_rename_ne {token : Token} (hname : ∀ text, token ≠ .name text)
    (h : tokens.head? ≠ some token) : (tokens.map (Token.rename f)).head? ≠ some token := by
  rw [List.head?_map]
  intro heq
  obtain ⟨first, hfirst, htoken⟩ := Option.map_eq_some_iff.1 heq
  rw [(Token.rename_eq_iff hname).1 htoken] at hfirst
  exact h hfirst

theorem dropStars_map_rename (tokens : List Token) :
    dropStars (tokens.map (Token.rename f)) = (dropStars tokens).map (Token.rename f) := by
  cases tokens with
  | nil => rfl
  | cons token rest => cases token <;> rfl

theorem Level.IsDone.rename (h : level.IsDone tokens) :
    level.IsDone (tokens.map (Token.rename f)) := by
  intro token operation htoken hoperation
  rw [List.head?_map] at htoken
  obtain ⟨first, hfirst, rfl⟩ := Option.map_eq_some_iff.1 htoken
  rw [first.operation?_rename] at hoperation
  exact h first operation hfirst hoperation

/-- No operand begins with a closing parenthesis. -/
theorem Reads.head?_ne (h : Reads level tokens tree rest) : tokens.head? ≠ some .rightParen := by
  obtain ⟨left, behind, hleft, -⟩ := h.exists_readsOperand
  obtain ⟨text, behind, rfl, -⟩ | ⟨n, behind, rfl, -⟩ | ⟨behind, rfl, -⟩ |
    ⟨behind, inner, after, rfl, -, -⟩ | ⟨token, sign, behind, operand, rfl, hsign, -, -⟩ :=
    hleft.cases
  · nofun
  · nofun
  · nofun
  · nofun
  · rintro ⟨⟩
    cases hsign

-- By induction on the number of tokens. An expression begins with an operand of the same tokens, so
-- its case comes after the operand's.
mutual

theorem Reads.rename {level : Level} {tokens rest : List Token} {tree : Tree} (f : Text → Text)
    (h : Reads level tokens tree rest) :
    Reads level (tokens.map (Token.rename f)) (tree.rename f) (rest.map (Token.rename f)) := by
  obtain ⟨left, behind, hleft, hmore⟩ := h.exists_readsOperand
  have hlt := hleft.length_lt
  exact (hleft.rename f).reads (hmore.rename f)
termination_by (tokens.length, 1)

theorem ReadsOperand.rename {tokens rest : List Token} {tree : Tree} (f : Text → Text)
    (h : ReadsOperand tokens tree rest) :
    ReadsOperand (tokens.map (Token.rename f)) (tree.rename f) (rest.map (Token.rename f)) := by
  obtain ⟨text, behind, rfl, hcalls⟩ | ⟨n, behind, rfl, hcalls⟩ | ⟨behind, rfl, hcalls⟩ |
    ⟨behind, inner, after, heq, hinner, hcalls⟩ |
    ⟨token, sign, behind, operand, rfl, hsign, hoperand, rfl⟩ := h.cases
  · exact readsOperand_name (hcalls.rename f)
  · exact readsOperand_literal (hcalls.rename f)
  · exact readsOperand_tuple (hcalls.rename f)
  · have hlength : tokens.length = behind.length + 1 := by rw [heq, List.length_cons]
    have hlt : after.length + 1 < behind.length := hinner.length_lt
    rw [heq]
    exact readsOperand_leftParen (head?_map_rename_ne nofun hinner.head?_ne) (hinner.rename f)
      (hcalls.rename f)
  · exact readsOperand_sign (token.sign?_rename.trans hsign) (hoperand.rename f)
termination_by (tokens.length, 0)

theorem ReadsMore.rename {level : Level} {tokens rest : List Token} {left tree : Tree}
    (f : Text → Text) (h : ReadsMore level left tokens tree rest) :
    ReadsMore level (left.rename f) (tokens.map (Token.rename f)) (tree.rename f)
      (rest.map (Token.rename f)) := by
  obtain ⟨rfl, rfl, hdone⟩ | ⟨token, operation, behind, right, after, heq, htoken, hadmits, hright,
    hmore⟩ := h.cases
  · exact hdone.rename.readsMore
  · have hlength : tokens.length = behind.length + 1 := by rw [heq, List.length_cons]
    have hlt := hright.length_lt
    rw [heq]
    exact readsMore_of_admits (token.operation?_rename.trans htoken) hadmits (hright.rename f)
      (hmore.rename f)
termination_by (tokens.length, 0)

theorem ReadsCalls.rename {tokens rest : List Token} {callee tree : Tree} (f : Text → Text)
    (h : ReadsCalls callee tokens tree rest) :
    ReadsCalls (callee.rename f) (tokens.map (Token.rename f)) (tree.rename f)
      (rest.map (Token.rename f)) := by
  obtain ⟨rfl, rfl, hhead⟩ | ⟨behind, rfl, hcalls⟩ |
    ⟨behind, argument, after, heq, hargument, hcalls⟩ := h.cases
  · exact readsCalls_of_head? (head?_map_rename_ne nofun hhead)
  · exact readsCalls_empty (hcalls.rename f)
  · have hlength : tokens.length = behind.length + 1 := by rw [heq, List.length_cons]
    have hlt : after.length + 1 < (dropStars behind).length := hargument.length_lt
    have hle := length_dropStars_le behind
    -- There is an argument, so the call is not read as one without any.
    have hhead : behind.head? ≠ some .rightParen := by
      intro hparen
      obtain ⟨more, rfl⟩ := List.head?_eq_some_iff.1 hparen
      exact hargument.head?_ne rfl
    have hstars := hargument.rename f
    rw [← dropStars_map_rename] at hstars
    rw [heq]
    exact readsCalls_argument (head?_map_rename_ne nofun hhead) hstars (hcalls.rename f)
termination_by (tokens.length, 0)

end

theorem Tree.ofTokens?_map_rename (f : Text → Text) (h : ofTokens? tokens = some tree) :
    ofTokens? (tokens.map (Token.rename f)) = some (tree.rename f) :=
  ((reads_of_ofTokens? h).rename f).ofTokens?

theorem isWithinNesting_map_rename (depth : Nat) (tokens : List Token) :
    isWithinNesting depth (tokens.map (Token.rename f)) = isWithinNesting depth tokens := by
  induction tokens generalizing depth with
  | nil => rfl
  | cons token rest ih => cases token <;> simp [Token.rename, isWithinNesting, ih]

/-- With other names, the tokens ask for the same under these names. -/
theorem FormulaBody.ofTokens?_map_rename {body : FormulaBody} (f : Text → Text)
    (h : ofTokens? tokens = some body) :
    ofTokens? (tokens.map (Token.rename f)) = some (body.rename f) := by
  rw [ofTokens?.eq_def] at h
  split at h
  · rename_i hwithin
    -- A star in front is no name, so it is there under the other names just if it was.
    rw [ofTokens?.eq_def, isWithinNesting_map_rename, if_pos hwithin]
    split at h
    · obtain ⟨tree, htree, rfl⟩ := Option.map_eq_some_iff.1 h
      exact congrArg (Option.map starred) (Tree.ofTokens?_map_rename f htree)
    · rename_i hstar
      obtain ⟨tree, htree, rfl⟩ := Option.map_eq_some_iff.1 h
      split
      · rename_i heq
        obtain ⟨first, more, rfl, hfirst, -⟩ := List.map_eq_cons_iff.1 heq
        obtain rfl : first = .star := (Token.rename_eq_iff (by nofun)).1 hfirst
        exact (hstar more rfl).elim
      · exact congrArg (Option.map value) (Tree.ofTokens?_map_rename f htree)
  · cases h

theorem Token.rename_eq_self {token : Token} (h : ∀ text, token = .name text → f text = text) :
    token.rename f = token := by
  cases token with
  | name text => exact congrArg name (h text rfl)
  | _ => rfl

theorem Tree.eq_of_rename_eq_self (h : tree.rename f = tree) :
    ∀ name ∈ tree.names, f name = name := by
  induction tree with
  | name text =>
    rw [rename, Tree.name.injEq] at h
    exact List.forall_mem_singleton.2 h
  | literal n | tuple => nofun
  | signed sign operand ih =>
    rw [rename, Tree.signed.injEq] at h
    exact ih h.2
  | binary operation left right ihl ihr =>
    rw [rename, Tree.binary.injEq] at h
    exact List.forall_mem_append.2 ⟨ihl h.2.1, ihr h.2.2⟩
  | call callee ih =>
    rw [rename, Tree.call.injEq] at h
    exact ih h

/-- Every name in what is asked for is a token. Otherwise it would be changed with all the names
that are none, but then the tokens, and with them what is asked for, stay what they are. -/
theorem FormulaBody.name_mem_of_mem_names {body : FormulaBody} (h : ofTokens? tokens = some body) :
    ∀ name ∈ body.tree.names, .name name ∈ tokens := by
  let f : Text → Text := fun name => if .name name ∈ tokens then name else 'x' :: name
  have hsame : tokens.map (Token.rename f) = tokens := by
    refine (List.map_congr_left fun token htoken => ?_).trans (List.map_id _)
    refine Token.rename_eq_self fun name hname => ?_
    exact if_pos (hname ▸ htoken)
  have hbody := ofTokens?_map_rename f h
  rw [hsame, h, Option.some.injEq] at hbody
  have htree : body.tree.rename f = body.tree := by
    cases body with
    | value tree => exact (FormulaBody.value.inj hbody).symm
    | starred tree => exact (FormulaBody.starred.inj hbody).symm
  intro name hname
  have hfixed : f name = name := Tree.eq_of_rename_eq_self htree name hname
  by_contra hnot
  rw [show f name = 'x' :: name from if_neg hnot] at hfixed
  exact List.cons_ne_self 'x' name hfixed

/-! ## Evaluating -/

section Evaluating

variable {formula other : Text} {scope scope' : Scope}

theorem Arithmetic.rename_toEvaluation {α : Type} (outcome : Arithmetic α) :
    outcome.toEvaluation.rename f formula = outcome.toEvaluation := by
  rcases outcome with (error | breakdown) | value <;> rfl

/-- Where the names in a tree have the same values under other names, so has the tree. -/
theorem Tree.evaluate_rename
    (h : ∀ name ∈ tree.names, scope'.value? (f name) = scope.value? name) :
    (tree.rename f).evaluate other scope' = (tree.evaluate formula scope).rename f other := by
  induction tree with
  | name text =>
    have hvalue := h text (List.mem_singleton_self text)
    rw [Tree.rename, evaluate, evaluate, hvalue]
    cases scope.value? text <;> rfl
  | literal n | tuple => rfl
  | signed sign operand ih =>
    rw [Tree.rename, evaluate, evaluate, ih h]
    rcases operand.evaluate formula scope with (error | breakdown) | value <;> rfl
  | binary operation left right ihl ihr =>
    obtain ⟨hleft, hright⟩ := List.forall_mem_append.1 h
    rw [Tree.rename, evaluate, evaluate, ihl hleft, ihr hright]
    rcases left.evaluate formula scope with (error | breakdown) | a
    · rfl
    · rfl
    · rcases right.evaluate formula scope with (error | breakdown) | b
      · rfl
      · rfl
      · exact (Arithmetic.rename_toEvaluation (operation.apply a b)).symm
  | call callee ih =>
    cases callee <;> rfl

theorem Tree.rename_id (tree : Tree) : tree.rename id = tree := by
  induction tree with
  | name text | literal n | tuple => rfl
  | signed sign operand ih => exact congrArg (Tree.signed sign) ih
  | binary operation left right ihl ihr => exact congrArg₂ (Tree.binary operation) ihl ihr
  | call callee ih => exact congrArg Tree.call ih

/-- Nothing but the names in a tree is looked up. -/
theorem Tree.evaluate_congr (h : ∀ name ∈ tree.names, scope'.value? name = scope.value? name) :
    tree.evaluate formula scope' = tree.evaluate formula scope :=
  calc tree.evaluate formula scope'
      = (tree.rename id).evaluate formula scope' := by rw [tree.rename_id]
    _ = (tree.evaluate formula scope).rename id formula := evaluate_rename h
    _ = (tree.rename id).evaluate formula scope := (evaluate_rename fun _ _ => rfl).symm
    _ = tree.evaluate formula scope := by rw [tree.rename_id]

namespace Formula

/-- With the other text, what is asked for under other names. -/
def rename (f : Text → Text) (text : Text) (formula : Formula) : Formula :=
  ⟨text, formula.body.rename f⟩

variable {formula : Formula} {text : Text}

theorem quantity_rename
    (h : ∀ name ∈ formula.body.tree.names, scope'.value? (f name) = scope.value? name) :
    (formula.rename f text).quantity scope' = (formula.quantity scope).rename f text := by
  obtain ⟨_, tree | tree⟩ := formula
  · exact Tree.evaluate_rename h
  · rfl

/-- No name is to blame if a value is no number that can be reported. -/
theorem rename_of_ofQuantity {value : Quantity} {error : FormulaError}
    (h : Number.ofQuantity value = .error error) : error.rename f text = error := by
  rcases value with n | x | z
  · rw [Number.ofQuantity] at h
    split at h <;> cases h
    rfl
  · rw [Number.ofQuantity] at h
    split at h
    · cases h
      rfl
    · split at h <;> cases h
  · cases h
    rfl

theorem evaluate_rename
    (h : ∀ name ∈ formula.body.tree.names, scope'.value? (f name) = scope.value? name) :
    (formula.rename f text).evaluate scope' = (formula.evaluate scope).rename f text := by
  rw [evaluate, evaluate, quantity_rename h]
  rcases formula.quantity scope with (error | breakdown) | value
  · rfl
  · rfl
  · cases hnumber : Number.ofQuantity value with
    | ok number => simp only [Evaluation.rename, hnumber]
    | error error =>
      simp only [Evaluation.rename, hnumber, Evaluation.fail, rename_of_ofQuantity hnumber]

theorem evaluate_congr
    (h : ∀ name ∈ formula.body.tree.names, scope'.value? name = scope.value? name) :
    formula.evaluate scope' = formula.evaluate scope := by
  have hquantity : formula.quantity scope' = formula.quantity scope := by
    obtain ⟨_, tree | tree⟩ := formula
    · exact Tree.evaluate_congr h
    · rfl
  rw [evaluate, evaluate, hquantity]

end Formula

end Evaluating

/-! ## Cutting -/

theorem appendTokens?_map (g : Token → Token) (tokens more : Option (List Token)) :
    appendTokens? (tokens.map (List.map g)) (more.map (List.map g)) =
      (appendTokens? tokens more).map (List.map g) := by
  rcases tokens with _ | tokens
  · rfl
  rcases more with _ | more
  · rfl
  · exact congrArg some List.map_append.symm

/-! ## Slots -/

/-- The slot with the name, if it is the name of one. -/
def slotOf? (name : Text) : Option Nat :=
  let position := numeralValue (name.drop slotWord.length)
  if slotIdentifier position = name then some position else none

theorem slotOf?_slotIdentifier (position : Nat) :
    slotOf? (slotIdentifier position) = some position := by
  have hvalue : numeralValue ((slotIdentifier position).drop slotWord.length) = position := by
    rw [slotIdentifier, List.drop_left, numeralValue_decimalText]
  rw [slotOf?, hvalue]
  exact if_pos rfl

/-- The name of a slot with another number. All other names stay what they are. -/
def renameSlot (ρ : Nat → Nat) (name : Text) : Text :=
  match slotOf? name with
  | some position => slotIdentifier (ρ position)
  | none => name

theorem renameSlot_slotIdentifier (ρ : Nat → Nat) (position : Nat) :
    renameSlot ρ (slotIdentifier position) = slotIdentifier (ρ position) := by
  rw [renameSlot, slotOf?_slotIdentifier]

/-- The value of a slot among some, of which the last one counts. -/
def number? (values : List (Nat × Quantity)) (position : Nat) : Option Quantity :=
  (values.reverse.find? fun entry => entry.1 == position).map (·.2)

/-- The scope in which slots have the given values. -/
def slotScope (values : List (Nat × Quantity)) : Scope :=
  .ofList (values.map fun entry => (slotName entry.1, entry.2))

/-- The values under other numbers of the slots. -/
def renumber (ρ : Nat → Nat) (values : List (Nat × Quantity)) : List (Nat × Quantity) :=
  values.map fun entry => (ρ entry.1, entry.2)

variable {ρ : Nat → Nat}

theorem find?_map_of_injective {α : Type} [BEq α] [LawfulBEq α] {g : Nat → α}
    (hg : Function.Injective g) (values : List (Nat × Quantity)) (position : Nat) :
    ((values.map fun entry => (g entry.1, entry.2)).reverse.find? fun entry =>
      entry.1 == g position).map (·.2) = number? values position := by
  have hsame : ∀ entry : Nat × Quantity, (g entry.1 == g position) = (entry.1 == position) :=
    fun entry => Bool.eq_iff_iff.2 (by rw [beq_iff_eq, beq_iff_eq, hg.eq_iff])
  rw [number?, ← List.map_reverse, List.find?_map, Option.map_map]
  simp only [Function.comp_def, hsame]

theorem number?_renumber (hρ : Function.Injective ρ) (values : List (Nat × Quantity))
    (position : Nat) : number? (renumber ρ values) (ρ position) = number? values position :=
  find?_map_of_injective hρ values position

/-- A slot has the value that is given for its number, and for no other. -/
theorem value?_slotScope (values : List (Nat × Quantity)) (position : Nat) :
    (slotScope values).value? (slotIdentifier position) = number? values position := by
  have hbindings : (slotScope values).bindings =
      (values.map fun entry => (slotIdentifier entry.1, entry.2)).reverse := by
    rw [slotScope, Scope.ofList, List.map_map]
    refine congrArg List.reverse (List.map_congr_left fun entry _ => ?_)
    exact congrArg (·, entry.2) (spellSlots_slotName entry.1)
  rw [Scope.value?, hbindings]
  exact find?_map_of_injective (fun _ _ => slotIdentifier_inj) values position

/-! ## Formulas of slots, numbers and operators -/

/-- Whether numbers and operators are written with the character. -/
def isFigure (c : Char) : Bool :=
  c.isDigit || operatorChars.contains c

/-- What stands between two spaces of a formula: a slot, or figures, which are a number or an
operator, or anything else that has neither a mark nor a letter. -/
inductive Fragment
  | slot (position : Nat)
  | figures (text : Text) (ne_nil : text ≠ []) (all : ∀ c ∈ text, isFigure c = true)

namespace Fragment

/-- The fragment as it is written. -/
def text : Fragment → Text
  | .slot position => slotName position
  | .figures text _ _ => text

/-- The fragment under other numbers of the slots. -/
def rename (ρ : Nat → Nat) : Fragment → Fragment
  | .slot position => .slot (ρ position)
  | .figures text ne_nil all => .figures text ne_nil all

/-- The formula that is written with the fragments. -/
def formula (fragments : List Fragment) : Text :=
  joinWith [' '] (fragments.map text)

/-- The tokens of the formula, if it can be cut into any. -/
def tokens? (fragments : List Fragment) : Option (List Token) :=
  tokenizeAll? ((fragments.map text).map preparedText)

variable {fragment : Fragment} {fragments : List Fragment}

theorem isFigure_cases {c : Char} (h : isFigure c = true) :
    c.isDigit = true ∨ c ∈ operatorChars :=
  (Bool.or_eq_true_iff.1 h).imp_right List.contains_iff_mem.1

theorem isNameStart_eq_false_of_isFigure {c : Char} (h : isFigure c = true) :
    isNameStart c = false := by
  rcases isFigure_cases h with hdigit | hoperator
  · exact isNameStart_eq_false_of_isDigit hdigit
  · exact eq_false_of_any_eq_false (by decide) hoperator

theorem mark_notMem_of_isFigure {text : Text} (all : ∀ c ∈ text, isFigure c = true) :
    '$' ∉ text :=
  fun hmark => absurd (all '$' hmark) (by decide)

theorem isSolid_text (fragment : Fragment) : IsSolid fragment.text := by
  cases fragment with
  | slot position => exact isSolid_slotName position
  | figures text ne_nil all =>
    refine ⟨ne_nil, fun c hc => ?_⟩
    rcases isFigure_cases (all c hc) with hdigit | hoperator
    · exact isBlank_eq_false_of_isDigit (isDigit_of_isDigit_ascii hdigit)
    · exact eq_false_of_any_eq_false (by decide) hoperator

/-! ### Tokens -/

/-- Figures are cut into tokens none of which is a name. -/
theorem name_notMem_of_figures {text name : Text} (all : ∀ c ∈ text, isFigure c = true)
    {tokens : List Token} (h : tokenize? (preparedText text) = some tokens) :
    .name name ∉ tokens := by
  intro hname
  rw [preparedText, spellSlots_eq_self (mark_notMem_of_isFigure all)] at h
  obtain ⟨c, hc, hbegins⟩ := exists_beginsWith_of_mem_tokenize? h hname
  have hstart : isNameStart c = true := hbegins
  rcases mem_spellPowers hc with htext | rfl
  · exact Bool.eq_false_iff.1 (isNameStart_eq_false_of_isFigure (all c htext)) hstart
  · exact absurd hstart (by decide)

theorem tokenize?_rename (ρ : Nat → Nat) (fragment : Fragment) :
    tokenize? (preparedText (fragment.rename ρ).text) =
      (tokenize? (preparedText fragment.text)).map (List.map (Token.rename (renameSlot ρ))) := by
  cases fragment with
  | slot position =>
    rw [rename, text, text, preparedText_slotName, preparedText_slotName,
      tokenize?_slotIdentifier, tokenize?_slotIdentifier]
    simp only [Option.map_some, List.map_cons, List.map_nil, Token.rename,
      renameSlot_slotIdentifier]
  | figures figures ne_nil all =>
    rw [rename, text]
    cases htokens : tokenize? (preparedText figures) with
    | none => rfl
    | some tokens =>
      -- Without names there is nothing to rename.
      have hsame : tokens.map (Token.rename (renameSlot ρ)) = tokens := by
        refine (List.map_congr_left fun token htoken => ?_).trans (List.map_id _)
        refine Token.rename_eq_self fun name hname => ?_
        exact absurd (hname ▸ htoken) (name_notMem_of_figures all htokens)
      exact congrArg some hsame.symm

theorem tokens?_rename (ρ : Nat → Nat) (fragments : List Fragment) :
    tokens? (fragments.map (rename ρ)) =
      (tokens? fragments).map (List.map (Token.rename (renameSlot ρ))) := by
  induction fragments with
  | nil => rfl
  | cons fragment fragments ih =>
    simp only [tokens?, List.map_cons, tokenizeAll?] at ih ⊢
    rw [ih, tokenize?_rename, appendTokens?_map]

/-- The names in a formula are those of its slots. -/
theorem exists_slot_of_name_mem {tokens : List Token} (htokens : tokens? fragments = some tokens)
    {name : Text} (h : .name name ∈ tokens) :
    ∃ position, .slot position ∈ fragments ∧ name = slotIdentifier position := by
  obtain ⟨written, hwritten, own, hown, hname⟩ := exists_text_of_mem_tokenizeAll? htokens h
  rw [List.map_map] at hwritten
  obtain ⟨fragment, hfragment, rfl⟩ := List.mem_map.1 hwritten
  cases fragment with
  | slot position =>
    rw [Function.comp_apply, text, preparedText_slotName, tokenize?_slotIdentifier] at hown
    cases hown
    cases List.mem_singleton.1 hname
    exact ⟨position, hfragment, rfl⟩
  | figures text ne_nil all => exact absurd hname (name_notMem_of_figures all hown)

/-! ### Compiling -/

/-- Under other numbers, fragments come back to what they were. -/
theorem map_rename_invFun (hρ : Function.Injective ρ) (fragments : List Fragment) :
    (fragments.map (rename ρ)).map (rename (Function.invFun ρ)) = fragments := by
  rw [List.map_map]
  refine (List.map_congr_left fun fragment _ => ?_).trans (List.map_id _)
  cases fragment with
  | slot position => exact congrArg slot (Function.leftInverse_invFun hρ position)
  | figures text ne_nil all => rfl

theorem compile_formula (hne : fragments ≠ []) :
    Formula.compile (formula fragments) =
      match (tokens? fragments).bind FormulaBody.ofTokens? with
      | some body => .ok ⟨preparedText (formula fragments), body⟩
      | none => .error .malformed :=
  Formula.compile_joinWith (mt List.map_eq_nil_iff.1 hne)
    (List.forall_mem_map.2 fun fragment _ => fragment.isSolid_text)

variable {compiled : Formula} {error : FormulaError}

theorem exists_tokens_of_compile (h : Formula.compile (formula fragments) = .ok compiled) :
    fragments ≠ [] ∧ ∃ tokens, tokens? fragments = some tokens ∧
      FormulaBody.ofTokens? tokens = some compiled.body := by
  obtain ⟨hne, htokens⟩ := Formula.exists_tokens_of_compile_joinWith
    (List.forall_mem_map.2 fun fragment _ => fragment.isSolid_text) h
  exact ⟨mt List.map_eq_nil_iff.2 hne, htokens⟩

theorem error_of_compile (h : Formula.compile (formula fragments) = .error error) :
    error = if fragments.isEmpty then .blank else .malformed := by
  cases fragments with
  | nil => exact (Except.error.inj h).symm
  | cons fragment fragments =>
    rw [compile_formula (List.cons_ne_nil _ _)] at h
    split at h
    · cases h
    · exact (Except.error.inj h).symm

theorem compile_rename (ρ : Nat → Nat) (h : Formula.compile (formula fragments) = .ok compiled) :
    Formula.compile (formula (fragments.map (rename ρ))) =
      .ok (compiled.rename (renameSlot ρ) (preparedText (formula (fragments.map (rename ρ))))) := by
  obtain ⟨hne, tokens, htokens, hbody⟩ := exists_tokens_of_compile h
  rw [compile_formula (mt List.map_eq_nil_iff.1 hne), tokens?_rename, htokens, Option.map_some,
    Option.bind_some, FormulaBody.ofTokens?_map_rename _ hbody]
  rfl

/-- If a formula is refused under other numbers, it is refused. -/
theorem error_of_compile_rename (ρ : Nat → Nat)
    (h : Formula.compile (formula (fragments.map (rename ρ))) = .error error) :
    Formula.compile (formula fragments) = .error error := by
  cases hcompile : Formula.compile (formula fragments) with
  | ok compiled =>
    rw [compile_rename ρ hcompile] at h
    cases h
  | error e => rw [error_of_compile hcompile, error_of_compile h, List.isEmpty_map]

theorem compile_rename_eq_error_iff (hρ : Function.Injective ρ) :
    Formula.compile (formula (fragments.map (rename ρ))) = .error error ↔
      Formula.compile (formula fragments) = .error error := by
  refine ⟨error_of_compile_rename ρ, fun h => error_of_compile_rename (Function.invFun ρ) ?_⟩
  rw [map_rename_invFun hρ]
  exact h

/-- The names in a formula that was compiled are those of its slots. -/
theorem exists_slot_of_mem_names (h : Formula.compile (formula fragments) = .ok compiled) :
    ∀ name ∈ compiled.body.tree.names,
      ∃ position, .slot position ∈ fragments ∧ name = slotIdentifier position := by
  obtain ⟨-, tokens, htokens, hbody⟩ := exists_tokens_of_compile h
  exact fun name hname =>
    exists_slot_of_name_mem htokens (FormulaBody.name_mem_of_mem_names hbody name hname)

/-- A slot on its own has its value. -/
theorem compile_slotName (position : Nat) :
    Formula.compile (slotName position) =
      .ok ⟨slotIdentifier position, .value (.name (slotIdentifier position))⟩ := by
  have hcompile := Formula.compile_joinWith_eq (List.cons_ne_nil (Word.slot position) [])
    (List.forall_mem_singleton.2 trivial)
  have htext : preparedText (joinWith [' '] ([Word.slot position].map Word.text)) =
      slotIdentifier position := preparedText_slotName position
  have htokens : FormulaBody.ofTokens? ([Word.slot position].map Word.token) =
      some (.value (.name (slotIdentifier position))) :=
    congrArg (Option.map FormulaBody.value) (isReadAsOperand_name _).isReadAt.ofTokens?
  rw [htext, htokens] at hcompile
  exact hcompile

end Fragment

namespace Formula

/-- Slots are never mixed up. Let the slots of a formula and those of its values be numbered in
another way, different ones differently. Then the formula is refused for the same reason if it is,
and otherwise it has the same number or fails for the same reason, which speaks of the other names.
Values of slots that are not in the formula may be added and left out. Each of any number of slots
has its own value. -/
theorem slots_kept_apart (fragments : List Fragment) (values : List (Nat × Quantity))
    (hρ : Function.Injective ρ) :
    (∀ error, compile (Fragment.formula (fragments.map (.rename ρ))) = .error error ↔
      compile (Fragment.formula fragments) = .error error) ∧
    (∀ formula, compile (Fragment.formula fragments) = .ok formula →
      (∃ other, compile (Fragment.formula (fragments.map (.rename ρ))) = .ok other ∧
        other.evaluate (slotScope (renumber ρ values)) =
          (formula.evaluate (slotScope values)).rename (renameSlot ρ) other.text) ∧
      ∀ others, (∀ position, .slot position ∈ fragments →
        number? others position = number? values position) →
          formula.evaluate (slotScope others) = formula.evaluate (slotScope values)) ∧
    ∀ position value, number? values position = some value →
      ∃ formula, compile (slotName position) = .ok formula ∧
        formula.evaluate (slotScope values) =
          match Number.ofQuantity value with
          | .ok number => .ok number
          | .error e => .fail e := by
  refine ⟨fun error => Fragment.compile_rename_eq_error_iff hρ, fun formula hcompile => ?_, ?_⟩
  · have hnames := Fragment.exists_slot_of_mem_names hcompile
    refine ⟨⟨_, Fragment.compile_rename ρ hcompile, evaluate_rename fun name hname => ?_⟩,
      fun others hothers => evaluate_congr fun name hname => ?_⟩
    · obtain ⟨position, -, rfl⟩ := hnames name hname
      rw [renameSlot_slotIdentifier, value?_slotScope, value?_slotScope, number?_renumber hρ]
    · obtain ⟨position, hposition, rfl⟩ := hnames name hname
      rw [value?_slotScope, value?_slotScope, hothers position hposition]
  · intro position value hvalue
    refine ⟨_, Fragment.compile_slotName position, ?_⟩
    have hname : (Tree.name (slotIdentifier position)).evaluate (slotIdentifier position)
        (slotScope values) = .ok value := by
      rw [Tree.evaluate, value?_slotScope, hvalue]
    cases hnumber : Number.ofQuantity value <;> simp only [evaluate, quantity, hname, hnumber]

/-- A formula with slots whose numbers begin alike. -/
def alikeSlots : List Fragment :=
  [.slot 1, .figures ['-'] (List.cons_ne_nil _ _) (List.forall_mem_singleton.2 rfl),
    .slot 10, .figures ['*'] (List.cons_ne_nil _ _) (List.forall_mem_singleton.2 rfl),
    .slot 11]

/-- Values of these slots, and of one that is not among them. -/
def alikeValues : List (Nat × Quantity) :=
  [(11, .int 2), (1, .int 5), (10, .int 7), (2, .int 9)]

/-- With a one put behind all numbers, `$1` becomes `$11`, and `$11` becomes `$111`. -/
theorem slots_kept_apart_alikeSlots :
    Function.Injective (fun position => 10 * position + 1) ∧
    Fragment.formula alikeSlots = "$1 - $10 * $11".toList ∧
    Fragment.formula (alikeSlots.map (.rename fun position => 10 * position + 1)) =
      "$11 - $101 * $111".toList ∧
    ∃ formula other, compile "$1 - $10 * $11".toList = .ok formula ∧
      compile "$11 - $101 * $111".toList = .ok other ∧
      formula.evaluate (slotScope alikeValues) = .ok (.int (-9)) ∧
      other.evaluate (slotScope (renumber (fun position => 10 * position + 1) alikeValues)) =
        .ok (.int (-9)) := by
  have hρ : Function.Injective fun position : Nat => 10 * position + 1 := by
    intro i j h
    simpa using h
  have hcompile : compile (Fragment.formula alikeSlots) = .ok ⟨"slot1 - slot10 * slot11".toList,
      .value (.binary .sub (.name "slot1".toList)
        (.binary .mul (.name "slot10".toList) (.name "slot11".toList)))⟩ := by cbv
  have hnumber : evaluate ⟨"slot1 - slot10 * slot11".toList,
      .value (.binary .sub (.name "slot1".toList)
        (.binary .mul (.name "slot10".toList) (.name "slot11".toList)))⟩ (slotScope alikeValues) =
      .ok (.int (-9)) := by decide +kernel
  obtain ⟨⟨other, hother, hevaluate⟩, -⟩ :=
    (slots_kept_apart alikeSlots alikeValues hρ).2.1 _ hcompile
  refine ⟨hρ, by decide, by decide, _, other, hcompile, hother, hnumber, ?_⟩
  rw [hevaluate, hnumber]
  rfl

end Formula

end DiceNotation
