import DiceNotation.Request.Basic
import DiceNotation.Proofs.Formula.Arithmetic

/-!
# The grammar of formulas

The formulas that can be read are given by a grammar (`Derives`, `IsFormula`), which says nothing
about readers or levels. A formula of a request is compiled just if its tokens derive from it and
never too many parentheses are open; otherwise it is malformed
(`Request.compile_formula_iff_isFormula`).

* *Completeness:* What derives from a symbol is read at the place of the symbol, by induction on the
    derivation (`Derives.isRead`).
* *Soundness:* The tokens that a reader takes derive from a symbol. The four readers call each
    other, and so do the four lemmas about them (`Reads.exists_derives` and those that follow it).
    What has been read so far is handed over with the place of its symbol, and an operation ahead
    never takes its left operand from a tighter one.
-/

namespace DiceNotation

/-! ## Derivations -/

/-- The symbols of the grammar. -/
inductive Symbol
  | expr
  | term
  | factor
  | power
  | primary
  | atom
  | call
  deriving DecidableEq

/-- The tokens derive from the symbol. An iteration, such as the argument lists behind an atom,
grows at its end. -/
inductive Derives : Symbol → List Token → Prop
  /-- `expr = term (('+' | '-') term)*` -/
  | expr_term {tokens : List Token} : Derives .term tokens → Derives .expr tokens
  | expr_operation {token : Token} {left right : List Token} :
    token ∈ [.plus, .minus] → Derives .expr left → Derives .term right →
      Derives .expr (left ++ token :: right)
  /-- `term = factor (('*' | '/' | '%' | '//') factor)*` -/
  | term_factor {tokens : List Token} : Derives .factor tokens → Derives .term tokens
  | term_operation {token : Token} {left right : List Token} :
    token ∈ [.star, .slash, .percent, .doubleSlash] → Derives .term left → Derives .factor right →
      Derives .term (left ++ token :: right)
  /-- `factor = ('+' | '-') factor | power` -/
  | factor_sign {token : Token} {tokens : List Token} :
    token ∈ [.plus, .minus] → Derives .factor tokens → Derives .factor (token :: tokens)
  | factor_power {tokens : List Token} : Derives .power tokens → Derives .factor tokens
  /-- `power = primary | primary '**' factor` -/
  | power_primary {tokens : List Token} : Derives .primary tokens → Derives .power tokens
  | power_operation {base exponent : List Token} :
    Derives .primary base → Derives .factor exponent →
      Derives .power (base ++ .doubleStar :: exponent)
  /-- `primary = atom call*` -/
  | primary_atom {tokens : List Token} : Derives .atom tokens → Derives .primary tokens
  | primary_call {callee arguments : List Token} :
    Derives .primary callee → Derives .call arguments → Derives .primary (callee ++ arguments)
  /-- `call = '(' ')' | '(' ['*' | '**'] expr ')'` -/
  | call_empty : Derives .call [.leftParen, .rightParen]
  | call_expr {tokens : List Token} :
    Derives .expr tokens → Derives .call (.leftParen :: (tokens ++ [.rightParen]))
  | call_starred {token : Token} {tokens : List Token} :
    token ∈ [.star, .doubleStar] → Derives .expr tokens →
      Derives .call (.leftParen :: token :: (tokens ++ [.rightParen]))
  /-- `atom = name | number | '(' ')' | '(' expr ')'` -/
  | atom_name (text : Text) : Derives .atom [.name text]
  | atom_literal (n : Nat) : Derives .atom [.literal n]
  | atom_empty : Derives .atom [.leftParen, .rightParen]
  | atom_expr {tokens : List Token} :
    Derives .expr tokens → Derives .atom (.leftParen :: (tokens ++ [.rightParen]))

/-- `formula = expr | '*' expr` -/
def IsFormula (tokens : List Token) : Prop :=
  Derives .expr tokens ∨ ∃ rest, tokens = .star :: rest ∧ Derives .expr rest

/-- The symbol that the trees at the place derive from. -/
def Place.symbol : Place → Symbol
  | .sum => .expr
  | .product => .term
  | .factor => .factor
  | .operand => .primary

section Reading

variable {symbol : Symbol} {level : Level} {place : Place} {tokens rest done : List Token}
  {left callee tree : Tree}

namespace Derives

theorem expr_primary (h : Derives .primary tokens) : Derives .expr tokens :=
  .expr_term (.term_factor (.factor_power (.power_primary h)))

/-- What derives from the symbol of a place also derives from those of looser places. -/
theorem weaken {other : Place} (h : Derives place.symbol tokens) (hle : other ≤ place) :
    Derives other.symbol tokens := by
  cases other with
  | sum =>
    cases place with
    | sum => exact h
    | product => exact .expr_term h
    | factor => exact .expr_term (.term_factor h)
    | operand => exact .expr_primary h
  | product =>
    cases place with
    | sum => exact absurd hle (by decide)
    | product => exact h
    | factor => exact .term_factor h
    | operand => exact .term_factor (.factor_power (.power_primary h))
  | factor =>
    cases place with
    | sum | product => exact absurd hle (by decide)
    | factor => exact h
    | operand => exact .factor_power (.power_primary h)
  | operand =>
    cases place with
    | sum | product | factor => exact absurd hle (by decide)
    | operand => exact h

/-- All operations derive in one way. -/
theorem binary {operation : Operation} {token : Token} {behind : List Token}
    (hleft : Derives operation.leftPlace.symbol tokens)
    (hright : Derives operation.rightPlace.symbol behind)
    (htoken : token.operation? = some operation) :
    Derives operation.place.symbol (tokens ++ token :: behind) := by
  cases token <;> cases htoken
  case plus | minus => exact .expr_operation (by decide) hleft hright
  case star | slash | percent | doubleSlash => exact .term_operation (by decide) hleft hright
  case doubleStar => exact .factor_power (.power_operation hleft hright)

end Derives

/-! ## Completeness -/

/-- What derives from a symbol begins with no closing parenthesis and no star. -/
theorem Derives.exists_cons (h : Derives symbol tokens) :
    ∃ token more, tokens = token :: more ∧ token ∉ [.rightParen, .star, .doubleStar] := by
  induction h with
  | expr_operation _ _ _ ih | term_operation _ _ _ ih | power_operation _ _ ih
  | primary_call _ _ ih =>
    obtain ⟨token, more, rfl, htoken⟩ := ih
    exact ⟨token, _, rfl, htoken⟩
  | factor_sign htoken =>
    refine ⟨_, _, rfl, ?_⟩
    rcases List.mem_pair.1 htoken with rfl | rfl <;> decide
  | expr_term _ ih | term_factor _ ih | factor_power _ ih | power_primary _ ih
  | primary_atom _ ih => exact ih
  | call_empty | call_expr | call_starred | atom_empty | atom_expr =>
    exact ⟨_, _, rfl, by decide⟩
  | atom_name | atom_literal => exact ⟨_, _, rfl, by simp⟩

theorem Derives.length_pos (h : Derives symbol tokens) : 0 < tokens.length := by
  obtain ⟨token, more, rfl, -⟩ := h.exists_cons
  exact Nat.succ_pos _

/-- The tokens are read as what derives from the symbol. -/
def Symbol.IsRead : Symbol → List Token → Prop
  | .expr, tokens => ∃ tree, IsReadAt .sum tree tokens
  | .term, tokens => ∃ tree, IsReadAt .product tree tokens
  | .factor, tokens | .power, tokens => ∃ tree, IsReadAt .factor tree tokens
  | .primary, tokens | .atom, tokens => ∃ tree, IsReadAsOperand tree tokens
  | .call, tokens => ∀ callee rest last whole, ReadsCalls (.call callee) rest whole last →
    ReadsCalls callee (tokens ++ rest) whole last

theorem Derives.isRead (h : Derives symbol tokens) : symbol.IsRead tokens := by
  induction h with
  | expr_term _ ih | term_factor _ ih =>
    obtain ⟨tree, ih⟩ := ih
    exact ⟨tree, ih.mono (by decide)⟩
  | power_primary _ ih =>
    obtain ⟨tree, ih⟩ := ih
    exact ⟨tree, ih.isReadAt.mono (by decide)⟩
  | factor_power _ ih | primary_atom _ ih => exact ih
  | expr_operation htoken _ _ ihl ihr =>
    obtain ⟨left, ihl⟩ := ihl
    obtain ⟨right, ihr⟩ := ihr
    simp only [List.mem_cons, List.not_mem_nil, or_false] at htoken
    rcases htoken with rfl | rfl
    · exact ⟨_, .binary .add rfl ihl ihr⟩
    · exact ⟨_, .binary .sub rfl ihl ihr⟩
  | term_operation htoken _ _ ihl ihr =>
    obtain ⟨left, ihl⟩ := ihl
    obtain ⟨right, ihr⟩ := ihr
    simp only [List.mem_cons, List.not_mem_nil, or_false] at htoken
    rcases htoken with rfl | rfl | rfl | rfl
    · exact ⟨_, .binary .mul rfl ihl ihr⟩
    · exact ⟨_, .binary .div rfl ihl ihr⟩
    · exact ⟨_, .binary .rem rfl ihl ihr⟩
    · exact ⟨_, .binary .floorDiv rfl ihl ihr⟩
  | power_operation _ _ ihl ihr =>
    obtain ⟨base, ihl⟩ := ihl
    obtain ⟨exponent, ihr⟩ := ihr
    exact ⟨_, .binary .pow rfl ihl.isReadAt ihr⟩
  | factor_sign htoken _ ih =>
    obtain ⟨tree, ih⟩ := ih
    simp only [List.mem_cons, List.not_mem_nil, or_false] at htoken
    rcases htoken with rfl | rfl <;> exact ⟨_, ih.signed rfl⟩
  | primary_call _ _ ihc iha =>
    obtain ⟨callee, ihc⟩ := ihc
    refine ⟨.call callee, fun rest last whole hcalls => ?_⟩
    rw [List.append_assoc]
    exact ihc (iha callee rest last whole hcalls)
  | call_empty => exact fun _ _ _ _ => readsCalls_empty
  | call_expr h ih =>
    intro callee rest last whole hcalls
    obtain ⟨argument, ih⟩ := ih
    obtain ⟨token, more, rfl, htoken⟩ := h.exists_cons
    rw [List.cons_append, List.append_assoc]
    simp only [List.mem_cons, List.not_mem_nil, or_false, not_or] at htoken
    -- The argument begins with no star of its own, so that none is dropped.
    refine ih.readsCalls (fun heq => htoken.1 (Option.some.inj heq)) ?_ hcalls
    rw [List.cons_append, dropStars.eq_3]
    · rfl
    · exact fun _ heq => htoken.2.1 (List.cons.inj heq).1
    · exact fun _ heq => htoken.2.2 (List.cons.inj heq).1
  | call_starred htoken _ ih =>
    intro callee rest last whole hcalls
    obtain ⟨argument, ih⟩ := ih
    rw [List.cons_append, List.cons_append, List.append_assoc]
    simp only [List.mem_cons, List.not_mem_nil, or_false] at htoken
    rcases htoken with rfl | rfl <;> exact ih.readsCalls nofun rfl hcalls
  | atom_name text => exact ⟨_, isReadAsOperand_name text⟩
  | atom_literal n => exact ⟨_, isReadAsOperand_literal n⟩
  | atom_empty => exact ⟨.tuple, fun _ _ _ => readsOperand_tuple⟩
  | atom_expr h ih =>
    obtain ⟨tree, ih⟩ := ih
    obtain ⟨token, more, rfl, htoken⟩ := h.exists_cons
    exact ⟨tree, ih.parens fun heq => htoken (heq ▸ List.mem_cons_self)⟩

/-! ## Soundness -/

theorem Token.mem_of_sign? {token : Token} {sign : Sign} (h : token.sign? = some sign) :
    token ∈ [.plus, .minus] := by
  cases token <;> cases h <;> decide

/-- An argument list may begin with a star. -/
theorem Derives.exists_call {behind : List Token} (h : Derives .expr tokens)
    (hbehind : dropStars behind = tokens ++ .rightParen :: rest) :
    ∃ arguments, .leftParen :: behind = arguments ++ rest ∧ Derives .call arguments := by
  have hsplit : ∀ front : List Token,
      .leftParen :: (front ++ tokens ++ .rightParen :: rest) =
        .leftParen :: (front ++ (tokens ++ [.rightParen])) ++ rest := by simp
  unfold dropStars at hbehind
  split at hbehind
  · rw [hbehind]
    exact ⟨_, hsplit [.star], .call_starred (by decide) h⟩
  · rw [hbehind]
    exact ⟨_, hsplit [.doubleStar], .call_starred (by decide) h⟩
  · rw [hbehind]
    exact ⟨_, hsplit [], .call_expr h⟩

mutual

theorem Reads.exists_derives {level : Level} {tokens rest : List Token} {tree : Tree}
    (h : Reads level tokens tree rest) :
    ∃ front, tokens = front ++ rest ∧ Derives level.place.symbol front ∧
      rest.head? ≠ some .leftParen ∧ level.IsDone rest := by
  obtain ⟨left, behind, hleft, hmore⟩ := h.exists_readsOperand
  have hlt := hleft.length_lt
  obtain ⟨front, place, htokens, hfront, hplace, hbehind⟩ := hleft.exists_derives
  have hlevel : level.place ≤ place := Place.le_trans level.place_le_factor hplace
  obtain ⟨more, hmore, hall⟩ := hmore.exists_derives hfront hlevel hbehind
  exact ⟨front ++ more, by rw [htokens, hmore, List.append_assoc], hall⟩
termination_by (tokens.length, 1)

/-- An operand is a signed factor, or tighter. -/
theorem ReadsOperand.exists_derives {tokens rest : List Token} {tree : Tree}
    (h : ReadsOperand tokens tree rest) :
    ∃ front place, tokens = front ++ rest ∧ Derives place.symbol front ∧ .factor ≤ place ∧
      Follows place rest := by
  -- Behind an atom there may be argument lists.
  have hatom : ∀ {atom behind : List Token} {operand : Tree}, Derives .atom atom →
      tokens = atom ++ behind → ReadsCalls operand behind tree rest →
      ∃ front place, tokens = front ++ rest ∧ Derives place.symbol front ∧ .factor ≤ place ∧
        Follows place rest := by
    intro atom behind operand hatom htokens hcalls
    have hlt : behind.length < tokens.length := by
      rw [htokens, List.length_append]
      exact Nat.lt_add_of_pos_left hatom.length_pos
    obtain ⟨front, hbehind, hall, hparen⟩ := hcalls.exists_derives (.primary_atom hatom)
    exact ⟨atom ++ front, .operand, by rw [htokens, hbehind, List.append_assoc], hall, by decide,
      follows_operand_iff.2 hparen⟩
  obtain ⟨text, behind, rfl, hcalls⟩ | ⟨n, behind, rfl, hcalls⟩ | ⟨behind, rfl, hcalls⟩ |
    ⟨behind, inner, after, heq, hinner, hcalls⟩ |
    ⟨token, sign, behind, operand, heq, htoken, hoperand, -⟩ := h.cases
  · exact hatom (.atom_name text) rfl hcalls
  · exact hatom (.atom_literal n) rfl hcalls
  · exact hatom .atom_empty rfl hcalls
  · have hlength : tokens.length = behind.length + 1 := by rw [heq, List.length_cons]
    obtain ⟨front, hbehind, hfront, -⟩ := hinner.exists_derives
    refine hatom (.atom_expr hfront) ?_ hcalls
    rw [heq, hbehind, List.cons_append, List.append_assoc, List.singleton_append]
  · have hlength : tokens.length = behind.length + 1 := by rw [heq, List.length_cons]
    obtain ⟨front, hbehind, hfront, hrest⟩ := hoperand.exists_derives
    -- The operand of a sign stops where the exponent of a power does.
    have hfollows : Follows Operation.pow.place rest := follows_iff_isDone.2 hrest
    exact ⟨token :: front, .factor, by rw [heq, hbehind, List.cons_append],
      .factor_sign (Token.mem_of_sign? htoken) hfront, by decide, hfollows⟩
termination_by (tokens.length, 0)

/-- What follows the operations derives from the symbol of the level, if so did what stands in
front of them. -/
theorem ReadsMore.exists_derives {level : Level} {place : Place} {tokens rest done : List Token}
    {left tree : Tree} (h : ReadsMore level left tokens tree rest)
    (hdone : Derives place.symbol done) (hplace : level.place ≤ place)
    (htokens : Follows place tokens) :
    ∃ front, tokens = front ++ rest ∧ Derives level.place.symbol (done ++ front) ∧
      rest.head? ≠ some .leftParen ∧ level.IsDone rest := by
  obtain ⟨-, rfl, hend⟩ | ⟨token, operation, behind, right, after, heq, htoken, hadmits, hright,
    hmore⟩ := h.cases
  · refine ⟨[], rfl, ?_, htokens.head?_ne, hend⟩
    rw [List.append_nil]
    exact hdone.weaken hplace
  · have hlt := hright.length_lt
    have hlength : tokens.length = behind.length + 1 := by rw [heq, List.length_cons]
    obtain ⟨front, hbehind, hfront, hafter⟩ := hright.exists_derives
    rw [operation.place_rightLevel] at hfront
    -- What was read so far is tight enough to be the left operand, as the operation follows it.
    have hleft : Derives operation.leftPlace.symbol done :=
      hdone.weaken ((htokens token (by rw [heq]; rfl)).2 operation htoken)
    obtain ⟨more, hmore, hall, hrest⟩ := hmore.exists_derives (hleft.binary hfront htoken)
      (Level.admits_iff.1 hadmits) (follows_iff_isDone.2 hafter)
    refine ⟨token :: (front ++ more), ?_, ?_, hrest⟩
    · rw [heq, hbehind, hmore, List.cons_append, List.append_assoc]
    · simpa using hall
termination_by (tokens.length, 0)

theorem ReadsCalls.exists_derives {tokens rest done : List Token} {callee tree : Tree}
    (h : ReadsCalls callee tokens tree rest) (hdone : Derives .primary done) :
    ∃ front, tokens = front ++ rest ∧ Derives .primary (done ++ front) ∧
      rest.head? ≠ some .leftParen := by
  -- Every argument list is added to what has been read so far.
  have hcall : ∀ {arguments behind : List Token}, Derives .call arguments →
      tokens = arguments ++ behind → ReadsCalls (.call callee) behind tree rest →
      ∃ front, tokens = front ++ rest ∧ Derives .primary (done ++ front) ∧
        rest.head? ≠ some .leftParen := by
    intro arguments behind harguments htokens hcalls
    have hlt : behind.length < tokens.length := by
      rw [htokens, List.length_append]
      exact Nat.lt_add_of_pos_left harguments.length_pos
    obtain ⟨front, hbehind, hall, hparen⟩ :=
      hcalls.exists_derives (.primary_call hdone harguments)
    exact ⟨arguments ++ front, by rw [htokens, hbehind, List.append_assoc],
      by rwa [← List.append_assoc], hparen⟩
  obtain ⟨-, rfl, hparen⟩ | ⟨behind, rfl, hcalls⟩ |
    ⟨behind, argument, after, heq, hargument, hcalls⟩ := h.cases
  · exact ⟨[], rfl, by rwa [List.append_nil], hparen⟩
  · exact hcall .call_empty rfl hcalls
  · have hlength : tokens.length = behind.length + 1 := by rw [heq, List.length_cons]
    have hle := length_dropStars_le behind
    obtain ⟨front, hbehind, hfront, -⟩ := hargument.exists_derives
    obtain ⟨arguments, harguments, hall⟩ := hfront.exists_call hbehind
    exact hcall hall (heq.trans harguments) hcalls
termination_by (tokens.length, 0)

end

/-! ## Formulas -/

theorem Tree.isSome_ofTokens?_iff : (Tree.ofTokens? tokens).isSome ↔ Derives .expr tokens := by
  constructor
  · intro h
    obtain ⟨tree, htree⟩ := Option.isSome_iff_exists.1 h
    obtain ⟨front, rfl, hfront, -⟩ := (reads_of_ofTokens? htree).exists_derives
    rwa [List.append_nil]
  · intro h
    obtain ⟨tree, htree⟩ := h.isRead
    exact Option.isSome_iff_exists.2 ⟨tree, htree.ofTokens?⟩

/-- Tokens are those of a formula if they derive from the grammar and never too many parentheses are
open. -/
theorem FormulaBody.isSome_ofTokens?_iff :
    (FormulaBody.ofTokens? tokens).isSome ↔ isWithinNesting 0 tokens = true ∧ IsFormula tokens := by
  rw [FormulaBody.ofTokens?.eq_def]
  split
  · rename_i hwithin
    rw [and_iff_right hwithin, IsFormula]
    split
    · rename_i rest
      rw [Option.isSome_map, Tree.isSome_ofTokens?_iff]
      constructor
      · exact fun h => .inr ⟨rest, rfl, h⟩
      · rintro (h | ⟨_, ⟨⟩, h⟩)
        · -- Nothing that derives from the grammar without the star begins with one.
          obtain ⟨token, more, heq, htoken⟩ := h.exists_cons
          cases heq
          exact absurd htoken (by decide)
        · exact h
    · rename_i hstar
      have hplain : ¬∃ rest, tokens = .star :: rest ∧ Derives .expr rest := by
        rintro ⟨rest, heq, -⟩
        exact hstar rest heq
      rw [Option.isSome_map, Tree.isSome_ofTokens?_iff]
      exact ⟨.inl, fun h => h.resolve_right hplain⟩
  · rename_i hwithin
    exact iff_of_false Bool.false_ne_true fun h => hwithin h.1

/-- A formula that is written word by word is compiled if its tokens are those of one, and is
malformed otherwise. -/
theorem Formula.compile_words {words : List Word} (hne : words ≠ [])
    (h : ∀ word ∈ words, word.IsShort) :
    (Arith.mostOpen 0 words ≤ maxNesting ∧ IsFormula (words.map Word.token) →
      ∃ formula, compile (joinWith [' '] (words.map Word.text)) = .ok formula) ∧
    (¬(Arith.mostOpen 0 words ≤ maxNesting ∧ IsFormula (words.map Word.token)) →
      compile (joinWith [' '] (words.map Word.text)) = .error .malformed) := by
  rw [← Arith.isWithinNesting_iff_mostOpen_le (Nat.zero_le maxNesting),
    ← FormulaBody.isSome_ofTokens?_iff, compile_joinWith_eq hne h]
  cases FormulaBody.ofTokens? (words.map Word.token) with
  | none => exact ⟨fun h => absurd h Bool.false_ne_true, fun _ => rfl⟩
  | some body => exact ⟨fun _ => ⟨_, rfl⟩, fun h => absurd rfl h⟩

end Reading

/-! ## Segments -/

/-- What the formula of a request consists of: slots and operators. -/
inductive Segment
  | slot (position : Nat)
  | operator (c : Char) (mem : c ∈ operatorChars)

namespace Segment

/-- The segment as it stands in a formula. -/
def text : Segment → Text
  | .slot position => slotName position
  | .operator c _ => [c]

/-- The segment as a word. -/
def word : Segment → Word
  | .slot position => .slot position
  | .operator '+' _ => .operation .add
  | .operator '-' _ => .operation .sub
  | .operator '*' _ => .operation .mul
  | .operator '/' _ => .operation .div
  | .operator '%' _ => .operation .rem
  | .operator '^' _ => .operation .pow
  | .operator '(' _ => .leftParen
  | .operator _ _ => .rightParen

theorem text_word (segment : Segment) : segment.word.text = segment.text := by
  cases segment with
  | slot position => rfl
  | operator c h =>
    simp only [operatorChars, List.mem_cons, List.not_mem_nil, or_false] at h
    rcases h with rfl | rfl | rfl | rfl | rfl | rfl | rfl | rfl <;> rfl

theorem isShort_word (segment : Segment) : segment.word.IsShort := by
  cases segment with
  | slot position => trivial
  | operator c h =>
    simp only [operatorChars, List.mem_cons, List.not_mem_nil, or_false] at h
    rcases h with rfl | rfl | rfl | rfl | rfl | rfl | rfl | rfl <;> trivial

/-- The most parentheses that are open at once. -/
def nesting (segments : List Segment) : Nat :=
  Arith.mostOpen 0 (segments.map word)

/-- The tokens that the segments are read as. -/
def tokens (segments : List Segment) : List Token :=
  segments.map fun segment => segment.word.token

end Segment

theorem Request.compile_formula {request : Request} {segments : List Segment}
    (hrequest : request.segments = segments.map Segment.text) (hne : segments ≠ []) :
    (Segment.nesting segments ≤ maxNesting ∧ IsFormula (Segment.tokens segments) →
      ∃ formula, Formula.compile request.formula = .ok formula) ∧
    (¬(Segment.nesting segments ≤ maxNesting ∧ IsFormula (Segment.tokens segments)) →
      Formula.compile request.formula = .error .malformed) := by
  have htext : request.segments = (segments.map Segment.word).map Word.text := by
    rw [hrequest, List.map_map]
    exact List.map_congr_left fun segment _ => segment.text_word.symm
  have htokens : Segment.tokens segments = (segments.map Segment.word).map Word.token := by
    rw [Segment.tokens, List.map_map]
    rfl
  rw [Request.formula, htext, htokens]
  exact Formula.compile_words (mt List.map_eq_nil_iff.1 hne)
    (List.forall_mem_map.2 fun segment _ => segment.isShort_word)

/-- The formula of a request is compiled if never more than two hundred parentheses are open and its
tokens derive from the grammar. All other formulas are malformed. The formula is taken to be shallow
enough for the evaluator, the stack of whose reader is not modelled. -/
theorem Request.compile_formula_iff_isFormula (request : Request) (segments : List Segment)
    (hrequest : request.segments = segments.map Segment.text) (hne : segments ≠ []) :
    ((∃ formula, Formula.compile request.formula = .ok formula) ↔
      Segment.nesting segments ≤ 200 ∧ IsFormula (Segment.tokens segments)) ∧
    (¬(Segment.nesting segments ≤ 200 ∧ IsFormula (Segment.tokens segments)) →
      Formula.compile request.formula = .error .malformed) := by
  obtain ⟨hcompiled, hmalformed⟩ := compile_formula hrequest hne
  refine ⟨⟨fun ⟨formula, hformula⟩ => ?_, hcompiled⟩, hmalformed⟩
  by_contra hnot
  rw [hmalformed hnot] at hformula
  cases hformula

/-- Segments with a star in front of a power, whose base is called with a starred argument and whose
exponent is a sign with parentheses without content. -/
def starredPower : List Segment :=
  [.operator '*' (by decide), .slot 0, .operator '(' (by decide), .operator '^' (by decide),
    .slot 1, .operator ')' (by decide), .operator '^' (by decide), .operator '-' (by decide),
    .operator '(' (by decide), .operator ')' (by decide)]

/-- Segments with a sign of powers in front. -/
def barePower : List Segment :=
  [.operator '^' (by decide), .slot 0]

theorem isFormula_starredPower : IsFormula (Segment.tokens starredPower) := by
  have hargument := Derives.expr_primary (.primary_atom (.atom_name (slotIdentifier 1)))
  have hbase := Derives.primary_call (.primary_atom (.atom_name (slotIdentifier 0)))
    (.call_starred (by decide : Token.doubleStar ∈ _) hargument)
  have hexponent := Derives.factor_sign (by decide : Token.minus ∈ _)
    (.factor_power (.power_primary (.primary_atom .atom_empty)))
  exact .inr ⟨_, rfl, .expr_term (.term_factor (.factor_power (.power_operation hbase hexponent)))⟩

theorem not_isFormula_barePower : ¬IsFormula (Segment.tokens barePower) := by
  rintro (h | ⟨_, ⟨⟩, _⟩)
  obtain ⟨token, more, heq, htoken⟩ := h.exists_cons
  cases heq
  exact htoken (by decide)

theorem Request.compile_starredPower :
    starredPower ≠ [] ∧ barePower ≠ [] ∧
    Request.formula { segments := starredPower.map Segment.text } =
      "* $0 ( ^ $1 ) ^ - ( )".toList ∧
    Request.formula { segments := barePower.map Segment.text } = "^ $0".toList ∧
    (∃ formula, Formula.compile
      (Request.formula { segments := starredPower.map Segment.text }) = .ok formula) ∧
    Formula.compile (Request.formula { segments := barePower.map Segment.text }) =
      .error .malformed := by
  have hne : starredPower ≠ [] ∧ barePower ≠ [] := ⟨nofun, nofun⟩
  refine ⟨hne.1, hne.2, by decide, by decide, ?_, ?_⟩
  · exact (compile_formula_iff_isFormula _ _ rfl hne.1).1.2 ⟨by decide, isFormula_starredPower⟩
  · exact (compile_formula_iff_isFormula _ _ rfl hne.2).2 fun h => not_isFormula_barePower h.2

/-- A slot in parentheses, as many as given. -/
def enclosedSlot : Nat → List Segment
  | 0 => [.slot 0]
  | n + 1 => .operator '(' (by decide) :: (enclosedSlot n ++ [.operator ')' (by decide)])

theorem derives_enclosedSlot (n : Nat) : Derives .expr (Segment.tokens (enclosedSlot n)) := by
  induction n with
  | zero => exact .expr_primary (.primary_atom (.atom_name _))
  | succ n ih =>
    rw [enclosedSlot, Segment.tokens, List.map_cons, List.map_append]
    exact .expr_primary (.primary_atom (.atom_expr ih))

/-- Two hundred parentheses may be open. -/
theorem Request.compile_twoHundredParentheses :
    ¬∀ (request : Request) (segments : List Segment),
      request.segments = segments.map Segment.text → segments ≠ [] →
        ((∃ formula, Formula.compile request.formula = .ok formula) ↔
          Segment.nesting segments ≤ 199 ∧ IsFormula (Segment.tokens segments)) := by
  have hnesting : Segment.nesting (enclosedSlot 200) = 200 := by decide +kernel
  have hne : enclosedSlot 200 ≠ [] := List.cons_ne_nil _ _
  intro h
  let request : Request := { segments := (enclosedSlot 200).map Segment.text }
  have hrequest : request.segments = (enclosedSlot 200).map Segment.text := rfl
  have hcompiled := (compile_formula hrequest hne).1
    ⟨Nat.le_of_eq hnesting, .inl (derives_enclosedSlot 200)⟩
  have hfew := ((h request _ hrequest hne).1 hcompiled).1
  rw [hnesting] at hfew
  exact absurd hfew (by decide)

end DiceNotation
