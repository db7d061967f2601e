import DiceNotation.Formula.Tree

/-!
# Reading a formula step by step

What the readers of a formula do is told apart from the lengths that they return: a tree is read at
a level (`Reads`), it is read as an operand (`ReadsOperand`), or it is what a tree that was read
becomes by the operations behind it (`ReadsMore`) or by the argument lists behind it (`ReadsCalls`).
Every rule of the descent is a lemma about these, and no reader does anything else
(`ReadsOperand.cases`, `ReadsMore.cases`, `ReadsCalls.cases`).

An operation takes its operands from a place in the order of binding (`Operation.leftPlace`,
`Operation.rightPlace`). Tokens follow a tree at some place (`Follows`) if they neither call it nor
begin with an operation that takes its left operand from a tighter one; then the reading of a right
operand stops in front of them (`Follows.readsMore_rightLevel`). A tree is read at a place
(`IsReadAt`) if it is read at any level that the place is fit for, whatever may follow; every
construction of trees has a rule for this, such as `IsReadAt.binary`.
-/

namespace DiceNotation

/-! ## Places -/

/-- The places of the order of binding, from the loosest to the tightest. -/
inductive Place
  | sum
  | product
  | factor
  | operand
  deriving DecidableEq

namespace Place

/-- The position of the place in the order of binding. -/
def rank : Place → Nat
  | .sum => 0
  | .product => 1
  | .factor => 2
  | .operand => 3

instance : LE Place :=
  ⟨fun a b => a.rank ≤ b.rank⟩

instance (a b : Place) : Decidable (a ≤ b) :=
  inferInstanceAs (Decidable (a.rank ≤ b.rank))

theorem le_refl (a : Place) : a ≤ a :=
  Nat.le_refl a.rank

theorem le_trans {a b c : Place} (hab : a ≤ b) (hbc : b ≤ c) : a ≤ c :=
  Nat.le_trans hab hbc

theorem sum_le (a : Place) : .sum ≤ a := by
  cases a <;> decide

theorem le_operand (a : Place) : a ≤ .operand := by
  cases a <;> decide

end Place

namespace Operation

/-- The place of a tree with the operation at its root. -/
def place : Operation → Place
  | .add | .sub => .sum
  | .mul | .div | .rem | .floorDiv => .product
  | .pow => .factor

/-- The loosest place of a left operand without parentheses. -/
def leftPlace : Operation → Place
  | .add | .sub => .sum
  | .mul | .div | .rem | .floorDiv => .product
  | .pow => .operand

/-- The loosest place of a right operand without parentheses. -/
def rightPlace : Operation → Place
  | .add | .sub => .product
  | .mul | .div | .rem | .floorDiv => .factor
  | .pow => .factor

theorem place_le_leftPlace (operation : Operation) : operation.place ≤ operation.leftPlace := by
  cases operation <;> decide

theorem place_le_rightPlace (operation : Operation) : operation.place ≤ operation.rightPlace := by
  cases operation <;> decide

end Operation

namespace Level

/-- The loosest place of a tree that is read at the level. -/
def place : Level → Place
  | .sum => .sum
  | .product => .product
  | .factor => .factor

theorem place_le_factor (level : Level) : level.place ≤ .factor := by
  cases level <;> decide

theorem admits_iff {level : Level} {operation : Operation} :
    level.admits operation = true ↔ level.place ≤ operation.place := by
  cases level <;> cases operation <;> decide

/-- Behind a right operand the same operation, or a looser one, is left to be applied to the
whole. -/
theorem admits_rightLevel_eq_false_iff {operation next : Operation} :
    operation.rightLevel.admits next = false ↔ next.leftPlace ≤ operation.place := by
  cases operation <;> cases next <;> decide

end Level

theorem Operation.place_rightLevel (operation : Operation) :
    operation.rightLevel.place = operation.rightPlace := by
  cases operation <;> rfl

/-! ## Readers -/

/-- A tree is read from tokens at a level, and what is left are the tokens `rest`. -/
def Reads (level : Level) (tokens : List Token) (tree : Tree) (rest : List Token) : Prop :=
  ∃ shorter, readTree? level tokens = some ⟨tree, rest, shorter⟩

/-- A tree is read from tokens as an operand. -/
def ReadsOperand (tokens : List Token) (tree : Tree) (rest : List Token) : Prop :=
  ∃ shorter, readOperand? tokens = some ⟨tree, rest, shorter⟩

/-- The operations ahead that the level admits make `tree` of what was read so far. -/
def ReadsMore (level : Level) (left : Tree) (tokens : List Token) (tree : Tree)
    (rest : List Token) : Prop :=
  ∃ shorter, readMore? level left tokens = some ⟨tree, rest, shorter⟩

/-- The argument lists ahead make `tree` of the operand that was read so far. -/
def ReadsCalls (callee : Tree) (tokens : List Token) (tree : Tree) (rest : List Token) : Prop :=
  ∃ shorter, readCalls? callee tokens = some ⟨tree, rest, shorter⟩

/-- The level admits no operation that is next. -/
def Level.IsDone (level : Level) (tokens : List Token) : Prop :=
  ∀ token operation, tokens.head? = some token → token.operation? = some operation →
    level.admits operation = false

variable {level : Level} {tokens rest last : List Token} {left right callee tree : Tree}

theorem Level.isDone_nil : level.IsDone [] := by
  rintro _ _ ⟨⟩

theorem Reads.length_lt (h : Reads level tokens tree rest) : rest.length < tokens.length :=
  h.1

theorem ReadsOperand.length_lt (h : ReadsOperand tokens tree rest) : rest.length < tokens.length :=
  h.1

/-! ### Rules -/

theorem ReadsOperand.reads (h : ReadsOperand tokens left rest)
    (hmore : ReadsMore level left rest tree last) : Reads level tokens tree last := by
  obtain ⟨_, hleft⟩ := h
  obtain ⟨_, htree⟩ := hmore
  apply Exists.intro
  rw [readTree?, hleft]
  dsimp only
  rw [htree]

theorem readsMore_of_admits {token : Token} {operation : Operation}
    (htoken : token.operation? = some operation) (hadmits : level.admits operation = true)
    (hright : Reads operation.rightLevel tokens right rest)
    (hmore : ReadsMore level (.binary operation left right) rest tree last) :
    ReadsMore level left (token :: tokens) tree last := by
  obtain ⟨_, hright⟩ := hright
  obtain ⟨_, hmore⟩ := hmore
  apply Exists.intro
  rw [readMore?.eq_2, htoken]
  dsimp only
  rw [if_pos hadmits, hright]
  dsimp only
  rw [hmore]
  rfl

/-- Reading stops in front of what the level does not admit. -/
theorem Level.IsDone.readsMore (h : level.IsDone tokens) :
    ReadsMore level left tokens left tokens := by
  cases tokens with
  | nil =>
    apply Exists.intro
    rw [readMore?]
  | cons token rest =>
    apply Exists.intro
    rw [readMore?.eq_2]
    cases hoperation : token.operation? with
    | none => rfl
    | some operation =>
      dsimp only
      rw [h token operation rfl hoperation, if_neg Bool.false_ne_true]

/-- Nothing is called unless a parenthesis is ahead. -/
theorem readsCalls_of_head? (h : tokens.head? ≠ some .leftParen) :
    ReadsCalls callee tokens callee tokens := by
  apply Exists.intro
  rw [readCalls?.eq_3]
  · rintro rest rfl
    exact h rfl
  · rintro rest rfl
    exact h rfl

theorem readsCalls_empty (h : ReadsCalls (.call callee) tokens tree rest) :
    ReadsCalls callee (.leftParen :: .rightParen :: tokens) tree rest := by
  obtain ⟨_, h⟩ := h
  apply Exists.intro
  rw [readCalls?.eq_1, h]
  rfl

theorem readsCalls_argument {argument : Tree} (htokens : tokens.head? ≠ some .rightParen)
    (hargument : Reads .sum (dropStars tokens) argument (.rightParen :: rest))
    (h : ReadsCalls (.call callee) rest tree last) :
    ReadsCalls callee (.leftParen :: tokens) tree last := by
  obtain ⟨_, hargument⟩ := hargument
  obtain ⟨_, h⟩ := h
  apply Exists.intro
  rw [readCalls?.eq_2, hargument]
  · dsimp only
    rw [h]
    rfl
  · rintro rest rfl
    exact htokens rfl

theorem readsOperand_name {text : Text} (h : ReadsCalls (.name text) tokens tree rest) :
    ReadsOperand (.name text :: tokens) tree rest := by
  obtain ⟨_, h⟩ := h
  apply Exists.intro
  rw [readOperand?, h]

theorem readsOperand_literal {n : Nat} (h : ReadsCalls (.literal n) tokens tree rest) :
    ReadsOperand (.literal n :: tokens) tree rest := by
  obtain ⟨_, h⟩ := h
  apply Exists.intro
  rw [readOperand?, h]

theorem readsOperand_tuple (h : ReadsCalls .tuple tokens tree rest) :
    ReadsOperand (.leftParen :: .rightParen :: tokens) tree rest := by
  obtain ⟨_, h⟩ := h
  apply Exists.intro
  rw [readOperand?, h]
  rfl

theorem readsOperand_leftParen (htokens : tokens.head? ≠ some .rightParen)
    (hinner : Reads .sum tokens callee (.rightParen :: rest))
    (h : ReadsCalls callee rest tree last) :
    ReadsOperand (.leftParen :: tokens) tree last := by
  obtain ⟨_, hinner⟩ := hinner
  obtain ⟨_, h⟩ := h
  apply Exists.intro
  rw [readOperand?.eq_4, hinner]
  · dsimp only
    rw [h]
    rfl
  · rintro rest rfl
    exact htokens rfl

theorem readsOperand_sign {sign : Sign} {token : Token} (htoken : token.sign? = some sign)
    (h : Reads .factor tokens tree rest) :
    ReadsOperand (token :: tokens) (.signed sign tree) rest := by
  obtain ⟨_, h⟩ := h
  apply Exists.intro
  rw [readOperand?.eq_5, htoken]
  · dsimp only
    rw [h]
    rfl
  all_goals
    intros
    subst token
    cases htoken

/-! ### Inversion -/

theorem Reads.exists_readsOperand (h : Reads level tokens tree last) :
    ∃ left rest, ReadsOperand tokens left rest ∧ ReadsMore level left rest tree last := by
  obtain ⟨_, h⟩ := h
  rw [readTree?] at h
  split at h
  · cases h
  · rename_i first hfirst
    split at h
    · cases h
    · rename_i last hlast
      cases h
      exact ⟨first.tree, first.rest, ⟨first.shorter, hfirst⟩, ⟨last.shorter, hlast⟩⟩

theorem ReadsMore.cases (h : ReadsMore level left tokens tree last) :
    (tree = left ∧ last = tokens ∧ level.IsDone tokens) ∨
    ∃ token operation behind right rest, tokens = token :: behind ∧
      token.operation? = some operation ∧ level.admits operation = true ∧
      Reads operation.rightLevel behind right rest ∧
      ReadsMore level (.binary operation left right) rest tree last := by
  obtain ⟨_, h⟩ := h
  cases tokens with
  | nil =>
    rw [readMore?] at h
    cases h
    exact .inl ⟨rfl, rfl, Level.isDone_nil⟩
  | cons token behind =>
    rw [readMore?.eq_2] at h
    cases hoperation : token.operation? with
    | none =>
      rw [hoperation] at h
      cases h
      refine .inl ⟨rfl, rfl, ?_⟩
      rintro _ next ⟨⟩ hnext
      cases hoperation.symm.trans hnext
    | some operation =>
      rw [hoperation] at h
      dsimp only at h
      by_cases hadmits : level.admits operation = true
      · rw [if_pos hadmits] at h
        cases hright : readTree? operation.rightLevel behind with
        | none =>
          rw [hright] at h
          cases h
        | some right =>
          rw [hright] at h
          obtain ⟨parsed, hmore, hparsed⟩ := Option.map_eq_some_iff.1 h
          cases hparsed
          exact .inr ⟨token, operation, behind, right.tree, right.rest, rfl, hoperation, hadmits,
            ⟨right.shorter, hright⟩, ⟨parsed.shorter, hmore⟩⟩
      · rw [if_neg hadmits] at h
        cases h
        refine .inl ⟨rfl, rfl, ?_⟩
        rintro _ next ⟨⟩ hnext
        cases hoperation.symm.trans hnext
        exact Bool.eq_false_iff.2 hadmits

theorem ReadsCalls.cases (h : ReadsCalls callee tokens tree last) :
    (tree = callee ∧ last = tokens ∧ tokens.head? ≠ some .leftParen) ∨
    (∃ rest, tokens = .leftParen :: .rightParen :: rest ∧
      ReadsCalls (.call callee) rest tree last) ∨
    ∃ behind argument rest, tokens = .leftParen :: behind ∧
      Reads .sum (dropStars behind) argument (.rightParen :: rest) ∧
      ReadsCalls (.call callee) rest tree last := by
  obtain ⟨_, h⟩ := h
  rw [readCalls?.eq_def] at h
  split at h
  · obtain ⟨parsed, hcalls, hparsed⟩ := Option.map_eq_some_iff.1 h
    cases hparsed
    exact .inr (.inl ⟨_, rfl, ⟨parsed.shorter, hcalls⟩⟩)
  · split at h
    · rename_i argument rest shorter hargument
      obtain ⟨parsed, hcalls, hparsed⟩ := Option.map_eq_some_iff.1 h
      cases hparsed
      exact .inr (.inr ⟨_, argument, rest, rfl, ⟨shorter, hargument⟩, ⟨parsed.shorter, hcalls⟩⟩)
    · cases h
  · rename_i hother
    cases h
    refine .inl ⟨rfl, rfl, fun hhead => ?_⟩
    obtain ⟨rest, hrest⟩ := List.head?_eq_some_iff.1 hhead
    exact hother rest hrest

theorem ReadsOperand.cases (h : ReadsOperand tokens tree last) :
    (∃ text rest, tokens = .name text :: rest ∧ ReadsCalls (.name text) rest tree last) ∨
    (∃ n rest, tokens = .literal n :: rest ∧ ReadsCalls (.literal n) rest tree last) ∨
    (∃ rest, tokens = .leftParen :: .rightParen :: rest ∧ ReadsCalls .tuple rest tree last) ∨
    (∃ behind inner rest, tokens = .leftParen :: behind ∧
      Reads .sum behind inner (.rightParen :: rest) ∧ ReadsCalls inner rest tree last) ∨
    ∃ token sign behind operand, tokens = token :: behind ∧ token.sign? = some sign ∧
      Reads .factor behind operand last ∧ tree = .signed sign operand := by
  obtain ⟨_, h⟩ := h
  rw [readOperand?.eq_def] at h
  split at h
  · exact .inl ⟨_, _, rfl, ⟨_, h⟩⟩
  · exact .inr (.inl ⟨_, _, rfl, ⟨_, h⟩⟩)
  · obtain ⟨parsed, hcalls, hparsed⟩ := Option.map_eq_some_iff.1 h
    cases hparsed
    exact .inr (.inr (.inl ⟨_, rfl, ⟨parsed.shorter, hcalls⟩⟩))
  · split at h
    · rename_i inner rest shorter hinner
      obtain ⟨parsed, hcalls, hparsed⟩ := Option.map_eq_some_iff.1 h
      cases hparsed
      exact .inr (.inr (.inr (.inl ⟨_, inner, rest, rfl, ⟨shorter, hinner⟩,
        ⟨parsed.shorter, hcalls⟩⟩)))
    · cases h
  · split at h
    · cases h
    · rename_i sign hsign
      obtain ⟨parsed, hoperand, hparsed⟩ := Option.map_eq_some_iff.1 h
      cases hparsed
      exact .inr (.inr (.inr (.inr ⟨_, sign, _, parsed.tree, rfl, hsign,
        ⟨parsed.shorter, hoperand⟩, rfl⟩)))
  · cases h

/-! ## What may follow -/

/-- The tokens may stand behind a tree at the place. -/
def Follows (place : Place) (tokens : List Token) : Prop :=
  ∀ token, tokens.head? = some token → token ≠ .leftParen ∧
    ∀ operation, token.operation? = some operation → operation.leftPlace ≤ place

variable {place : Place}

theorem follows_nil : Follows place [] :=
  nofun

theorem follows_rightParen : Follows place (.rightParen :: rest) := by
  rintro _ ⟨⟩
  exact ⟨nofun, nofun⟩

theorem Follows.mono {other : Place} (h : Follows place rest) (hle : place ≤ other) :
    Follows other rest := by
  intro token htoken
  obtain ⟨hparen, hoperation⟩ := h token htoken
  exact ⟨hparen, fun operation hop => Place.le_trans (hoperation operation hop) hle⟩

theorem Follows.head?_ne (h : Follows place rest) : rest.head? ≠ some .leftParen :=
  fun htoken => (h _ htoken).1 rfl

theorem follows_operand_iff : Follows .operand rest ↔ rest.head? ≠ some .leftParen := by
  refine ⟨Follows.head?_ne, fun h token htoken => ⟨?_, fun next _ => next.leftPlace.le_operand⟩⟩
  rintro rfl
  exact h htoken

/-- Nothing is called by what may follow an operand. -/
theorem Follows.readsCalls (h : Follows place rest) : ReadsCalls callee rest callee rest :=
  readsCalls_of_head? h.head?_ne

/-- Tokens may follow the whole of an operation if nothing in them is added to its right operand. -/
theorem follows_iff_isDone {operation : Operation} :
    Follows operation.place rest ↔
      rest.head? ≠ some .leftParen ∧ operation.rightLevel.IsDone rest := by
  constructor
  · exact fun h => ⟨h.head?_ne, fun token _ htoken hnext =>
      Level.admits_rightLevel_eq_false_iff.2 ((h token htoken).2 _ hnext)⟩
  · rintro ⟨hparen, hdone⟩ token htoken
    refine ⟨?_, fun next hnext =>
      Level.admits_rightLevel_eq_false_iff.1 (hdone token next htoken hnext)⟩
    rintro rfl
    exact hparen htoken

theorem Follows.readsMore_rightLevel {operation : Operation}
    (h : Follows operation.place rest) : ReadsMore operation.rightLevel tree rest tree rest :=
  (follows_iff_isDone.1 h).2.readsMore

/-- Nothing is added to what stands in front of a closing parenthesis, or of the end. -/
theorem readsMore_nil : ReadsMore level tree [] tree [] :=
  Level.isDone_nil.readsMore

theorem readsMore_rightParen :
    ReadsMore level tree (.rightParen :: rest) tree (.rightParen :: rest) := by
  refine Level.IsDone.readsMore ?_
  rintro _ _ ⟨⟩ ⟨⟩

/-- A tree that is read from all the tokens is what they stand for. -/
theorem Reads.ofTokens? (h : Reads .sum tokens tree []) : Tree.ofTokens? tokens = some tree := by
  obtain ⟨_, h⟩ := h
  rw [Tree.ofTokens?, h]

theorem reads_of_ofTokens? (h : Tree.ofTokens? tokens = some tree) : Reads .sum tokens tree [] := by
  rw [Tree.ofTokens?] at h
  split at h
  · rename_i shorter htree
    cases h
    exact ⟨shorter, htree⟩
  · cases h

/-! ## Reading in place -/

/-- At any level that the place is fit for, the tree is read from the tokens, and then whatever the
operations behind them make of it. -/
def IsReadAt (place : Place) (tree : Tree) (tokens : List Token) : Prop :=
  ∀ ⦃level : Level⦄ ⦃rest last : List Token⦄ ⦃whole : Tree⦄, level.place ≤ place →
    Follows place rest → ReadsMore level tree rest whole last →
      Reads level (tokens ++ rest) whole last

/-- The tree is read from the tokens as an operand, and then whatever the argument lists behind them
make of it. -/
def IsReadAsOperand (tree : Tree) (tokens : List Token) : Prop :=
  ∀ ⦃rest last : List Token⦄ ⦃whole : Tree⦄, ReadsCalls tree rest whole last →
    ReadsOperand (tokens ++ rest) whole last

theorem IsReadAt.mono {other : Place} (h : IsReadAt place tree tokens) (hle : other ≤ place) :
    IsReadAt other tree tokens :=
  fun _ _ _ _ hlevel hrest => h (Place.le_trans hlevel hle) (hrest.mono hle)

theorem IsReadAsOperand.isReadAt (h : IsReadAsOperand tree tokens) :
    IsReadAt .operand tree tokens :=
  fun _ _ _ _ _ hrest hmore => (h hrest.readsCalls).reads hmore

theorem isReadAsOperand_name (text : Text) : IsReadAsOperand (.name text) [.name text] :=
  fun _ _ _ => readsOperand_name

theorem isReadAsOperand_literal (n : Nat) : IsReadAsOperand (.literal n) [.literal n] :=
  fun _ _ _ => readsOperand_literal

/-- Between parentheses a tree is read at the loosest level, up to the closing one. -/
theorem IsReadAt.reads_rightParen (h : IsReadAt place tree tokens) (rest : List Token) :
    Reads .sum (tokens ++ .rightParen :: rest) tree (.rightParen :: rest) :=
  h (Place.sum_le place) follows_rightParen readsMore_rightParen

theorem IsReadAt.parens {token : Token} (h : IsReadAt place tree (token :: tokens))
    (htoken : token ≠ .rightParen) :
    IsReadAsOperand tree (.leftParen :: (token :: tokens ++ [.rightParen])) := by
  intro rest last whole hcalls
  have hfirst : (token :: tokens ++ .rightParen :: rest).head? ≠ some .rightParen :=
    fun heq => htoken (Option.some.inj heq)
  have hall := readsOperand_leftParen hfirst (h.reads_rightParen rest) hcalls
  simpa using hall

/-- An argument list is read up to its closing parenthesis. -/
theorem IsReadAt.readsCalls {behind argument : List Token} (h : IsReadAt place left argument)
    (hbehind : behind.head? ≠ some .rightParen)
    (hargument : dropStars behind = argument ++ .rightParen :: rest)
    (hcalls : ReadsCalls (.call callee) rest tree last) :
    ReadsCalls callee (.leftParen :: behind) tree last :=
  readsCalls_argument hbehind (hargument ▸ h.reads_rightParen rest) hcalls

theorem IsReadAt.signed {sign : Sign} {token : Token} (htoken : token.sign? = some sign)
    (h : IsReadAt .factor tree tokens) :
    IsReadAt .factor (.signed sign tree) (token :: tokens) := by
  intro level rest last whole _ hrest hmore
  -- Nothing is added to the operand that may not be added to the whole, as with powers.
  have hstop : ReadsMore .factor tree rest tree rest :=
    Follows.readsMore_rightLevel (show Follows Operation.pow.place rest from hrest)
  have hoperand : Reads .factor (tokens ++ rest) tree rest := h (Place.le_refl _) hrest hstop
  exact (readsOperand_sign htoken hoperand).reads hmore

/-- The left operand is read at the level of the whole, and what goes on from it is the operation
with the right operand, which is read up to what stands behind the whole. -/
theorem IsReadAt.binary (operation : Operation) {token : Token} {others : List Token}
    (htoken : token.operation? = some operation)
    (hleft : IsReadAt operation.leftPlace left tokens)
    (hright : IsReadAt operation.rightPlace right others) :
    IsReadAt operation.place (.binary operation left right) (tokens ++ token :: others) := by
  intro level rest last whole hlevel hrest hmore
  have hfollows : Follows operation.leftPlace (token :: (others ++ rest)) := by
    rintro _ ⟨⟩
    constructor
    · rintro rfl
      cases htoken
    · rintro next hnext
      cases htoken.symm.trans hnext
      exact Place.le_refl _
  have hothers := hright (operation.place_rightLevel ▸ Place.le_refl _)
    (hrest.mono operation.place_le_rightPlace) hrest.readsMore_rightLevel
  have hgoesOn := readsMore_of_admits htoken (Level.admits_iff.2 hlevel) hothers hmore
  have hall := hleft (Place.le_trans hlevel operation.place_le_leftPlace) hfollows hgoesOn
  simpa using hall

/-- A tree that is read at a place is what all the tokens together stand for. -/
theorem IsReadAt.ofTokens? (h : IsReadAt place tree tokens) :
    Tree.ofTokens? tokens = some tree := by
  have hall : Reads .sum (tokens ++ []) tree [] := h (Place.sum_le place) follows_nil readsMore_nil
  rw [List.append_nil] at hall
  exact hall.ofTokens?

end DiceNotation
