import DiceNotation.Formula.Tree
import DiceNotation.Proofs.Request.Slot
import DiceNotation.Proofs.Text.Spacing
import Mathlib

/-!
# Formulas word by word

A formula that is written with single spaces between texts is read text by text. Preparing it
prepares every text on its own (`preparedText_joinWith`), since no slot and no sign of powers reaches
over a space, and no token does either (`tokenize?_append`). So the tokens of the formula are those
of its texts one after the other (`tokenize?_joinWith`). If the texts are words, then each is read as
one token (`Word.tokenize?_text`), unless it is a literal with too many digits.
-/

namespace DiceNotation

/-! ## Words -/

/-- What a formula is written with. -/
inductive Word
  | slot (position : Nat)
  | literal (n : Nat)
  | sign (sign : Sign)
  | operation (operation : Operation)
  | leftParen
  | rightParen
  deriving DecidableEq

/-- The sign as it is written. -/
def Sign.text : Sign → Text
  | .plus => ['+']
  | .minus => ['-']

/-- The operation as it is written. -/
def Operation.text : Operation → Text
  | .add => ['+']
  | .sub => ['-']
  | .mul => ['*']
  | .div => ['/']
  | .rem => ['%']
  | .floorDiv => ['/', '/']
  | .pow => ['^']

/-- The token that the sign is read as. -/
def Sign.token : Sign → Token
  | .plus => .plus
  | .minus => .minus

/-- The token that the operation is read as. -/
def Operation.token : Operation → Token
  | .add => .plus
  | .sub => .minus
  | .mul => .star
  | .div => .slash
  | .rem => .percent
  | .floorDiv => .doubleSlash
  | .pow => .doubleStar

namespace Word

/-- The word as it is written. -/
def text : Word → Text
  | .slot position => slotName position
  | .literal n => decimalText n
  | .sign s => s.text
  | .operation op => op.text
  | .leftParen => ['(']
  | .rightParen => [')']

/-- The token that the word is read as. -/
def token : Word → Token
  | .slot position => .name (slotIdentifier position)
  | .literal n => .literal n
  | .sign s => s.token
  | .operation op => op.token
  | .leftParen => .leftParen
  | .rightParen => .rightParen

/-- The word is no literal with too many digits. -/
def IsShort : Word → Prop
  | .literal n => (decimalText n).length ≤ literalDigits
  | _ => True

end Word

theorem Sign.sign?_token (sign : Sign) : sign.token.sign? = some sign := by
  cases sign <;> rfl

theorem Operation.operation?_token (operation : Operation) :
    operation.token.operation? = some operation := by
  cases operation <;> rfl

theorem Word.token_eq_leftParen {word : Word} (h : word.token = .leftParen) :
    word = .leftParen := by
  cases word with
  | leftParen => rfl
  | sign s => cases s <;> cases h
  | operation op => cases op <;> cases h
  | _ => cases h

theorem Word.token_eq_rightParen {word : Word} (h : word.token = .rightParen) :
    word = .rightParen := by
  cases word with
  | rightParen => rfl
  | sign s => cases s <;> cases h
  | operation op => cases op <;> cases h
  | _ => cases h

/-! ## Preparing -/

variable {text tail : Text} {texts : List Text} {word : Word} {words : List Word}

theorem spellPowers_append (text tail : Text) :
    spellPowers (text ++ tail) = spellPowers text ++ spellPowers tail := by
  induction text with
  | nil => rfl
  | cons c text ih =>
    rw [List.cons_append, spellPowers, spellPowers, ih]
    split <;> rfl

/-- A character without a digit behind it is no mark of a slot. -/
theorem spellSlots_cons_of_notAhead (c : Char) (ht : NotAhead isDigit tail) :
    spellSlots (c :: tail) = c :: spellSlots tail := by
  by_cases hc : c = '$'
  · subst hc
    cases tail with
    | nil => rfl
    | cons d tail => rw [spellSlots, if_neg (Bool.eq_false_iff.1 (ht d rfl))]
  · exact spellSlots_cons hc tail

/-- No slot reaches over a character that is no digit. -/
theorem spellSlots_append_of_notAhead (text : Text) (ht : NotAhead isDigit tail) :
    spellSlots (text ++ tail) = spellSlots text ++ spellSlots tail := by
  fun_induction spellSlots text with
  | case1 => rfl
  | case2 c rest hc ih =>
    rw [List.cons_append, List.cons_append, spellSlots, if_pos hc, ← List.cons_append, ih,
      List.append_assoc]
  | case3 c rest hc ih =>
    rw [List.cons_append, List.cons_append, spellSlots, if_neg hc, ← List.cons_append, ih,
      List.cons_append]
  | case4 c rest hother ih =>
    rw [List.cons_append, List.cons_append, ← ih]
    cases rest with
    | nil => exact spellSlots_cons_of_notAhead c ht
    | cons d rest => exact spellSlots_cons (fun hc => hother d rest hc rfl) _

theorem preparedText_append (text : Text) (ht : SpaceAhead tail) :
    preparedText (text ++ tail) = preparedText text ++ preparedText tail := by
  rw [preparedText, spellSlots_append_of_notAhead text (ht.notAhead (by decide)),
    spellPowers_append]
  rfl

theorem preparedText_spaced (texts : List Text) :
    preparedText (spaced texts) = spaced (texts.map preparedText) := by
  induction texts with
  | nil => rfl
  | cons text texts ih =>
    rw [List.map_cons, spaced_cons, spaced_cons, ← ih,
      ← preparedText_append text (spaceAhead_spaced texts), preparedText, preparedText,
      spellSlots_cons (by decide)]
    rfl

/-- Texts with spaces between them are prepared each on its own. -/
theorem preparedText_joinWith (texts : List Text) :
    preparedText (joinWith [' '] texts) = joinWith [' '] (texts.map preparedText) := by
  cases texts with
  | nil => rfl
  | cons text texts =>
    rw [List.map_cons, joinWith_cons, joinWith_cons,
      preparedText_append text (spaceAhead_spaced texts), preparedText_spaced]

theorem mem_spellSlots {c : Char} (h : c ∈ spellSlots text) : c ∈ text ∨ c ∈ slotWord := by
  fun_induction spellSlots text with
  | case1 => exact .inl h
  | case2 d rest hd ih =>
    rcases List.mem_append.1 h with hword | hrest
    · exact .inr hword
    · exact (ih hrest).imp_left (List.mem_cons_of_mem _)
  | case3 d rest hd ih | case4 d rest hd ih =>
    rcases List.mem_cons.1 h with rfl | hrest
    · exact .inl List.mem_cons_self
    · exact (ih hrest).imp_left (List.mem_cons_of_mem _)

theorem mem_spellPowers {c : Char} (h : c ∈ spellPowers text) : c ∈ text ∨ c = '*' := by
  induction text with
  | nil => exact .inl h
  | cons d text ih =>
    rw [spellPowers] at h
    split at h
    · rcases List.mem_cons.1 h with rfl | h
      · exact .inr rfl
      rcases List.mem_cons.1 h with rfl | h
      · exact .inr rfl
      exact (ih h).imp_left (List.mem_cons_of_mem _)
    · rcases List.mem_cons.1 h with rfl | h
      · exact .inl List.mem_cons_self
      · exact (ih h).imp_left (List.mem_cons_of_mem _)

theorem preparedText_ne_nil (h : text ≠ []) : preparedText text ≠ [] := by
  have hslots : spellSlots text ≠ [] := by
    fun_cases spellSlots text with
    | case1 => exact absurd rfl h
    | case2 | case3 | case4 => nofun
  obtain ⟨c, rest, hcons⟩ := List.exists_cons_of_ne_nil hslots
  rw [preparedText, hcons, spellPowers]
  split <;> nofun

/-- No blank comes into a text by preparing it. -/
theorem IsSolid.preparedText (h : IsSolid text) : IsSolid (preparedText text) := by
  refine ⟨preparedText_ne_nil h.ne_nil, fun c hc => ?_⟩
  rcases mem_spellPowers hc with hslots | rfl
  · rcases mem_spellSlots hslots with htext | hword
    · exact h.all c htext
    · exact (isSolid_of_any (by decide) (by decide) : IsSolid slotWord).all c hword
  · decide

theorem spellPowers_of_isDigit (h : ∀ c ∈ text, isDigit c = true) : spellPowers text = text := by
  induction text with
  | nil => rfl
  | cons c text ih =>
    obtain ⟨hc, htext⟩ := List.forall_mem_cons.1 h
    have hne : ¬ (c == '^') = true := by
      intro heq
      rw [eq_of_beq heq] at hc
      exact absurd hc (by decide)
    rw [spellPowers, if_neg hne, ih htext]

theorem preparedText_slotName (position : Nat) :
    preparedText (slotName position) = slotIdentifier position := by
  rw [preparedText, spellSlots_slotName, slotIdentifier, spellPowers_append,
    spellPowers_of_isDigit fun _ => isDigit_of_mem_decimalText]
  rfl

theorem preparedText_decimalText (n : Nat) : preparedText (decimalText n) = decimalText n := by
  rw [preparedText, spellSlots_eq_self (mark_notMem_decimalText n),
    spellPowers_of_isDigit fun _ => isDigit_of_mem_decimalText]

/-! ## Cutting -/

/-- The tokens of one text and then those of another, if both can be cut. -/
def appendTokens? (tokens more : Option (List Token)) : Option (List Token) :=
  tokens.bind fun front => more.map (front ++ ·)

theorem appendTokens?_map_cons (token : Token) (tokens more : Option (List Token)) :
    appendTokens? (tokens.map (token :: ·)) more =
      (appendTokens? tokens more).map (token :: ·) := by
  cases tokens <;> cases more <;> rfl

theorem isFormulaBlank_eq_false_of_isDigit {c : Char} (h : c.isDigit = true) :
    isFormulaBlank c = false := by
  refine Bool.eq_false_iff.2 fun hblank => ?_
  simp only [isFormulaBlank, Bool.or_eq_true, beq_iff_eq] at hblank
  rcases hblank with (rfl | rfl) | rfl <;> cases h

theorem toNat_of_isDigit_ascii {c : Char} (h : c.isDigit = true) :
    48 ≤ c.toNat ∧ c.toNat ≤ 57 := by
  simpa [Char.isDigit, UInt32.le_iff_toNat_le] using h

theorem isNameStart_eq_false_of_isDigit {c : Char} (h : c.isDigit = true) :
    isNameStart c = false := by
  have hrange := toNat_of_isDigit_ascii h
  refine Bool.eq_false_iff.2 fun hstart => ?_
  rw [isNameStart, Bool.or_eq_true, beq_iff_eq] at hstart
  rcases hstart with hletter | rfl
  · simp [Char.isAlpha, Char.isUpper, Char.isLower, UInt32.le_iff_toNat_le] at hletter
    omega
  · cases h

/-- A number is cut off if it can be read and no name runs into it. -/
theorem tokenize?_digit {c : Char} (hc : c.isDigit = true) (text : Text) :
    tokenize? (c :: text) =
      if (text.dropWhile Char.isDigit).head?.any isNameChar then none
      else appendTokens? ((literalValue? (c :: text.takeWhile Char.isDigit)).map ([.literal ·]))
        (tokenize? (text.dropWhile Char.isDigit)) := by
  rw [tokenize?.eq_4]
  · rw [isFormulaBlank_eq_false_of_isDigit hc, isNameStart_eq_false_of_isDigit hc, hc]
    dsimp only
    rw [if_neg Bool.false_ne_true, if_neg Bool.false_ne_true, if_pos rfl]
    cases literalValue? (c :: text.takeWhile Char.isDigit) <;>
      cases tokenize? (text.dropWhile Char.isDigit) <;> rfl
  · rintro _ rfl
    cases hc
  · rintro _ rfl
    cases hc

/-- A sign is not doubled by what a space stands in front of. -/
theorem SpaceAhead.append_ne {c : Char} (ht : SpaceAhead tail) (hc : c ≠ ' ')
    (htext : ∀ more, text ≠ c :: more) (more : Text) : text ++ tail ≠ c :: more := by
  intro heq
  cases text with
  | nil => exact hc (bne_eq_false_iff_eq.1 (ht c (congrArg List.head? heq)))
  | cons d text =>
    cases heq
    exact htext text rfl

theorem SpaceAhead.any_head?_append (ht : SpaceAhead tail) (text : Text) :
    (text ++ tail).head?.any isNameChar = text.head?.any isNameChar := by
  cases text with
  | nil =>
    rw [List.nil_append, List.head?_nil, Option.any_none, Option.any_eq_false]
    exact fun c hc => ht.notAhead (by decide) c hc
  | cons c text => rfl

/-- No token reaches over a space. -/
theorem tokenize?_append (text : Text) (ht : SpaceAhead tail) :
    tokenize? (text ++ tail) = appendTokens? (tokenize? text) (tokenize? tail) := by
  have hsingle : ∀ {c d : Char} {rest : Text}, d ≠ ' ' →
      (∀ more, c = d → rest = d :: more → False) →
        ∀ more, c = d → rest ++ tail = d :: more → False :=
    fun hd hrest more hc => ht.append_ne hd (fun more => hrest more hc) more
  have hnext : NotAhead Char.isDigit tail := ht.notAhead (by decide)
  fun_induction tokenize? text with
  | case1 =>
    rw [List.nil_append]
    cases tokenize? tail <;> rfl
  | case2 rest ih =>
    rw [List.cons_append, List.cons_append, tokenize?.eq_2, ih, appendTokens?_map_cons]
  | case3 rest ih =>
    rw [List.cons_append, List.cons_append, tokenize?.eq_3, ih, appendTokens?_map_cons]
  | case4 c rest hstar hslash hblank ih =>
    rw [List.cons_append,
      tokenize?.eq_4 c _ (hsingle (by decide) hstar) (hsingle (by decide) hslash), if_pos hblank, ih]
  | case5 c rest hstar hslash hblank hname name ih =>
    have hchars : NotAhead isNameChar tail := ht.notAhead (by decide)
    rw [List.cons_append,
      tokenize?.eq_4 c _ (hsingle (by decide) hstar) (hsingle (by decide) hslash), if_neg hblank,
      if_pos hname, hchars.takeWhile_append, hchars.dropWhile_append, ih, appendTokens?_map_cons]
  | case6 c rest _ _ _ _ hdigit after hafter =>
    rw [List.cons_append, tokenize?_digit hdigit, hnext.dropWhile_append, ht.any_head?_append,
      if_pos hafter]
    rfl
  | case7 c rest _ _ _ _ hdigit after hafter n tokens hmore hvalue ih =>
    rw [List.cons_append, tokenize?_digit hdigit, hnext.dropWhile_append, ht.any_head?_append,
      if_neg hafter, hnext.takeWhile_append, hvalue, ih, hmore]
    cases tokenize? tail <;> rfl
  | case8 c rest _ _ _ _ hdigit after hafter hnone ih =>
    rw [List.cons_append, tokenize?_digit hdigit, hnext.dropWhile_append, ht.any_head?_append,
      if_neg hafter, hnext.takeWhile_append, ih]
    cases hvalue : literalValue? (c :: rest.takeWhile Char.isDigit) with
    | none => rfl
    | some n =>
      cases hmore : tokenize? after with
      | none => rfl
      | some tokens => exact (hnone n tokens hvalue hmore).elim
  | case9 c rest hstar hslash hblank hname hdigit token htoken ih =>
    rw [List.cons_append,
      tokenize?.eq_4 c _ (hsingle (by decide) hstar) (hsingle (by decide) hslash), if_neg hblank,
      if_neg hname, if_neg hdigit, htoken]
    dsimp only
    rw [ih, appendTokens?_map_cons]
  | case10 c rest hstar hslash hblank hname hdigit htoken =>
    rw [List.cons_append,
      tokenize?.eq_4 c _ (hsingle (by decide) hstar) (hsingle (by decide) hslash), if_neg hblank,
      if_neg hname, if_neg hdigit, htoken]
    rfl

theorem tokenize?_space (tail : Text) : tokenize? (' ' :: tail) = tokenize? tail := by
  rw [tokenize?.eq_4]
  · rfl
  · intro _ h
    cases h
  · intro _ h
    cases h

/-- The token can begin with the character. -/
def Token.BeginsWith (c : Char) : Token → Prop
  | .name _ | .reserved _ => isNameStart c = true
  | .literal _ => c.isDigit = true
  | .doubleStar => c = '*'
  | .doubleSlash => c = '/'
  | token => signToken? c = some token

theorem Token.beginsWith_wordToken {c : Char} (hc : isNameStart c = true) (word : Text) :
    (wordToken word).BeginsWith c := by
  rw [wordToken]
  split <;> exact hc

theorem Token.beginsWith_of_signToken? {c : Char} {token : Token}
    (h : signToken? c = some token) : token.BeginsWith c := by
  cases token with
  | plus | minus | star | slash | percent | leftParen | rightParen => exact h
  | _ =>
    -- No other token is a sign.
    unfold signToken? at h
    split at h <;> cases h

/-- Every token is cut off where its first character is. -/
theorem exists_beginsWith_of_mem_tokenize? {tokens : List Token} {token : Token}
    (htokens : tokenize? text = some tokens) (h : token ∈ tokens) :
    ∃ c ∈ text, token.BeginsWith c := by
  fun_induction tokenize? text generalizing tokens with
  | case1 =>
    cases htokens
    cases h
  | case2 rest ih | case3 rest ih =>
    obtain ⟨more, hmore, rfl⟩ := Option.map_eq_some_iff.1 htokens
    rcases List.mem_cons.1 h with rfl | h
    · exact ⟨_, List.mem_cons_self, rfl⟩
    · obtain ⟨d, hd, hbegins⟩ := ih hmore h
      exact ⟨d, List.mem_cons_of_mem _ (List.mem_cons_of_mem _ hd), hbegins⟩
  | case4 c rest _ _ _ ih =>
    obtain ⟨d, hd, hbegins⟩ := ih htokens h
    exact ⟨d, List.mem_cons_of_mem _ hd, hbegins⟩
  | case5 =>
    rename_i hstart word ih
    obtain ⟨more, hmore, rfl⟩ := Option.map_eq_some_iff.1 htokens
    rcases List.mem_cons.1 h with rfl | h
    · exact ⟨_, List.mem_cons_self, Token.beginsWith_wordToken hstart _⟩
    · obtain ⟨d, hd, hbegins⟩ := ih hmore h
      exact ⟨d, List.mem_cons_of_mem _ ((List.dropWhile_suffix _).subset hd), hbegins⟩
  | case6 => cases htokens
  | case7 =>
    rename_i hdigit _ _ _ _ hmore _ ih
    cases htokens
    rcases List.mem_cons.1 h with rfl | h
    · exact ⟨_, List.mem_cons_self, hdigit⟩
    · obtain ⟨d, hd, hbegins⟩ := ih hmore h
      exact ⟨d, List.mem_cons_of_mem _ ((List.dropWhile_suffix _).subset hd), hbegins⟩
  | case8 => cases htokens
  | case9 =>
    rename_i hsign ih
    obtain ⟨more, hmore, rfl⟩ := Option.map_eq_some_iff.1 htokens
    rcases List.mem_cons.1 h with rfl | h
    · exact ⟨_, List.mem_cons_self, Token.beginsWith_of_signToken? hsign⟩
    · obtain ⟨d, hd, hbegins⟩ := ih hmore h
      exact ⟨d, List.mem_cons_of_mem _ hd, hbegins⟩
  | case10 => cases htokens

/-- The tokens of texts, one after the other, if each can be cut. -/
def tokenizeAll? : List Text → Option (List Token)
  | [] => some []
  | text :: texts => appendTokens? (tokenize? text) (tokenizeAll? texts)

theorem tokenize?_spaced (texts : List Text) : tokenize? (spaced texts) = tokenizeAll? texts := by
  induction texts with
  | nil =>
    rw [spaced, List.flatMap_nil, tokenize?]
    rfl
  | cons text texts ih =>
    rw [spaced_cons, tokenize?_space, tokenize?_append text (spaceAhead_spaced texts), ih]
    rfl

/-- Texts with spaces between them are cut each on its own. -/
theorem tokenize?_joinWith (texts : List Text) :
    tokenize? (joinWith [' '] texts) = tokenizeAll? texts := by
  cases texts with
  | nil =>
    rw [joinWith, tokenize?]
    rfl
  | cons text texts => rw [joinWith_cons, ← tokenize?_space, ← spaced_cons, tokenize?_spaced]

/-- A formula of texts with spaces between them is compiled to what their tokens ask for. -/
theorem Formula.compile_joinWith (hne : texts ≠ []) (h : ∀ text ∈ texts, IsSolid text) :
    compile (joinWith [' '] texts) =
      match (tokenizeAll? (texts.map preparedText)).bind FormulaBody.ofTokens? with
      | some body => .ok ⟨preparedText (joinWith [' '] texts), body⟩
      | none => .error .malformed := by
  have hsolid : ∀ text ∈ texts.map preparedText, IsSolid text :=
    List.forall_mem_map.2 fun text htext => (h text htext).preparedText
  have hstrip : strip (preparedText (joinWith [' '] texts)) =
      joinWith [' '] (texts.map preparedText) := by
    rw [preparedText_joinWith, strip_joinWith hsolid]
  have hsome : (joinWith [' '] (texts.map preparedText)).isEmpty = false := by
    obtain ⟨text, more, rfl⟩ := List.exists_cons_of_ne_nil hne
    rw [List.map_cons, joinWith_cons, List.isEmpty_eq_false_iff]
    exact List.append_ne_nil_of_left_ne_nil (hsolid _ List.mem_cons_self).ne_nil _
  simp only [compile, hstrip, hsome, tokenize?_joinWith]
  rfl

/-- Every token of several texts is cut off one of them. -/
theorem exists_text_of_mem_tokenizeAll? {tokens : List Token} {token : Token}
    (htokens : tokenizeAll? texts = some tokens) (h : token ∈ tokens) :
    ∃ text ∈ texts, ∃ own, tokenize? text = some own ∧ token ∈ own := by
  induction texts generalizing tokens with
  | nil =>
    cases htokens
    cases h
  | cons text texts ih =>
    obtain ⟨own, hown, htokens⟩ := Option.bind_eq_some_iff.1 htokens
    obtain ⟨more, hmore, rfl⟩ := Option.map_eq_some_iff.1 htokens
    rcases List.mem_append.1 h with h | h
    · exact ⟨text, List.mem_cons_self, own, hown, h⟩
    · obtain ⟨other, hother, hown⟩ := ih hmore h
      exact ⟨other, List.mem_cons_of_mem _ hother, hown⟩

/-- A formula of texts with spaces between them is compiled from their tokens, if it is. -/
theorem Formula.exists_tokens_of_compile_joinWith {formula : Formula}
    (h : ∀ text ∈ texts, IsSolid text) (hcompile : compile (joinWith [' '] texts) = .ok formula) :
    texts ≠ [] ∧ ∃ tokens, tokenizeAll? (texts.map preparedText) = some tokens ∧
      FormulaBody.ofTokens? tokens = some formula.body := by
  have hne : texts ≠ [] := by
    rintro rfl
    cases hcompile
  rw [compile_joinWith hne h] at hcompile
  split at hcompile
  · rename_i body hbody
    cases hcompile
    exact ⟨hne, Option.bind_eq_some_iff.1 hbody⟩
  · cases hcompile

/-! ## Words as tokens -/

/-- A sign on its own is not doubled. -/
theorem tokenize?_sign {c : Char} {token : Token} (h : signToken? c = some token) :
    tokenize? [c] = some [token] := by
  unfold signToken? at h
  split at h <;> cases h <;> rw [tokenize?.eq_4]
  any_goals
    intros
    contradiction
  all_goals
    rw [tokenize?]
    rfl

theorem isNameChar_of_isDigit {c : Char} (h : isDigit c = true) : isNameChar c = true := by
  rw [isNameChar, h, Bool.or_true]

theorem plainChar_of_lt {c : Char} (h : c.toNat < 128) : plainChar c = c := by
  have hfind : (variantZeros.find? fun first => first ≤ c.toNat && c.toNat < first + 10) =
      none := by
    refine List.find?_eq_none.2 fun first hfirst => ?_
    have hlarge : ∀ first ∈ variantZeros, 128 ≤ first := by decide
    have := hlarge first hfirst
    simp only [Bool.and_eq_true, decide_eq_true_eq]
    omega
  rw [plainChar, hfind]

theorem map_plainChar_slotIdentifier (position : Nat) :
    (slotIdentifier position).map plainChar = slotIdentifier position := by
  refine (List.map_congr_left fun c hc => ?_).trans (List.map_id _)
  refine plainChar_of_lt ?_
  rcases List.mem_append.1 hc with hword | hdigits
  · exact of_decide_eq_true
      (List.all_eq_true.1 (by decide : slotWord.all fun c => c.toNat < 128) c hword)
  · have hrange := toNat_of_isDigit_ascii (isDigit_ascii_of_mem_decimalText hdigits)
    exact Nat.lt_of_le_of_lt hrange.2 (by decide)

theorem tokenize?_slotIdentifier (position : Nat) :
    tokenize? (slotIdentifier position) = some [.name (slotIdentifier position)] := by
  have hname : ∀ c ∈ ['l', 'o', 't'] ++ decimalText position, isNameChar c = true := by
    intro c hc
    rcases List.mem_append.1 hc with hword | hdigits
    · exact List.all_eq_true.1 (by decide : ['l', 'o', 't'].all isNameChar = true) c hword
    · exact isNameChar_of_isDigit (isDigit_of_mem_decimalText hdigits)
  have hsplit : slotIdentifier position = 's' :: (['l', 'o', 't'] ++ decimalText position) := rfl
  have hplain := map_plainChar_slotIdentifier position
  rw [hsplit] at hplain
  rw [hsplit, tokenize?.eq_4]
  · rw [List.takeWhile_eq_self_iff.2 hname, List.dropWhile_eq_nil_iff.2 hname, hplain, tokenize?]
    rfl
  · intro _ h
    cases h
  · intro _ h
    cases h

/-- A decimal text has a zero in front only if there is nothing else. -/
theorem eq_nil_of_decimalText_eq_zero_cons {n : Nat} {rest : Text}
    (h : decimalText n = '0' :: rest) : rest = [] := by
  have hvalue : n = numeralValue rest := by
    rw [← numeralValue_decimalText n, h, ← numeralValue_significant,
      ← numeralValue_significant rest]
    rfl
  rcases Nat.eq_zero_or_pos rest.length with hnil | hpos
  · exact List.eq_nil_of_length_eq_zero hnil
  · -- The number would have a decimal text of one digit less.
    have hlength : (decimalText n).length ≤ rest.length :=
      (Nat.length_toDigits_le_iff (by decide) hpos).2 (hvalue ▸ numeralValue_lt rest)
    rw [h, List.length_cons] at hlength
    exact absurd hlength (Nat.not_succ_le_self _)

theorem literalValue?_decimalText {n : Nat} (h : (decimalText n).length ≤ literalDigits) :
    literalValue? (decimalText n) = some n := by
  have hvalue := numeralValue_decimalText n
  rw [literalValue?]
  split
  · rename_i hzeros
    have hnone : significant (decimalText n) = [] :=
      List.dropWhile_eq_nil_iff.2 (List.all_eq_true.1 hzeros)
    rw [← numeralValue_significant, hnone] at hvalue
    exact congrArg some hvalue
  · rename_i hzeros
    rw [if_neg, hvalue]
    intro hrefused
    rcases Bool.or_eq_true_iff.1 hrefused with hhead | hlong
    · obtain ⟨rest, hrest⟩ := List.head?_eq_some_iff.1 (of_decide_eq_true hhead)
      rw [hrest, eq_nil_of_decimalText_eq_zero_cons hrest] at hzeros
      exact hzeros rfl
    · exact Nat.not_lt.2 h (of_decide_eq_true hlong)

theorem tokenize?_decimalText {n : Nat} (h : (decimalText n).length ≤ literalDigits) :
    tokenize? (decimalText n) = some [.literal n] := by
  have hdigits : ∀ c ∈ decimalText n, c.isDigit = true := fun _ => isDigit_ascii_of_mem_decimalText
  have hvalue := literalValue?_decimalText h
  obtain ⟨c, rest, hsplit⟩ := List.exists_cons_of_ne_nil (decimalText_ne_nil n)
  rw [hsplit] at hvalue hdigits ⊢
  obtain ⟨hc, hrest⟩ := List.forall_mem_cons.1 hdigits
  rw [tokenize?_digit hc, List.takeWhile_eq_self_iff.2 hrest, List.dropWhile_eq_nil_iff.2 hrest,
    hvalue, tokenize?, if_neg (by decide)]
  rfl

/-- A word is one token. -/
theorem Word.tokenize?_text (hword : word.IsShort) :
    tokenize? (preparedText word.text) = some [word.token] := by
  cases word with
  | slot position =>
    rw [text, preparedText_slotName]
    exact tokenize?_slotIdentifier position
  | literal n =>
    rw [text, preparedText_decimalText]
    exact tokenize?_decimalText hword
  | sign s => cases s <;> exact tokenize?_sign rfl
  | operation op =>
    cases op with
    | floorDiv => exact (tokenize?.eq_3 []).trans (by rw [tokenize?]; rfl)
    | pow => exact (tokenize?.eq_2 []).trans (by rw [tokenize?]; rfl)
    | _ => exact tokenize?_sign rfl
  | leftParen => exact tokenize?_sign rfl
  | rightParen => exact tokenize?_sign rfl

theorem tokenizeAll?_words (h : ∀ word ∈ words, word.IsShort) :
    tokenizeAll? ((words.map Word.text).map preparedText) = some (words.map Word.token) := by
  induction words with
  | nil => rfl
  | cons word words ih =>
    obtain ⟨hword, hwords⟩ := List.forall_mem_cons.1 h
    rw [List.map_cons, List.map_cons, tokenizeAll?, Word.tokenize?_text hword, ih hwords]
    rfl

theorem isSolid_slotName (position : Nat) : IsSolid (slotName position) := by
  have hmark : IsSolid ['$'] := isSolid_of_any (by decide) (by decide)
  exact hmark.append fun c hc => isBlank_eq_false_of_isDigit (isDigit_of_mem_decimalText hc)

theorem Word.isSolid_text (word : Word) : IsSolid word.text := by
  cases word with
  | slot position => exact isSolid_slotName position
  | literal n =>
    exact ⟨decimalText_ne_nil n, fun c hc =>
      isBlank_eq_false_of_isDigit (isDigit_of_mem_decimalText hc)⟩
  | sign s => cases s <;> exact isSolid_of_any (by decide) (by decide)
  | operation op => cases op <;> exact isSolid_of_any (by decide) (by decide)
  | leftParen => exact isSolid_of_any (by decide) (by decide)
  | rightParen => exact isSolid_of_any (by decide) (by decide)

/-- A formula that is written word by word is compiled to what its tokens ask for. -/
theorem Formula.compile_joinWith_eq (hne : words ≠ []) (h : ∀ word ∈ words, word.IsShort) :
    compile (joinWith [' '] (words.map Word.text)) =
      match FormulaBody.ofTokens? (words.map Word.token) with
      | some body => .ok ⟨preparedText (joinWith [' '] (words.map Word.text)), body⟩
      | none => .error .malformed := by
  rw [compile_joinWith (mt List.map_eq_nil_iff.1 hne)
    (List.forall_mem_map.2 fun word _ => word.isSolid_text), tokenizeAll?_words h]
  rfl

end DiceNotation
