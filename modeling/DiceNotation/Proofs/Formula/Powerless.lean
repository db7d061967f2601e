import DiceNotation.Proofs.Formula.Reading
import DiceNotation.Proofs.Formula.Value
import DiceNotation.Proofs.Formula.Word
import DiceNotation.Proofs.Lexeme
import Mathlib

/-!
# Formulas without powers

A power is written with `^`. An assembled formula, which is made of slots, whole numbers and
operators with spaces between them, is evaluated to a number or to a reported error if there is no
power in it, whatever else it asks for and whatever real numbers its slots stand for, and it comes
across no complex number on the way (`Formula.evaluate_of_no_powers`). Three steps lead there:

* the other sign of powers, two stars, comes up only where `^` is spelled out, since every star of a
    segment is a segment of its own (`IsSegment.doubleStar_notMem`);
* every operation of a tree is that of a token that it was read from
    (`Tree.exists_token_of_mem_operations`), by induction over the four readers together;
* without powers no number becomes complex, and so nothing breaks down.
-/

namespace DiceNotation

/-! ## Texts -/

variable {text : Text}

theorem spellPowers_eq_self (h : '^' ∉ text) : spellPowers text = text := by
  induction text with
  | nil => rfl
  | cons c text ih =>
    have hc : ¬(c == '^') = true := fun heq => h (eq_of_beq heq ▸ List.mem_cons_self)
    rw [spellPowers, if_neg hc, ih (List.not_mem_of_not_mem_cons h)]

/-- Without powers, preparing a text brings no star into it. -/
theorem star_mem_of_preparedText (hcaret : '^' ∉ text) (h : '*' ∈ preparedText text) :
    '*' ∈ text := by
  have hslots : '^' ∉ spellSlots text := by
    intro hmem
    rcases mem_spellSlots hmem with htext | hword
    · exact hcaret htext
    · exact absurd hword (by decide)
  rw [preparedText, spellPowers_eq_self hslots] at h
  exact (mem_spellSlots h).resolve_right (by decide)

/-! ## Segments -/

/-- What stands between two spaces of a formula that was assembled: a slot, a whole number or an
operator. -/
inductive IsSegment : Text → Prop
  | slot {digits : Text} : IsRun digits → IsSegment ('$' :: digits)
  | number {digits : Text} : IsRun digits → IsSegment digits
  | operator {c : Char} : c ∈ operatorChars → IsSegment [c]

namespace IsSegment

theorem isSolid (h : IsSegment text) : IsSolid text := by
  cases h with
  | slot hrun =>
    exact ⟨List.cons_ne_nil _ _, List.forall_mem_cons.2 ⟨by decide, hrun.isSolid.all⟩⟩
  | number hrun => exact hrun.isSolid
  | @operator c hc =>
    exact ⟨List.cons_ne_nil _ _,
      List.forall_mem_singleton.2 (eq_false_of_any_eq_false (by decide) hc)⟩

/-- There is a star in a segment only if it is the operator. -/
theorem eq_star_of_mem (h : IsSegment text) (hstar : '*' ∈ text) : text = ['*'] := by
  have hdigit : isDigit '*' = false := by decide
  cases h with
  | slot hrun =>
    have hmem := List.mem_of_ne_of_mem (by decide) hstar
    exact absurd (hrun.all _ hmem) (Bool.eq_false_iff.1 hdigit)
  | number hrun => exact absurd (hrun.all _ hstar) (Bool.eq_false_iff.1 hdigit)
  | operator hc => rw [List.mem_singleton.1 hstar]

/-- The only segment that is read as a power is the one that is written as one. -/
theorem doubleStar_notMem {tokens : List Token} (h : IsSegment text) (hcaret : '^' ∉ text)
    (htokens : tokenize? (preparedText text) = some tokens) : .doubleStar ∉ tokens := by
  intro hmem
  obtain ⟨c, hc, rfl⟩ := exists_beginsWith_of_mem_tokenize? htokens hmem
  obtain rfl := h.eq_star_of_mem (star_mem_of_preparedText hcaret hc)
  have hsingle : tokenize? (preparedText ['*']) = some [.star] := tokenize?_sign rfl
  rw [hsingle] at htokens
  cases htokens
  exact absurd hmem (by decide)

end IsSegment

/-! ## Trees -/

/-- The operations of a tree that was read are those of tokens among `all`, and so are the tokens
that are left. -/
structure ComesFrom (all : List Token) (tree : Tree) (rest : List Token) : Prop where
  operation : ∀ operation ∈ tree.operations, ∃ token ∈ all, token.operation? = some operation
  subset : rest ⊆ all

theorem dropStars_subset (tokens : List Token) : dropStars tokens ⊆ tokens := by
  unfold dropStars
  split
  · exact List.subset_cons_self _ _
  · exact List.subset_cons_self _ _
  · exact List.Subset.refl _

mutual

theorem Reads.comesFrom {level : Level} {all tokens rest : List Token} {tree : Tree}
    (h : Reads level tokens tree rest) (htokens : tokens ⊆ all) : ComesFrom all tree rest := by
  obtain ⟨left, behind, hleft, hmore⟩ := h.exists_readsOperand
  have hlt := hleft.length_lt
  exact hmore.comesFrom (hleft.comesFrom htokens)
termination_by (tokens.length, 1)

theorem ReadsOperand.comesFrom {all tokens rest : List Token} {tree : Tree}
    (h : ReadsOperand tokens tree rest) (htokens : tokens ⊆ all) : ComesFrom all tree rest := by
  obtain ⟨text, behind, rfl, hcalls⟩ | ⟨n, behind, rfl, hcalls⟩ | ⟨behind, rfl, hcalls⟩ |
    ⟨behind, inner, after, heq, hinner, hcalls⟩ |
    ⟨token, sign, behind, operand, rfl, -, hoperand, rfl⟩ := h.cases
  · exact hcalls.comesFrom ⟨nofun, List.subset_of_cons_subset htokens⟩
  · exact hcalls.comesFrom ⟨nofun, List.subset_of_cons_subset htokens⟩
  · exact hcalls.comesFrom
      ⟨nofun, List.subset_of_cons_subset (List.subset_of_cons_subset htokens)⟩
  · have hlength : tokens.length = behind.length + 1 := by rw [heq, List.length_cons]
    have hlt : after.length + 1 < behind.length := hinner.length_lt
    rw [heq] at htokens
    have hcallee := hinner.comesFrom (List.subset_of_cons_subset htokens)
    exact hcalls.comesFrom ⟨hcallee.operation, List.subset_of_cons_subset hcallee.subset⟩
  · have hsigned := hoperand.comesFrom (List.subset_of_cons_subset htokens)
    exact ⟨hsigned.operation, hsigned.subset⟩
termination_by (tokens.length, 0)

theorem ReadsMore.comesFrom {level : Level} {all tokens rest : List Token} {left tree : Tree}
    (h : ReadsMore level left tokens tree rest) (hleft : ComesFrom all left tokens) :
    ComesFrom all tree rest := by
  obtain ⟨rfl, rfl, -⟩ | ⟨token, operation, behind, right, after, heq, htoken, -, hright, hmore⟩ :=
    h.cases
  · exact hleft
  · have hlength : tokens.length = behind.length + 1 := by rw [heq, List.length_cons]
    have hlt := hright.length_lt
    have htokens : token :: behind ⊆ all := heq ▸ hleft.subset
    have hafter := hright.comesFrom (List.subset_of_cons_subset htokens)
    refine hmore.comesFrom ⟨?_, hafter.subset⟩
    refine List.forall_mem_cons.2 ⟨⟨token, htokens List.mem_cons_self, htoken⟩, ?_⟩
    exact List.forall_mem_append.2 ⟨hleft.operation, hafter.operation⟩
termination_by (tokens.length, 0)

theorem ReadsCalls.comesFrom {all tokens rest : List Token} {callee tree : Tree}
    (h : ReadsCalls callee tokens tree rest) (hcallee : ComesFrom all callee tokens) :
    ComesFrom all tree rest := by
  obtain ⟨rfl, rfl, -⟩ | ⟨behind, rfl, hcalls⟩ | ⟨behind, argument, after, heq, hargument, hcalls⟩ :=
    h.cases
  · exact hcallee
  · exact hcalls.comesFrom ⟨hcallee.operation,
      List.subset_of_cons_subset (List.subset_of_cons_subset hcallee.subset)⟩
  · have hlength : tokens.length = behind.length + 1 := by rw [heq, List.length_cons]
    have hlt : after.length + 1 < (dropStars behind).length := hargument.length_lt
    have hle := length_dropStars_le behind
    have htokens : .leftParen :: behind ⊆ all := heq ▸ hcallee.subset
    have hbehind : dropStars behind ⊆ all :=
      List.Subset.trans (dropStars_subset behind) (List.subset_of_cons_subset htokens)
    -- What an argument applies is left out of the tree with the argument.
    have hafter := hargument.comesFrom hbehind
    exact hcalls.comesFrom ⟨hcallee.operation, List.subset_of_cons_subset hafter.subset⟩
termination_by (tokens.length, 0)

end

/-- Every operation of a tree is that of a token. -/
theorem Tree.exists_token_of_mem_operations {tokens : List Token} {tree : Tree}
    (h : Tree.ofTokens? tokens = some tree) :
    ∀ operation ∈ tree.operations, ∃ token ∈ tokens, token.operation? = some operation :=
  ((reads_of_ofTokens? h).comesFrom (List.Subset.refl tokens)).operation

/-- Without powers, nothing breaks down among numbers that are not complex. -/
theorem Tree.not_breaksDown {formula : Text} {scope : Scope} {tree : Tree} {why : Breakdown}
    (hpow : .pow ∉ tree.operations) (hscope : scope.All fun value => value.isComplex = false) :
    ¬tree.BreaksDown formula scope why := by
  intro h
  induction h with
  | signed _ ih => exact ih hpow
  | left _ ih => exact ih fun hleft => hpow (List.mem_cons_of_mem _ (List.mem_append_left _ hleft))
  | right _ _ ih =>
    exact ih fun hright => hpow (List.mem_cons_of_mem _ (List.mem_append_right _ hright))
  | @operation operation left right a b why hleft hright hoperation =>
    have hkept := isKept_not_isComplex hpow
    have ha := holds_of_mem_parts hkept hscope left
      (List.mem_cons_of_mem _ (List.mem_append_left _ left.mem_parts)) a hleft
    have hb := holds_of_mem_parts hkept hscope right
      (List.mem_cons_of_mem _ (List.mem_append_right _ right.mem_parts)) b hright
    cases hoperation with
    | rem hcomplex | floorDiv hcomplex =>
      rw [ha, hb] at hcomplex
      cases hcomplex
    | pow => exact hpow List.mem_cons_self

/-! ## Formulas -/

theorem FormulaBody.exists_token_of_mem_operations {tokens : List Token} {body : FormulaBody}
    (h : FormulaBody.ofTokens? tokens = some body) :
    ∀ operation ∈ body.tree.operations, ∃ token ∈ tokens, token.operation? = some operation := by
  rw [FormulaBody.ofTokens?.eq_def] at h
  split at h
  · split at h
    · obtain ⟨tree, htree, rfl⟩ := Option.map_eq_some_iff.1 h
      intro operation hoperation
      obtain ⟨token, htoken, heq⟩ := Tree.exists_token_of_mem_operations htree operation hoperation
      exact ⟨token, List.mem_cons_of_mem _ htoken, heq⟩
    · obtain ⟨tree, htree, rfl⟩ := Option.map_eq_some_iff.1 h
      exact Tree.exists_token_of_mem_operations htree
  · cases h

theorem Token.eq_doubleStar {token : Token} (h : token.operation? = some .pow) :
    token = .doubleStar := by
  cases token <;> cases h
  rfl

namespace Formula

variable {formula : Formula} {scope : Scope}

/-- There is a power in an assembled formula only if it is written there. -/
theorem pow_notMem_operations {segments : List Text} (hsegments : ∀ s ∈ segments, IsSegment s)
    (hcompile : compile (joinWith [' '] segments) = .ok formula)
    (hcaret : '^' ∉ joinWith [' '] segments) : .pow ∉ formula.body.tree.operations := by
  intro hpow
  obtain ⟨-, tokens, htokens, hbody⟩ :=
    exists_tokens_of_compile_joinWith (fun s hs => (hsegments s hs).isSolid) hcompile
  obtain ⟨token, htoken, heq⟩ := FormulaBody.exists_token_of_mem_operations hbody .pow hpow
  obtain rfl := Token.eq_doubleStar heq
  obtain ⟨_, hprepared, own, hown, hmem⟩ := exists_text_of_mem_tokenizeAll? htokens htoken
  obtain ⟨segment, hsegment, rfl⟩ := List.mem_map.1 hprepared
  have hplain : '^' ∉ segment := fun hmem => hcaret (mem_joinWith_of_mem hmem hsegment)
  exact (hsegments segment hsegment).doubleStar_notMem hplain hown hmem

/-- An assembled formula in which no power is written either has a number or fails for a reason that
is reported, and no value on the way to it is complex. Its slots may stand for any numbers that are
not complex, or for none. -/
theorem evaluate_of_no_powers {segments : List Text} (hsegments : ∀ s ∈ segments, IsSegment s)
    (hcompile : compile (joinWith [' '] segments) = .ok formula)
    (hcaret : '^' ∉ joinWith [' '] segments)
    (hscope : scope.All fun value => value.isComplex = false) :
    ((∃ number, formula.evaluate scope = .ok number) ∨
      ∃ error, formula.evaluate scope = .fail error) ∧
    ∀ part ∈ formula.body.tree.parts, ∀ value,
      part.evaluate formula.text scope = .ok value → value.isComplex = false := by
  have hpow := pow_notMem_operations hsegments hcompile hcaret
  refine ⟨?_, Tree.holds_of_mem_parts (isKept_not_isComplex hpow) hscope⟩
  cases hevaluate : formula.evaluate scope with
  | ok number => exact .inl ⟨number, rfl⟩
  | error e =>
    cases e with
    | reported error => exact .inr ⟨error, rfl⟩
    | broken why =>
      obtain ⟨tree, htree, hbroken⟩ := formula.evaluate_eq_broken_iff.1 hevaluate
      rw [htree] at hpow
      exact absurd hbroken (Tree.not_breaksDown hpow hscope)

/-- Segments with a sign, a remainder, quotients, empty parentheses and a call. -/
def powerlessSegments : List Text :=
  ["(", "$0", "%", "-", "$1", ")", "/", "(", ")", "/", "$2", "(", "*", "2", ")"].map String.toList

theorem isSegment_powerlessSegments : ∀ s ∈ powerlessSegments, IsSegment s := by
  have hrun : ∀ c, isDigit c = true → IsRun [c] :=
    fun c hc => ⟨List.cons_ne_nil _ _, List.forall_mem_singleton.2 hc⟩
  have hslot : ∀ c, isDigit c = true → IsSegment ['$', c] := fun c hc => .slot (hrun c hc)
  have hoperator : ∀ c, c ∈ operatorChars → IsSegment [c] := fun _ => .operator
  simp only [powerlessSegments, List.map_cons, List.map_nil, List.forall_mem_cons]
  exact ⟨hoperator '(' (by decide), hslot '0' (by decide), hoperator '%' (by decide),
    hoperator '-' (by decide), hslot '1' (by decide), hoperator ')' (by decide),
    hoperator '/' (by decide), hoperator '(' (by decide), hoperator ')' (by decide),
    hoperator '/' (by decide), hslot '2' (by decide), hoperator '(' (by decide),
    hoperator '*' (by decide), .number (hrun '2' (by decide)), hoperator ')' (by decide),
    List.forall_mem_nil _⟩

/-- A value that no double is near, and one half; the third slot has no value. -/
def powerlessValues : List (Text × Quantity) :=
  [("$0".toList, .int (intPow 10 400)), ("$1".toList, .real (.finite false Double.leadingBit (-53)))]

theorem evaluate_powerlessSegments :
    ∃ formula, (∀ s ∈ powerlessSegments, IsSegment s) ∧
      compile (joinWith [' '] powerlessSegments) = .ok formula ∧
      '^' ∉ joinWith [' '] powerlessSegments ∧
      (Scope.ofList powerlessValues).All (fun value => value.isComplex = false) ∧
      ((∃ number, formula.evaluate (.ofList powerlessValues) = .ok number) ∨
        ∃ error, formula.evaluate (.ofList powerlessValues) = .fail error) := by
  have hcompile : compile (joinWith [' '] powerlessSegments) =
      .ok ⟨"( slot0 % - slot1 ) / ( ) / slot2 ( * 2 )".toList,
        .value (.binary .div (.binary .div
          (.binary .rem (.name "slot0".toList) (.signed .minus (.name "slot1".toList))) .tuple)
          (.call (.name "slot2".toList)))⟩ := by cbv
  have hcaret : '^' ∉ joinWith [' '] powerlessSegments := by decide
  have hscope : (Scope.ofList powerlessValues).All fun value => value.isComplex = false :=
    Scope.all_ofList (List.forall_mem_cons.2 ⟨rfl, List.forall_mem_singleton.2 rfl⟩)
  exact ⟨_, isSegment_powerlessSegments, hcompile, hcaret, hscope,
    (evaluate_of_no_powers isSegment_powerlessSegments hcompile hcaret hscope).1⟩

end Formula

end DiceNotation
