import DiceNotation.Proofs.Modifier.Grammar

/-!
# What reroll commands ask for

A reroll command compares the rolled value with its target by the signs written in front of the
digits: `<` asks for a smaller value, `>` for a greater one, and `=`, or no sign at all, for the
same one (`ComparedTarget.Asks`). Which commands are written in a text is not open to choice
(`IsScript.unique`). The options read from a text that is understood whole need a reroll just if one
of its commands asks for it, apart from those whose comparison is a lone equals sign: they are
accepted, but their rules hold of no value at all (`Options.needsReroll_iff_exists_asks`).
-/

namespace DiceNotation

/-- The value stands to the target as the signs of a comparison say. -/
def Compares (comparison : Text) (value target : Int) : Prop :=
  ('<' ∈ comparison ∧ value < target) ∨ ('>' ∈ comparison ∧ target < value) ∨
    (('=' ∈ comparison ∨ comparison = []) ∧ value = target)

instance (comparison : Text) (value target : Int) : Decidable (Compares comparison value target) :=
  inferInstanceAs (Decidable (_ ∨ _ ∨ _))

/-- The argument of a reroll command asks to roll a die again that shows the value. -/
def ComparedTarget.Asks (a : ComparedTarget) (value : Int) : Prop :=
  Compares a.comparison value (numeralValue a.digits)

instance (a : ComparedTarget) (value : Int) : Decidable (a.Asks value) :=
  inferInstanceAs (Decidable (Compares _ _ _))

/-- The rule that the argument of a reroll command is understood as. -/
def ComparedTarget.rule (a : ComparedTarget) : RerollRule :=
  RerollRule.ofText a.comparison (numeralValue a.digits)

/-! ## Rules -/

/-- The comparisons that can be written. -/
def comparisons : List Text :=
  [[], ['<'], ['<', '='], ['>'], ['>', '='], ['=']]

theorem ComparedTarget.IsWritten.comparison_mem {a : ComparedTarget} (h : a.IsWritten) :
    a.comparison ∈ comparisons := by
  obtain ⟨order, equality, heq, horder, hequality⟩ := h.comparison
  have hsigns : ∀ order ∈ [none, some '<', some '>'], ∀ equality ∈ [none, some '='],
      order.toList ++ equality.toList ∈ comparisons := by decide
  rw [heq]
  refine hsigns order ?_ equality ?_
  · cases order with
    | none => exact List.mem_cons_self
    | some c => exact List.mem_cons_of_mem _ (List.mem_map_of_mem (horder c rfl))
  · cases equality with
    | none => exact List.mem_cons_self
    | some c => exact List.mem_cons_of_mem _ (List.mem_map_of_mem (hequality c rfl))

/-- A rule holds as its comparison says, unless this is a lone equals sign. -/
theorem holds_ofText_iff {comparison : Text} (h : comparison ∈ comparisons) (target value : Int) :
    (RerollRule.ofText comparison target).holds value = true ↔
      comparison ≠ ['='] ∧ Compares comparison value target := by
  simp only [comparisons, List.mem_cons, List.not_mem_nil, or_false] at h
  rcases h with rfl | rfl | rfl | rfl | rfl | rfl
  all_goals simp [RerollRule.ofText, Comparator.ofText?, RerollRule.holds, Comparator.holds,
    Compares]
  all_goals omega

/-- Every comparison says something of some value. -/
theorem exists_compares {comparison : Text} (h : comparison ∈ comparisons) (target : Int) :
    ∃ value, Compares comparison value target := by
  simp only [comparisons, List.mem_cons, List.not_mem_nil, or_false] at h
  rcases h with rfl | rfl | rfl | rfl | rfl | rfl
  · exact ⟨target, .inr (.inr ⟨.inr rfl, rfl⟩)⟩
  · exact ⟨target - 1, .inl ⟨by decide, Int.sub_one_lt_of_le (Int.le_refl _)⟩⟩
  · exact ⟨target, .inr (.inr ⟨.inl (by decide), rfl⟩)⟩
  · exact ⟨target + 1, .inr (.inl ⟨by decide, Int.lt_add_one_of_le (Int.le_refl _)⟩)⟩
  · exact ⟨target, .inr (.inr ⟨.inl (by decide), rfl⟩)⟩
  · exact ⟨target, .inr (.inr ⟨.inl (by decide), rfl⟩)⟩

theorem ComparedTarget.IsWritten.holds_rule_iff {a : ComparedTarget} (h : a.IsWritten)
    (value : Int) : a.rule.holds value = true ↔ a.comparison ≠ ['='] ∧ a.Asks value :=
  holds_ofText_iff h.comparison_mem _ value

/-- The lone equals sign is the only comparison whose rules never hold. -/
theorem ComparedTarget.IsWritten.rule_inert_iff {a : ComparedTarget} (h : a.IsWritten) :
    (∀ value, a.rule.holds value = false) ↔ a.comparison = ['='] := by
  constructor
  · intro hinert
    obtain ⟨value, hvalue⟩ := exists_compares h.comparison_mem (numeralValue a.digits)
    by_contra hne
    exact Bool.eq_false_iff.1 (hinert value) ((h.holds_rule_iff value).2 ⟨hne, hvalue⟩)
  · intro heq value
    exact Bool.eq_false_iff.2 fun hholds => ((h.holds_rule_iff value).1 hholds).1 heq

/-! ## The commands of a text -/

variable {text rest rest' : Text} {commands commands' : List WrittenCommand}

/-- Of a text that goes on with a modifier, the blanks in front and the modifier are fixed. -/
theorem append_cons_inj {blanks blanks' : Text} {c c' : Char} (hblanks : AllBlank blanks)
    (hblanks' : AllBlank blanks') (hc : isCommandChar c = true) (hc' : isCommandChar c' = true)
    (h : blanks ++ c :: rest = blanks' ++ c' :: rest') :
    blanks = blanks' ∧ c = c' ∧ rest = rest' := by
  have hnot : ∀ {c : Char} (rest : Text), isCommandChar c = true →
      NotAhead (fun c => !isCommandChar c) (c :: rest) :=
    fun _ hc => notAhead_cons (by rw [hc]; rfl)
  have htake := takeWhile_append hblanks.notCommandChar (hnot rest hc)
  have hdrop := dropWhile_append hblanks.notCommandChar (hnot rest hc)
  rw [h, takeWhile_append hblanks'.notCommandChar (hnot rest' hc')] at htake
  rw [h, dropWhile_append hblanks'.notCommandChar (hnot rest' hc')] at hdrop
  obtain ⟨hhead, htail⟩ := List.cons.inj hdrop
  exact ⟨htake.symm, hhead.symm, htail.symm⟩

/-- Two commands of one kind with the same text from their arguments on are the same. -/
theorem WrittenCommand.argument_append_inj {written written' : WrittenCommand}
    (hallowed : written.IsAllowed) (hallowed' : written'.IsAllowed)
    (ht : NotAhead isDigit rest) (ht' : NotAhead isDigit rest')
    (hmodifier : written.modifier = written'.modifier)
    (h : written.argument ++ rest = written'.argument ++ rest') :
    written = written' ∧ rest = rest' := by
  cases written <;> cases written' <;> cases hmodifier
  case explode.explode => exact ⟨rfl, h⟩
  case keep.keep a a' =>
    obtain ⟨rfl, hrest⟩ := hallowed.1.append_inj hallowed'.1 ht ht' h
    exact ⟨rfl, hrest⟩
  case drop.drop a a' =>
    obtain ⟨rfl, hrest⟩ := hallowed.1.append_inj hallowed'.1 ht ht' h
    exact ⟨rfl, hrest⟩
  case reroll.reroll a a' =>
    obtain ⟨rfl, hrest⟩ := hallowed.1.append_inj hallowed'.1 ht ht' h
    exact ⟨rfl, hrest⟩

/-- A blank text holds no command. -/
theorem IsScript.eq_nil_of_allBlank (h : IsScript commands text) (hblank : AllBlank text) :
    commands = [] := by
  cases h with
  | blank => rfl
  | @cons blanks rest written commands _ _ _ _ =>
    obtain ⟨c, htext, hc⟩ := written.exists_ofChar?
    have hmem : c ∈ blanks ++ written.text ++ rest := by simp [htext]
    have hcommand := isCommandChar_of_ofChar? hc
    rw [isCommandChar_eq_false_of_isBlank (hblank c hmem)] at hcommand
    cases hcommand

/-- A text is written as at most one list of commands. -/
theorem IsScript.unique (h : IsScript commands text) (h' : IsScript commands' text) :
    commands' = commands := by
  induction h generalizing commands' with
  | blank hblanks => exact h'.eq_nil_of_allBlank hblanks
  | @cons blanks rest written commands hblanks hallowed ht hscript ih =>
    generalize hwhole : blanks ++ written.text ++ rest = whole at h'
    cases h' with
    | blank hblank =>
      subst hwhole
      exact ((IsScript.cons hblanks hallowed ht hscript).eq_nil_of_allBlank hblank).symm
    | @cons blanks' rest' written' commands' hblanks' hallowed' ht' hscript' =>
      obtain ⟨c, htext, hc⟩ := written.exists_ofChar?
      obtain ⟨c', htext', hc'⟩ := written'.exists_ofChar?
      rw [htext, htext', List.append_assoc, List.append_assoc, List.cons_append,
        List.cons_append] at hwhole
      obtain ⟨-, rfl, hargument⟩ := append_cons_inj hblanks hblanks'
        (isCommandChar_of_ofChar? hc) (isCommandChar_of_ofChar? hc') hwhole
      rw [hc, Option.some.injEq] at hc'
      obtain ⟨rfl, rfl⟩ :=
        WrittenCommand.argument_append_inj hallowed hallowed' ht ht' hc' hargument
      rw [ih hscript']

namespace Options

/-! ## What is rolled again -/

/-- The rules of options are those of the reroll commands that they follow. -/
theorem Follow.mem_rerolls_iff {options : Options} (h : options.Follow commands)
    {rule : RerollRule} : rule ∈ options.rerolls ↔ ∃ a, .reroll a ∈ commands ∧ a.rule = rule := by
  rw [h.rerolls, List.mem_filterMap]
  constructor
  · rintro ⟨written, hmem, hrule⟩
    cases written with
    | reroll a => exact ⟨a, hmem, Option.some.inj hrule⟩
    | _ => cases hrule
  · rintro ⟨a, hmem, rfl⟩
    exact ⟨_, hmem, rfl⟩

/-- Options that were read from a text that is understood whole ask for a reroll just if one of the
commands written there does whose comparison is not a lone equals sign. The commands with this
comparison, and no others, have rules that never hold. -/
theorem needsReroll_iff_exists_asks (text : Text) (h : (parse text).isValid = true) :
    ∃ commands, IsScript commands text ∧ (∀ other, IsScript other text → other = commands) ∧
      (∀ value, (parse text).needsReroll value = true ↔
        ∃ a, .reroll a ∈ commands ∧ a.comparison ≠ ['='] ∧ a.Asks value) ∧
      ∀ a, .reroll a ∈ commands → a.rule ∈ (parse text).rerolls ∧
        ((∀ value, a.rule.holds value = false) ↔ a.comparison = ['=']) := by
  have herror : (parse text).error = none := Option.isNone_iff_eq_none.1 h
  obtain ⟨commands, hscript, happly⟩ := exists_isScript_of_readAll herror
  have hconsistent : IsConsistent commands :=
    (exists_applyAll_iff_isConsistent hscript.isAllowed_of_mem text).1 ⟨_, happly⟩
  have hfollow := (follow_parse hscript hconsistent).2
  have hwritten : ∀ a, .reroll a ∈ commands → a.IsWritten :=
    fun a ha => (hscript.isAllowed_of_mem _ ha).1
  refine ⟨commands, hscript, fun other => hscript.unique, fun value => ?_, fun a ha => ?_⟩
  · rw [needsReroll, List.any_eq_true]
    constructor
    · rintro ⟨rule, hrule, hholds⟩
      obtain ⟨a, ha, rfl⟩ := hfollow.mem_rerolls_iff.1 hrule
      exact ⟨a, ha, ((hwritten a ha).holds_rule_iff value).1 hholds⟩
    · rintro ⟨a, ha, hasks⟩
      exact ⟨a.rule, hfollow.mem_rerolls_iff.2 ⟨a, ha, rfl⟩,
        ((hwritten a ha).holds_rule_iff value).2 hasks⟩
  · exact ⟨hfollow.mem_rerolls_iff.2 ⟨a, ha, rfl⟩, (hwritten a ha).rule_inert_iff⟩

/-- A rule with a lone equals sign beside one that holds. -/
def loneEquality : Text :=
  "r=4 r<=2".toList

/-- The commands of `loneEquality`. -/
def loneEqualityCommands : List WrittenCommand :=
  [.reroll ⟨['='], ['4']⟩, .reroll ⟨['<', '='], ['2']⟩]

theorem isScript_loneEquality : IsScript loneEqualityCommands loneEquality := by
  have hfirst : WrittenCommand.IsAllowed (.reroll ⟨['='], ['4']⟩) := by
    refine ⟨⟨⟨none, some '=', rfl, nofun, ?_⟩, by decide, List.forall_mem_singleton.2 (by decide)⟩,
      by decide⟩
    rintro c ⟨⟩
    decide
  have hsecond : WrittenCommand.IsAllowed (.reroll ⟨['<', '='], ['2']⟩) := by
    refine ⟨⟨⟨some '<', some '=', rfl, ?_, ?_⟩, by decide,
      List.forall_mem_singleton.2 (by decide)⟩, by decide⟩
    · rintro c ⟨⟩
      decide
    · rintro c ⟨⟩
      decide
  have hend : IsScript [] [] := .blank (by decide)
  have hmore := IsScript.cons (by decide : AllBlank [' ']) hsecond notAhead_nil hend
  exact .cons (by decide : AllBlank []) hfirst (notAhead_cons (by decide)) hmore

/-- A value that a lone equals sign asks for is not rolled again. -/
theorem needsReroll_loneEquality :
    (parse loneEquality).isValid = true ∧
      WrittenCommand.reroll ⟨['='], ['4']⟩ ∈ loneEqualityCommands ∧
      ComparedTarget.Asks ⟨['='], ['4']⟩ 4 ∧ (parse loneEquality).needsReroll 4 = false ∧
      (parse loneEquality).needsReroll 2 = true := by
  have hvalid : (parse loneEquality).isValid = true := by decide +kernel
  obtain ⟨commands, -, hunique, hneeds, -⟩ := needsReroll_iff_exists_asks loneEquality hvalid
  obtain rfl := hunique _ isScript_loneEquality
  refine ⟨hvalid, List.mem_cons_self, by decide, Bool.eq_false_iff.2 fun hfour => ?_,
    (hneeds 2).2 ⟨⟨['<', '='], ['2']⟩, by decide, by decide, by decide⟩⟩
  obtain ⟨a, ha, hcomparison, hasks⟩ := (hneeds 4).1 hfour
  simp only [loneEqualityCommands, List.mem_cons, WrittenCommand.reroll.injEq, List.not_mem_nil,
    or_false] at ha
  rcases ha with rfl | rfl
  · exact hcomparison rfl
  · exact absurd hasks (by decide)

end Options

end DiceNotation
