import DiceNotation.Proofs.Modifier.Lookahead

/-!
# Where the reading of options ends

Options are read up to the first fault, and what they are by then is final. The text of the options
is in three parts: commands that come into force, blanks, and, unless the text ends there, something
that is refused (`Options.Offends`). How a text is divided like this and what its options are is
said by rules, one for each part (`Options.ReadAs`), which agree with the reader
(`Options.readAs_iff`). By induction on the rules:

* Whatever the text, at most one of keeping and dropping is in force, with a count in range, and
    then exactly one side is selected (`Options.IsWellFormed`).
* If there is a fault, then what stands in front of it is understood alone, as the same options, and
    no command that is added behind the text makes a difference
    (`Options.parse_isWellFormed_and_frozen`).
-/

namespace DiceNotation

variable {text rest tail : Text} {modifier : Modifier}

/-! ## Commands in front of other text -/

theorem readSelection_append_right (modifier : Modifier) (usual : Side)
    (select : Side → Nat → Command) (text : Text) (ht : NotAhead isArgumentChar tail) :
    readSelection modifier usual select (text ++ tail) =
      (readSelection modifier usual select text).map fun (command, rest) =>
        (command, rest ++ tail) := by
  rw [readSelection, readSelection, SidedCount.read?_append_right text ht]
  cases SidedCount.read? text with
  | none => rfl
  | some found =>
    dsimp only [Option.map_some]
    cases boundedValue? argumentDigits found.1.digits with
    | none => rfl
    | some n => cases n <;> rfl

/-- A command is read, or refused, the same in front of a text that begins like no argument. -/
theorem Command.read_append_right (modifier : Modifier) (text : Text)
    (ht : NotAhead isArgumentChar tail) :
    Command.read modifier (text ++ tail) =
      (Command.read modifier text).map fun (command, rest) => (command, rest ++ tail) := by
  cases modifier with
  | explode => rfl
  | keep => exact readSelection_append_right .keep .high .keep text ht
  | drop => exact readSelection_append_right .drop .low .drop text ht
  | reroll =>
    rw [Command.read, Command.read, ComparedTarget.read?_append_right text ht]
    cases ComparedTarget.read? text with
    | none => rfl
    | some found =>
      dsimp only [Option.map_some]
      cases boundedValue? argumentDigits found.1.digits <;> rfl

theorem Modifier.takeArgument_append_right (modifier : Modifier) (text : Text)
    (ht : NotAhead isArgumentChar tail) :
    modifier.takeArgument (text ++ tail) =
      ((modifier.takeArgument text).1, (modifier.takeArgument text).2 ++ tail) := by
  cases modifier with
  | explode => rfl
  | keep =>
    rw [takeArgument, takeArgument, SidedCount.read?_append_right text ht]
    cases SidedCount.read? text <;> rfl
  | drop =>
    rw [takeArgument, takeArgument, SidedCount.read?_append_right text ht]
    cases SidedCount.read? text <;> rfl
  | reroll =>
    rw [takeArgument, takeArgument, ComparedTarget.read?_append_right text ht]
    cases ComparedTarget.read? text <;> rfl

theorem WrittenCommand.IsAllowed.isSolid {written : WrittenCommand} (h : written.IsAllowed) :
    IsSolid written.text := by
  cases written with
  | explode => exact isSolid_of_any (by decide) (by decide)
  | keep a => exact ⟨List.cons_ne_nil _ _, List.forall_mem_cons.2 ⟨by decide, h.1.isBlank_eq_false⟩⟩
  | drop a => exact ⟨List.cons_ne_nil _ _, List.forall_mem_cons.2 ⟨by decide, h.1.isBlank_eq_false⟩⟩
  | reroll a =>
    exact ⟨List.cons_ne_nil _ _, List.forall_mem_cons.2 ⟨by decide, h.1.isBlank_eq_false⟩⟩

namespace Options

variable {options applied last : Options} {error : OptionsError}

/-! ## Faults -/

/-- The token, with the text `rest` behind it, is refused by the options in force before it. -/
inductive Offends (options : Options) : OptionsError → (token rest : Text) → Prop
  /-- The token belongs to no modifier. It reaches to the next one, less the blanks in front. -/
  | unrecognized {token blanks rest : Text} :
    token ≠ [] → NotAhead isBlank token → NotAhead isBlank token.reverse →
      (∀ c ∈ token, isCommandChar c = false) → AllBlank blanks →
        NotAhead (fun c => !isCommandChar c) rest →
          Offends options (.unrecognized token) token (blanks ++ rest)
  /-- The modifier does not find the argument that it needs. -/
  | argument {c : Char} {modifier : Modifier} {argument rest : Text} {error : OptionsError} :
    Modifier.ofChar? c = some modifier →
      modifier.takeArgument (argument ++ rest) = (argument, rest) →
        Command.read modifier (argument ++ rest) = .error error →
          Offends options error (c :: argument) rest
  /-- The command does not go with one that is in force. -/
  | conflict {c : Char} {modifier : Modifier} {argument rest : Text} {command : Command}
    {error : OptionsError} :
    Modifier.ofChar? c = some modifier →
      Command.read modifier (argument ++ rest) = .ok (command, rest) →
        options.apply command = .error error → Offends options error (c :: argument) rest

/-- Of the text, the options `last` are understood on top of those already in force. -/
inductive ReadAs : Options → Text → Options → Prop
  | blank {options : Options} {blanks : Text} : AllBlank blanks → ReadAs options blanks options
  | fault {options : Options} {error : OptionsError} {blanks token rest : Text} :
    AllBlank blanks → options.Offends error token rest →
      ReadAs options (blanks ++ token ++ rest) (options.fail error)
  | command {options applied last : Options} {blanks text rest : Text} {c : Char}
    {modifier : Modifier} {command : Command} :
    AllBlank blanks → Modifier.ofChar? c = some modifier →
      Command.read modifier text = .ok (command, rest) → options.apply command = .ok applied →
        ReadAs applied rest last → ReadAs options (blanks ++ c :: text) last

theorem allBlank_of_skipped (h : ¬(!(strip (text.takeWhile fun c => !isCommandChar c)).isEmpty) =
    true) : AllBlank (text.takeWhile fun c => !isCommandChar c) := by
  rw [← strip_eq_nil_iff]
  simpa using h

/-- What is read keeps to the rules. -/
theorem readAs_readAll (options : Options) (text : Text) :
    options.ReadAs text (options.readAll text) := by
  fun_induction readAll options text with
  | case1 options text skipped hskipped =>
    obtain ⟨front, back, hfront, hback, hrun⟩ :=
      exists_blanks_strip (text.takeWhile fun c => !isCommandChar c)
    have hnot : ∀ c ∈ skipped, isCommandChar c = false := by
      intro c hc
      have hmem : c ∈ text.takeWhile fun c => !isCommandChar c := by
        rw [← hrun]
        exact List.mem_append_left _ (List.mem_append_right _ hc)
      simpa using List.all_eq_true.1 List.all_takeWhile c hmem
    have hoffends : options.Offends (.unrecognized skipped) skipped
        (back ++ text.dropWhile fun c => !isCommandChar c) :=
      .unrecognized (by simpa using hskipped) (notAhead_strip _) (notAhead_reverse_strip _) hnot
        hback (notAhead_dropWhile _ text)
    have hsplit :
        front ++ skipped ++ (back ++ text.dropWhile fun c => !isCommandChar c) = text := by
      rw [← List.append_assoc, hrun, List.takeWhile_append_dropWhile]
    have hfault := ReadAs.fault hfront hoffends
    rwa [hsplit] at hfault
  | case2 options text skipped hskipped hrest =>
    refine .blank ?_
    have hall : (text.takeWhile fun c => !isCommandChar c) = text := by
      rw [List.takeWhile_eq_self_iff, ← List.dropWhile_eq_nil_iff]
      exact hrest
    exact hall ▸ allBlank_of_skipped hskipped
  | case3 options text skipped hskipped c rest hrest hc =>
    have hcommand := isCommandChar_of_dropWhile hrest
    rw [isCommandChar, hc] at hcommand
    cases hcommand
  | case4 options text skipped hskipped c rest hrest modifier hc error hread =>
    rw [← List.takeWhile_append_dropWhile (p := fun c => !isCommandChar c) (l := text), hrest]
    have happend := modifier.takeArgument_append rest
    have hoffends : options.Offends error (c :: (modifier.takeArgument rest).1)
        (modifier.takeArgument rest).2 :=
      .argument hc (by rw [happend]) (by rw [happend, hread])
    have hfault := ReadAs.fault (allBlank_of_skipped hskipped) hoffends
    rwa [List.append_assoc, List.cons_append, happend] at hfault
  | case5 options text skipped hskipped c rest hrest modifier hc command after hread error happly =>
    rw [← List.takeWhile_append_dropWhile (p := fun c => !isCommandChar c) (l := text), hrest]
    have happend := modifier.takeArgument_append rest
    rw [Command.takeArgument_of_read hread] at happend
    have hoffends : options.Offends error (c :: (modifier.takeArgument rest).1) after :=
      .conflict hc (by rw [happend, hread]) happly
    have hfault := ReadAs.fault (allBlank_of_skipped hskipped) hoffends
    rwa [List.append_assoc, List.cons_append, happend] at hfault
  | case6 options text skipped hskipped c rest hrest modifier hc command after hread applied happly
    ih =>
    rw [← List.takeWhile_append_dropWhile (p := fun c => !isCommandChar c) (l := text), hrest]
    exact .command (allBlank_of_skipped hskipped) hc hread happly ih

/-- Where something is refused, the reading ends. -/
theorem Offends.readAll_eq {blanks token : Text} (h : options.Offends error token rest)
    (hblanks : AllBlank blanks) :
    options.readAll (blanks ++ token ++ rest) = options.fail error := by
  cases h with
  | @unrecognized _ back rest hne hfront hlast hnot hback hrest =>
    have hrun : ∀ c ∈ blanks ++ token ++ back, (!isCommandChar c) = true := by
      have htoken : ∀ c ∈ token, (!isCommandChar c) = true := fun c hc => by rw [hnot c hc]; rfl
      simp only [List.forall_mem_append]
      exact ⟨⟨hblanks.notCommandChar, htoken⟩, hback.notCommandChar⟩
    have htake : ((blanks ++ token ++ (back ++ rest)).takeWhile fun c => !isCommandChar c) =
        blanks ++ token ++ back := by
      rw [← List.append_assoc, takeWhile_append hrun hrest]
    rw [readAll]
    simp only [htake, strip_append_of_notAhead hblanks hback hfront hlast]
    rw [if_pos (by simpa using hne)]
  | argument hc _ hread =>
    rw [List.append_assoc, List.cons_append, readAll_modifier options hblanks hc, hread]
  | conflict hc hread happly =>
    rw [List.append_assoc, List.cons_append, readAll_modifier options hblanks hc, hread]
    simp only [happly]

/-- The rules say what is read. -/
theorem readAs_iff : options.ReadAs text last ↔ options.readAll text = last := by
  refine ⟨fun h => ?_, fun h => h ▸ readAs_readAll options text⟩
  induction h with
  | blank hblanks => exact readAll_blank _ hblanks
  | fault hblanks hoffends => exact hoffends.readAll_eq hblanks
  | command hblanks hc hread happly _ ih =>
    rw [readAll_modifier _ hblanks hc, hread]
    simp only [happly, ih]

/-! ## Well-formed options -/

/-- At most one of keeping and dropping is in force, with a count in range, and just then one side
is selected. -/
structure IsWellFormed (options : Options) : Prop where
  exclusive : options.keep? = none ∨ options.drop? = none
  inRange : ∀ n, options.keep? = some n ∨ options.drop? = some n → 1 ≤ n ∧ n ≤ 999999999
  oneSide : options.keep? ≠ none ∨ options.drop? ≠ none → options.highest ≠ options.lowest
  noSide : options.keep? = none → options.drop? = none →
    options.highest = false ∧ options.lowest = false

theorem numeralValue_le_of_isShort {digits : Text} (h : IsShort digits) :
    numeralValue digits ≤ 999999999 :=
  Nat.le_of_lt_succ (numeralValue_lt_of_length h)

theorem beq_high_ne_beq_low (side : Side) : (side == .high) ≠ (side == .low) := by
  cases side <;> decide

/-- A setting that is never zero is not made if it counts as zero. -/
theorem eq_none_of_not_pos_getD {setting : Option Nat} (h : ∀ n, setting = some n → 1 ≤ n)
    (hzero : ¬0 < setting.getD 0) : setting = none := by
  cases setting with
  | none => rfl
  | some n => exact absurd (h n rfl) hzero

/-- A command that is read keeps options well formed: its count is in range, its side is one of the
two, and it comes into force only if it does not conflict with what is in force. -/
theorem IsWellFormed.apply {command : Command} (h : options.IsWellFormed)
    (hread : Command.read modifier text = .ok (command, rest))
    (happly : options.apply command = .ok applied) : applied.IsWellFormed := by
  obtain ⟨written, hallowed, -, -, rfl⟩ := exists_written_of_read hread
  obtain ⟨hfree, rfl⟩ := apply_eq_ok_iff.1 happly
  cases written with
  | explode => exact ⟨h.exclusive, h.inRange, h.oneSide, h.noSide⟩
  | reroll a => exact ⟨h.exclusive, h.inRange, h.oneSide, h.noSide⟩
  | keep a =>
    obtain ⟨-, hshort, hpos⟩ := hallowed
    have hdrop : options.drop? = none :=
      eq_none_of_not_pos_getD (fun n hn => (h.inRange n (.inr hn)).1) (of_decide_eq_false hfree)
    refine ⟨.inr hdrop, ?_, fun _ => beq_high_ne_beq_low _, nofun⟩
    rintro n (hn | hn)
    · cases hn
      exact ⟨hpos, numeralValue_le_of_isShort hshort⟩
    · exact h.inRange n (.inr hn)
  | drop a =>
    obtain ⟨-, hshort, hpos⟩ := hallowed
    have hkeep : options.keep? = none :=
      eq_none_of_not_pos_getD (fun n hn => (h.inRange n (.inl hn)).1) (of_decide_eq_false hfree)
    refine ⟨.inl hkeep, ?_, fun _ => beq_high_ne_beq_low _, fun _ => nofun⟩
    rintro n (hn | hn)
    · exact h.inRange n (.inl hn)
    · cases hn
      exact ⟨hpos, numeralValue_le_of_isShort hshort⟩

theorem IsWellFormed.of_readAs (h : options.IsWellFormed) (hread : options.ReadAs text last) :
    last.IsWellFormed := by
  induction hread with
  | blank => exact h
  | fault => exact ⟨h.exclusive, h.inRange, h.oneSide, h.noSide⟩
  | command _ _ hread happly _ ih => exact ih (h.apply hread happly)

theorem isWellFormed_parse (text : Text) : (parse text).IsWellFormed := by
  have hempty : IsWellFormed { text := text } :=
    ⟨.inl rfl, fun _ hset => hset.elim (by simp) (by simp),
      fun hset => absurd rfl (hset.elim id id), fun _ _ => ⟨rfl, rfl⟩⟩
  exact hempty.of_readAs (readAs_readAll _ text)

/-! ## The text that options were read from -/

/-- The text that the options keep has no influence on a command. -/
theorem apply_withText (options : Options) (other : Text) (command : Command) :
    apply { options with text := other } command =
      (options.apply command).map fun applied => { applied with text := other } := by
  have hconflicts :
      conflicts { options with text := other } command = options.conflicts command := by
    cases command <;> rfl
  have henforce : enforce { options with text := other } command =
      { options.enforce command with text := other } := by
    cases command <;> rfl
  rw [apply, apply, hconflicts, henforce]
  split <;> rfl

theorem Offends.withText {token : Text} (h : options.Offends error token rest) (other : Text) :
    Offends { options with text := other } error token rest := by
  cases h with
  | unrecognized hne hfront hlast hnot hback hrest =>
    exact .unrecognized hne hfront hlast hnot hback hrest
  | argument hc htake hread => exact .argument hc htake hread
  | conflict hc hread happly => exact .conflict hc hread (by rw [apply_withText, happly]; rfl)

theorem ReadAs.withText (h : options.ReadAs text last) (other : Text) :
    ReadAs { options with text := other } text { last with text := other } := by
  induction h with
  | blank hblanks => exact .blank hblanks
  | fault hblanks hoffends => exact .fault hblanks (hoffends.withText other)
  | command hblanks hc hread happly _ ih =>
    exact .command hblanks hc hread (by rw [apply_withText, happly]; rfl) ih

theorem readAll_withText (options : Options) (other text : Text) :
    readAll { options with text := other } text = { options.readAll text with text := other } :=
  readAs_iff.1 ((readAs_readAll options text).withText other)

/-! ## In front of the fault -/

/-- In front of a fault there is a script, and its commands are all that came into force. -/
theorem ReadAs.exists_front (h : options.ReadAs text last) (hbefore : options.error = none)
    (herror : last.error = some error) :
    ∃ commands front blanks token rest, IsScript commands front ∧
      NotAhead isBlank front.reverse ∧ AllBlank blanks ∧
      front ++ blanks ++ token ++ rest = text ∧ (options.readAll front).error = none ∧
      (options.readAll front).Offends error token rest ∧
      last = (options.readAll front).fail error := by
  induction h with
  | blank hblanks =>
    rw [hbefore] at herror
    cases herror
  | @fault options error blanks token rest hblanks hoffends =>
    cases herror
    have hnil : options.readAll [] = options := readAll_blank options (List.forall_mem_nil _)
    refine ⟨[], [], blanks, token, rest, .blank (List.forall_mem_nil _), notAhead_nil, hblanks, rfl,
      ?_, ?_, ?_⟩
    · rwa [hnil]
    · rwa [hnil]
    · rw [hnil]
  | @command options applied last blanks text rest c modifier command hblanks hc hread happly _
      ih =>
    obtain ⟨commands, front, between, token, behind, hscript, hlast, hbetween, rfl, hvalid,
      hoffends, hfail⟩ := ih ((error_of_apply happly).trans hbefore) herror
    obtain ⟨written, hallowed, rfl, rfl, rfl⟩ := exists_written_of_read hread
    have hfront : options.readAll (blanks ++ written.text ++ front) = applied.readAll front := by
      rw [options.readAll_command hblanks hallowed hscript.notAhead_isDigit, happly]
    refine ⟨written :: commands, blanks ++ written.text ++ front, between, token, behind,
      .cons hblanks hallowed hscript.notAhead_isDigit hscript, ?_, hbetween, ?_, ?_, ?_, ?_⟩
    · -- The last character is that of the commands behind, or else of this one.
      rw [List.reverse_append, List.reverse_append]
      exact hlast.append_notAhead
        (hallowed.isSolid.reverse.notAhead.append hallowed.isSolid.reverse.ne_nil _)
    · simp only [written.text_of_ofChar? hc, List.append_assoc, List.cons_append]
    · rwa [hfront]
    · rwa [hfront]
    · rwa [hfront]

/-! ## Behind the fault -/

/-- What is refused is refused as well in front of a space and a command. -/
theorem Offends.append {token suffix : Text} {c : Char} (h : options.Offends error token rest)
    (hc : isCommandChar c = true) : options.Offends error token (rest ++ ' ' :: c :: suffix) := by
  have hahead : NotAhead isArgumentChar (' ' :: c :: suffix) := notAhead_cons (by decide)
  cases h with
  | @unrecognized _ blanks rest hne hfront hlast hnot hblanks hrest =>
    have hcommand : NotAhead (fun c => !isCommandChar c) (c :: suffix) :=
      notAhead_cons (by rw [hc]; rfl)
    cases rest with
    | nil =>
      -- The space is one more blank behind the token.
      have hspace : AllBlank (blanks ++ [' ']) := hblanks.append (by decide)
      have hmore : options.Offends (.unrecognized token) token (blanks ++ [' '] ++ c :: suffix) :=
        .unrecognized hne hfront hlast hnot hspace hcommand
      simpa using hmore
    | cons first rest =>
      rw [List.append_assoc]
      exact .unrecognized hne hfront hlast hnot hblanks (hrest.append (List.cons_ne_nil _ _) _)
  | @argument _ modifier argument rest error hchar htake hread =>
    refine .argument hchar ?_ ?_
    · rw [← List.append_assoc, Modifier.takeArgument_append_right _ _ hahead, htake]
    · rw [← List.append_assoc, Command.read_append_right _ _ hahead, hread]
      rfl
  | conflict hchar hread happly =>
    refine .conflict hchar ?_ happly
    rw [← List.append_assoc, Command.read_append_right _ _ hahead, hread]
    rfl

theorem ReadAs.append {c : Char} {suffix : Text} (h : options.ReadAs text last)
    (hbefore : options.error = none) (herror : last.error = some error)
    (hc : isCommandChar c = true) : options.ReadAs (text ++ ' ' :: c :: suffix) last := by
  induction h with
  | blank =>
    rw [hbefore] at herror
    cases herror
  | fault hblanks hoffends =>
    rw [List.append_assoc]
    exact .fault hblanks (hoffends.append hc)
  | command hblanks hchar hread happly _ ih =>
    have hahead : NotAhead isArgumentChar (' ' :: c :: suffix) := notAhead_cons (by decide)
    rw [List.append_assoc, List.cons_append]
    refine .command hblanks hchar ?_ happly (ih ((error_of_apply happly).trans hbefore) herror)
    rw [Command.read_append_right _ _ hahead, hread]
    rfl

/-- The options of any text are well formed. If there is a fault, then it is met by what the text in
front of it is understood as, less the blanks before the fault; this is understood alone, and all
that it asks for is what the whole text asks for. A text that goes on with another command, behind a
space, has the same fault and asks for the same. -/
theorem parse_isWellFormed_and_frozen (text : Text) :
    (parse text).IsWellFormed ∧ ∀ error, (parse text).error = some error →
      (∃ front blanks token rest, front ++ blanks ++ token ++ rest = text ∧
        NotAhead isBlank front.reverse ∧ AllBlank blanks ∧
        (parse front).Offends error token rest ∧ (parse front).isValid = true ∧
        parse front = { parse text with text := front, error := none }) ∧
      ∀ c suffix, isCommandChar c = true →
        parse (text ++ ' ' :: c :: suffix) =
          { parse text with text := text ++ ' ' :: c :: suffix } := by
  have hread := readAs_readAll { text := text } text
  refine ⟨isWellFormed_parse text, fun error herror => ⟨?_, fun c suffix hc => ?_⟩⟩
  · obtain ⟨commands, front, blanks, token, rest, -, hlast, hblanks, htext, hvalid, hoffends,
      hfail⟩ := hread.exists_front rfl herror
    have hwhole : parse text = (readAll { text := text } front).fail error := hfail
    -- Alone, the front is read in the same way, up to the text that is kept.
    have hfront : parse front = { readAll { text := text } front with text := front } :=
      readAll_withText { text := text } front front
    generalize readAll { text := text } front = before at hvalid hoffends hwhole hfront
    refine ⟨front, blanks, token, rest, htext, hlast, hblanks, ?_, ?_, ?_⟩
    · rw [hfront]
      exact hoffends.withText front
    · rw [hfront, isValid, hvalid]
      rfl
    · rw [hwhole, hfront, fail, ← hvalid]
  · have hmore : ReadAs { text := text } (text ++ ' ' :: c :: suffix) (parse text) :=
      hread.append rfl herror hc
    exact readAs_iff.1 (hmore.withText (text ++ ' ' :: c :: suffix))

/-- Dice are kept and a rule is given, but then dice are dropped. -/
def conflictingOptions : Text :=
  " kL2 r<=1\u2003d1 !".toList

theorem parse_conflictingOptions :
    (parse conflictingOptions).error = some .keepAndDrop ∧
      (∃ front blanks token rest, front ++ blanks ++ token ++ rest = conflictingOptions ∧
        (parse front).isValid = true ∧ (parse front).keep? = some 2 ∧
        (parse front).lowest = true ∧ (parse front).needsReroll 1 = true) ∧
      isCommandChar '!' = true ∧ (parse (conflictingOptions ++ " !k1".toList)).exploding = false ∧
      (parse (conflictingOptions ++ " !k1".toList)).error = some .keepAndDrop := by
  have herror : (parse conflictingOptions).error = some .keepAndDrop := by decide +kernel
  have hfields : (parse conflictingOptions).keep? = some 2 ∧
      (parse conflictingOptions).lowest = true ∧
      (parse conflictingOptions).needsReroll 1 = true ∧
      (parse conflictingOptions).exploding = false := by decide +kernel
  obtain ⟨hkeep, hlowest, hneeds, hexploding⟩ := hfields
  obtain ⟨-, hfault⟩ := parse_isWellFormed_and_frozen conflictingOptions
  obtain ⟨⟨front, blanks, token, rest, htext, -, -, -, hvalid, hfront⟩, hfrozen⟩ :=
    hfault _ herror
  have hmore := hfrozen '!' "k1".toList (by decide)
  have hsuffix : " !k1".toList = ' ' :: '!' :: "k1".toList := by decide
  rw [← hsuffix] at hmore
  refine ⟨herror, ⟨front, blanks, token, rest, htext, hvalid, ?_⟩, by decide, ?_, ?_⟩
  · rw [hfront]
    exact ⟨hkeep, hlowest, hneeds⟩
  · rw [hmore]
    exact hexploding
  · rw [hmore]
    exact herror

end Options

end DiceNotation
