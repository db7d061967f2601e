import DiceNotation.Proofs.Dice.Tally
import DiceNotation.Proofs.Lexeme

/-!
# Reading a roll off its line

The line that shows a group after a roll lists every die with its marks, and the total behind them.
`Throw.read?` is a reader for it that knows nothing of the group but its notation, which stands in
front: it divides what is in the brackets at the commas, and reads each entry as an integer with the
marks for a die that exploded, was dropped and was rolled again, in that order (`Outcome.read?`).

It gives back the throw that was printed (`Throw.read?_describe`), and the entries without the last
two marks sum to the total (`Group.describe_isFaithful`). What the entries are made of holds them
apart: no comma and no bracket is among their characters (`Outcome.mem_text`).
-/

namespace DiceNotation

/-! ## The reader -/

/-- Reads an integer in decimal digits, with a minus sign in front if it is negative. -/
def readInteger? : Text → Option (Int × Text)
  | '-' :: text => (readDigits? text).map fun (digits, rest) => (-(numeralValue digits : Int), rest)
  | text => (readDigits? text).map fun (digits, rest) => (numeralValue digits, rest)

/-- Reads one entry: an integer with marks behind it, and nothing else. -/
def Outcome.read? (entry : Text) : Option Outcome := do
  let (value, marks) ← readInteger? entry
  let (exploded, marks) := readOneOf [explodedMark] marks
  let (dropped, marks) := readOneOf [droppedMark] marks
  let (rerolled, marks) := readOneOf [rerolledMark] marks
  if marks.isEmpty then some ⟨value, rerolled.isSome, dropped.isSome, exploded.isSome⟩ else none

/-- Reads the line that shows a throw of a group with the given notation. -/
def Throw.read? (written line : Text) : Option Throw := do
  let rest ← line.dropPrefix? ('(' :: written ++ [')', ' ', '['])
  let outcomes ← ((rest.takeWhile (· != ']')).splitOn ',').mapM Outcome.read?
  let number ← (rest.dropWhile (· != ']')).dropPrefix? [']', ' ', '=', ' ']
  let (total, after) ← readInteger? number
  if after.isEmpty then some ⟨outcomes, total⟩ else none

/-! ## Integers -/

variable {tail : Text} {c : Char}

theorem mem_integerText {n : Int} (h : c ∈ integerText n) : c = '-' ∨ isDigit c = true := by
  rw [integerText] at h
  split at h
  · rcases List.mem_cons.1 h with rfl | hdigit
    · exact .inl rfl
    · exact .inr (isDigit_of_mem_decimalText hdigit)
  · exact .inr (isDigit_of_mem_decimalText h)

/-- An integer is read off its text in front of anything but a digit. -/
theorem readInteger?_integerText (n : Int) (ht : NotAhead isDigit tail) :
    readInteger? (integerText n ++ tail) = some (n, tail) := by
  have hdigits := (isRun_decimalText n.natAbs).readDigits?_append ht
  have hvalue := numeralValue_decimalText n.natAbs
  rw [integerText]
  by_cases hn : n < 0
  · rw [if_pos hn, List.cons_append, readInteger?, hdigits]
    simp only [Option.map_some, hvalue, Int.ofNat_natAbs_of_nonpos hn.le, Int.neg_neg]
  · -- The text of a number that is not negative does not begin with a minus sign.
    have hunsigned : ∀ text, decimalText n.natAbs ++ tail = '-' :: text → False := by
      obtain ⟨c, digits, hcons, hc⟩ := (isRun_decimalText n.natAbs).head
      rintro text heq
      rw [hcons] at heq
      cases heq
      exact absurd hc (by decide)
    rw [if_neg hn, readInteger?.eq_2 _ hunsigned, hdigits]
    simp only [Option.map_some, hvalue, Int.natAbs_of_nonneg (Int.le_of_not_gt hn)]

/-! ## Entries -/

namespace Outcome

/-- The marks of the outcome, in the order in which they are written. -/
def marks (outcome : Outcome) : Text :=
  (if outcome.exploded then [explodedMark] else []) ++
    (if outcome.dropped then [droppedMark] else []) ++
    (if outcome.rerolled then [rerolledMark] else [])

theorem text_eq (outcome : Outcome) :
    outcome.text = integerText outcome.value ++ outcome.marks := by
  rw [text, marks, List.append_assoc, List.append_assoc, List.append_assoc]

theorem mem_marks {outcome : Outcome} (h : c ∈ outcome.marks) :
    c ∈ [explodedMark, droppedMark, rerolledMark] := by
  have hmark : ∀ {p : Prop} [Decidable p] {mark : Char}, c ∈ (if p then [mark] else []) →
      c = mark := by
    intro p _ mark hmem
    split at hmem
    · exact List.mem_singleton.1 hmem
    · cases hmem
  rw [marks, List.mem_append, List.mem_append] at h
  rcases h with (hexploded | hdropped) | hrerolled
  · exact hmark hexploded ▸ List.mem_cons_self
  · exact hmark hdropped ▸ List.mem_cons_of_mem _ List.mem_cons_self
  · exact hmark hrerolled ▸ List.mem_cons_of_mem _ (List.mem_cons_of_mem _ List.mem_cons_self)

/-- What an entry is made of. -/
theorem mem_text {outcome : Outcome} (h : c ∈ outcome.text) :
    c = '-' ∨ isDigit c = true ∨ c ∈ [explodedMark, droppedMark, rerolledMark] := by
  rw [text_eq, List.mem_append] at h
  rcases h with hvalue | hmark
  · exact (mem_integerText hvalue).imp_right .inl
  · exact .inr (.inr (mem_marks hmark))

theorem notAhead_marks (outcome : Outcome) : NotAhead isDigit outcome.marks := by
  intro c hc
  have hnone : [explodedMark, droppedMark, rerolledMark].any isDigit = false := by decide
  exact eq_false_of_any_eq_false hnone (mem_marks (List.mem_of_mem_head? hc))

/-- An entry is read as the outcome that it shows. -/
theorem read?_text (outcome : Outcome) : read? outcome.text = some outcome := by
  rw [text_eq, read?, readInteger?_integerText _ outcome.notAhead_marks]
  obtain ⟨value, rerolled, dropped, exploded⟩ := outcome
  cases exploded <;> cases dropped <;> cases rerolled <;> rfl

end Outcome

/-! ## Lines -/

theorem joinWith_eq_intercalate (separator : Text) (texts : List Text) :
    joinWith separator texts = separator.intercalate texts := by
  induction texts with
  | nil => rfl
  | cons text texts ih =>
    cases texts with
    | nil => exact List.intercalate_singleton.symm
    | cons next texts => rw [joinWith, ih, List.intercalate_cons_cons]; exact List.cons_ne_nil _ _

theorem mapM_read?_map_text (outcomes : List Outcome) :
    (outcomes.map Outcome.text).mapM Outcome.read? = some outcomes := by
  induction outcomes with
  | nil => rfl
  | cons outcome outcomes ih =>
    rw [List.map_cons, List.mapM_cons, Outcome.read?_text, ih]
    rfl

theorem mem_joinWith {separator : Text} {texts : List Text} (h : c ∈ joinWith separator texts) :
    c ∈ separator ∨ ∃ text ∈ texts, c ∈ text := by
  induction texts with
  | nil => cases h
  | cons text texts ih =>
    cases texts with
    | nil => exact .inr ⟨text, List.mem_cons_self, h⟩
    | cons next texts =>
      rw [joinWith, List.mem_append, List.mem_append] at h
      · rcases h with (htext | hseparator) | hmore
        · exact .inr ⟨text, List.mem_cons_self, htext⟩
        · exact .inl hseparator
        · rcases ih hmore with hseparator | ⟨found, hmem, hc⟩
          · exact .inl hseparator
          · exact .inr ⟨found, List.mem_cons_of_mem _ hmem, hc⟩
      · exact List.cons_ne_nil _ _

/-- A throw of at least one die is read off the line that shows it. -/
theorem Throw.read?_describe (group : Group) (hne : group.outcomes ≠ []) :
    read? group.text group.describe = some ⟨group.outcomes, group.total⟩ := by
  have hcomma : ∀ text ∈ group.outcomes.map Outcome.text, ',' ∉ text := by
    rw [List.forall_mem_map]
    intro outcome _ hmem
    exact absurd (Outcome.mem_text hmem) (by decide)
  have hbracket : ∀ c ∈ joinWith [','] (group.outcomes.map Outcome.text), (c != ']') = true := by
    intro c hc
    rw [bne_iff_ne]
    rintro rfl
    rcases mem_joinWith hc with hseparator | ⟨text, htext, hmem⟩
    · exact absurd hseparator (by decide)
    · obtain ⟨outcome, -, rfl⟩ := List.mem_map.1 htext
      exact absurd (Outcome.mem_text hmem) (by decide)
  have hend : NotAhead (· != ']') ([']', ' ', '=', ' '] ++ integerText group.total) :=
    notAhead_cons rfl
  have hsplit : (joinWith [','] (group.outcomes.map Outcome.text)).splitOn ',' =
      group.outcomes.map Outcome.text := by
    rw [joinWith_eq_intercalate]
    exact List.splitOn_intercalate ',' hcomma (mt List.map_eq_nil_iff.1 hne)
  have hnumber : readInteger? (integerText group.total) = some (group.total, []) := by
    have hread := readInteger?_integerText group.total notAhead_nil
    rwa [List.append_nil] at hread
  have hline : group.describe = '(' :: group.text ++ [')', ' ', '['] ++
      (joinWith [','] (group.outcomes.map Outcome.text) ++
        ([']', ' ', '=', ' '] ++ integerText group.total)) := by
    simp only [Group.describe, List.append_assoc, List.cons_append]
  rw [read?, hline, List.dropPrefix?_append_of_beq _ (beq_self_eq_true _)]
  simp only [Option.bind_eq_bind, Option.bind_some, takeWhile_append hbracket hend,
    dropWhile_append hbracket hend, hsplit, mapM_read?_map_text,
    List.dropPrefix?_append_of_beq _ (beq_self_eq_true [']', ' ', '=', ' ']), hnumber]
  rfl

/-! ## Rolled groups -/

variable {source after : Source} {group rolled : Group}

/-- A group with dice has something to show after its throw. -/
theorem outcomes_ne_nil_of_throwDice {dice : Nat} {faces : Faces} {options : Options}
    {throw : Throw} (hdice : 1 ≤ dice)
    (h : throwDice dice faces options source = (.ok throw, after)) : throw.outcomes ≠ [] := by
  rw [throwDice, Int.toNat_natCast] at h
  split at h
  · cases h
  · rename_i outcomes last hrolled
    cases h
    have hpool : poolCount outcomes = dice + explodedCount outcomes :=
      poolCount_rollPending _ _ _ hrolled
    have hmarked : poolCount (Throw.ofOutcomes options outcomes).outcomes = poolCount outcomes :=
      countP_markDropped _ (fun _ _ => rfl) _ _
    intro hnil
    rw [hnil, hpool] at hmarked
    exact absurd hmarked (by simp only [poolCount, List.countP_nil]; omega)

theorem exists_throw_of_roll (hvalid : group.isValid = true)
    (h : group.roll source = (.ok rolled, after)) :
    ∃ throw, throwDice group.dice group.faces group.options source = (.ok throw, after) ∧
      rolled = { group with outcomes := throw.outcomes, total := throw.total } := by
  rw [Group.roll, Option.isNone_iff_eq_none.1 hvalid] at h
  simp only [Group.rollDice] at h
  rcases hthrow : throwDice group.dice group.faces group.options source with ⟨e | throw, last⟩
  · rw [hthrow] at h
    cases h
  · rw [hthrow] at h
    cases h
    exact ⟨throw, rfl, rfl⟩

theorem total_eq_sum_of_throwDice {count : Int} {faces : Faces} {options : Options} {throw : Throw}
    (h : throwDice count faces options source = (.ok throw, after)) :
    throw.total =
      ((throw.outcomes.filter fun o => !o.rerolled && !o.dropped).map (·.value)).sum := by
  rw [throwDice] at h
  split at h
  · cases h
  · cases h
    exact total_ofOutcomes _ options

/-- The line that shows an accepted group after a roll tells what was rolled: read with nothing but
the notation of the group, it gives every die of the throw, in order and with its marks, and the
total. The entries without a mark for a dropped die or one that was rolled again sum to the total
behind them. -/
theorem Group.describe_isFaithful {count word suffix : Text}
    (hcreate : create count word suffix = .ok group) (hvalid : group.isValid = true)
    (hroll : group.roll source = (.ok rolled, after)) :
    ∃ throw, throwDice group.dice group.faces group.options source = (.ok throw, after) ∧
      rolled = { group with outcomes := throw.outcomes, total := throw.total } ∧
      Throw.read? group.text rolled.describe = some throw ∧
      throw.total =
        ((throw.outcomes.filter fun o => !o.rerolled && !o.dropped).map (·.value)).sum := by
  obtain ⟨throw, hthrow, rfl⟩ := exists_throw_of_roll hvalid hroll
  have hne := outcomes_ne_nil_of_throwDice (isSound_of_create hcreate hvalid).dice.1 hthrow
  exact ⟨throw, hthrow, rfl, Throw.read?_describe _ hne, total_eq_sum_of_throwDice hthrow⟩

/-- Four fudge dice that are rolled again on a minus one, of which the lowest is dropped. -/
def fudgeGroup : Group :=
  .assemble ['4'] ['f'] ['r', '<', '0', 'd', '1']

theorem describe_fudgeGroup :
    ∃ throw rolled after, fudgeGroup.roll (.scripted #[3, 1, 2, 2, 3]) = (.ok rolled, after) ∧
      rolled.describe = "(4dfr<0d1) [1,-1🔃,0✖,0,1] = 2".toList ∧
      Throw.read? fudgeGroup.text "(4dfr<0d1) [1,-1🔃,0✖,0,1] = 2".toList = some throw ∧
      throw.total = 2 := by
  have hcreate : Group.create ['4'] ['f'] ['r', '<', '0', 'd', '1'] = .ok fudgeGroup := by cbv
  have hvalid : fudgeGroup.isValid = true := by cbv
  have hline : (fudgeGroup.roll (.scripted #[3, 1, 2, 2, 3])).1.map (·.describe) =
      .ok "(4dfr<0d1) [1,-1🔃,0✖,0,1] = 2".toList := by cbv
  have htotal : (fudgeGroup.roll (.scripted #[3, 1, 2, 2, 3])).1.map (·.total) = .ok 2 := by cbv
  rcases hroll : fudgeGroup.roll (.scripted #[3, 1, 2, 2, 3]) with ⟨e | rolled, after⟩
  · rw [hroll] at htotal
    cases htotal
  · obtain ⟨throw, -, hrolled, hread, -⟩ := Group.describe_isFaithful hcreate hvalid hroll
    rw [hroll] at hline htotal
    have hshown : rolled.describe = "(4dfr<0d1) [1,-1🔃,0✖,0,1] = 2".toList := Except.ok.inj hline
    have hsum : rolled.total = 2 := Except.ok.inj htotal
    rw [hshown] at hread
    rw [hrolled] at hsum
    exact ⟨throw, rolled, after, rfl, hshown, hread, hsum⟩

end DiceNotation
