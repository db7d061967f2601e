import DiceNotation.Proofs.Dice.Audit
import DiceNotation.Proofs.Request.Agreement

/-!
# The lines of the detailed report

The detailed report joins its lines with line ends, and whoever reads it tells them apart at the
line ends (`splitLines`). No line ends inside of what the report writes itself: there is no carriage
return in numbers, in the marks of dice and in the notation of a request (`Request.IsPlain`), since
its pieces have no blanks.

The label is another matter. It is what a text has behind its last piece, line ends included, and so
it may have several lines. Whatever they are, the lines of the report follow them unchanged
(`Request.splitLines_details`), but nothing sets the two apart: a label can show another total above
the one that was rolled (`Request.splitLines_details_forgedTotal`).
-/

namespace DiceNotation

/-! ## Lines -/

/-- The lines of a text, divided at every line end. -/
def splitLines : Text → List Text
  | [] => [[]]
  | '\r' :: '\n' :: text => [] :: splitLines text
  | c :: text => (splitLines text).modifyHead (c :: ·)

variable {text : Text} {c : Char}

theorem splitLines_ne_nil (text : Text) : splitLines text ≠ [] := by
  fun_induction splitLines text with
  | case1 => exact List.cons_ne_nil _ _
  | case2 => exact List.cons_ne_nil _ _
  | case3 c text _ ih => rwa [Ne, List.modifyHead_eq_nil_iff]

/-- Two texts that are set apart by a line end share no line. -/
theorem splitLines_append (text more : Text) :
    splitLines (text ++ lineEnd ++ more) = splitLines text ++ splitLines more := by
  fun_induction splitLines text with
  | case1 => rfl
  | case2 text ih => exact congrArg ([] :: ·) ih
  | case3 c text hc ih =>
    -- The line end begins with a carriage return, and so it does not end a line with `c`.
    have hcons : ∀ rest, c = '\r' → text ++ lineEnd ++ more = '\n' :: rest → False := by
      intro rest hreturn hrest
      cases text with
      | nil => cases hrest
      | cons next text =>
        cases hrest
        exact hc text hreturn rfl
    obtain ⟨first, others, hlines⟩ := List.exists_cons_of_ne_nil (splitLines_ne_nil text)
    rw [List.cons_append, List.cons_append, splitLines.eq_3 _ _ hcons, ih, hlines]
    rfl

theorem splitLines_eq_singleton_iff : splitLines text = [text] ↔ ¬lineEnd <:+: text := by
  constructor
  · rintro hline ⟨front, back, rfl⟩
    have hlength := congrArg List.length hline
    have hfront := List.length_pos_iff.2 (splitLines_ne_nil front)
    have hback := List.length_pos_iff.2 (splitLines_ne_nil back)
    rw [splitLines_append, List.length_append, List.length_singleton] at hlength
    omega
  · intro hnone
    fun_induction splitLines text with
    | case1 => rfl
    | case2 text => exact absurd ⟨[], text, rfl⟩ hnone
    | case3 c text _ ih =>
      rw [ih fun hinside => hnone (hinside.trans (List.suffix_cons c text).isInfix)]
      rfl

theorem splitLines_of_notMem (h : '\r' ∉ text) : splitLines text = [text] :=
  splitLines_eq_singleton_iff.2 fun hinside => h (hinside.subset List.mem_cons_self)

/-- Joined texts have the lines of every one of them. -/
theorem splitLines_joinWith {texts : List Text} (hne : texts ≠ []) :
    splitLines (joinWith lineEnd texts) = texts.flatMap splitLines := by
  induction texts with
  | nil => exact absurd rfl hne
  | cons text texts ih =>
    cases texts with
    | nil => exact (List.flatMap_singleton splitLines text).symm
    | cons next texts =>
      rw [joinWith, splitLines_append, ih (List.cons_ne_nil _ _)]
      · rfl
      · exact List.cons_ne_nil _ _

theorem flatMap_splitLines {texts : List Text} (h : ∀ text ∈ texts, '\r' ∉ text) :
    texts.flatMap splitLines = texts := by
  induction texts with
  | nil => rfl
  | cons text texts ih =>
    obtain ⟨htext, hmore⟩ := List.forall_mem_cons.1 h
    rw [List.flatMap_cons, splitLines_of_notMem htext, ih hmore, List.singleton_append]

/-! ## What the report is made of -/

theorem return_notMem_decimalText (n : Nat) : '\r' ∉ decimalText n :=
  fun h => absurd (isDigit_of_mem_decimalText h) (by decide)

theorem return_notMem_integerText (n : Int) : '\r' ∉ integerText n :=
  fun h => absurd (mem_integerText h) (by decide)

theorem return_notMem_exponentText (n : Int) : '\r' ∉ exponentText n := by
  have hdigits := return_notMem_decimalText n.natAbs
  rw [exponentText]
  split <;> split <;> simp [hdigits]

theorem return_notMem_place (layout : Layout) (decimal : Decimal) :
    '\r' ∉ layout.place decimal := by
  have hdigits := return_notMem_decimalText decimal.digits
  have htake : ∀ n, '\r' ∉ (decimalText decimal.digits).take n :=
    fun n h => hdigits (List.mem_of_mem_take h)
  have hdrop : ∀ n, '\r' ∉ (decimalText decimal.digits).drop n :=
    fun n h => hdigits (List.mem_of_mem_drop h)
  have htail := hdrop 1
  have hexponent := return_notMem_exponentText (decimal.point - 1)
  rw [List.drop_one] at htail
  rw [Layout.place]
  split_ifs <;> simp [hdigits, htake, hdrop, htail, hexponent]

theorem return_notMem_write (layout : Layout) (x : Double) : '\r' ∉ layout.write x := by
  rw [Layout.write, List.mem_append]
  rintro (hsign | hmagnitude)
  · split at hsign
    · exact absurd hsign (by decide)
    · cases hsign
  · rw [Layout.magnitude.eq_def] at hmagnitude
    split at hmagnitude
    · exact absurd hmagnitude (by decide)
    · exact absurd hmagnitude (by decide)
    · split at hmagnitude <;> exact absurd hmagnitude (by decide)
    · exact return_notMem_place layout _ hmagnitude

theorem Number.return_notMem_text (number : Number) : '\r' ∉ number.text := by
  cases number with
  | int n => exact return_notMem_integerText n
  | real x => exact return_notMem_write realLayout x

theorem Group.return_notMem_describe {group : Group} (h : '\r' ∉ group.text) :
    '\r' ∉ group.describe := by
  have houtcomes : '\r' ∉ joinWith [','] (group.outcomes.map (·.text)) := by
    intro hmem
    rcases mem_joinWith hmem with hcomma | ⟨text, htext, hreturn⟩
    · exact absurd hcomma (by decide)
    · obtain ⟨outcome, -, rfl⟩ := List.mem_map.1 htext
      exact absurd (Outcome.mem_text hreturn) (by decide)
  have htotal := return_notMem_integerText group.total
  simp [Group.describe, h, houtcomes, htotal]

theorem IsSolid.return_notMem (h : IsSolid text) : '\r' ∉ text :=
  fun hmem => absurd (h.all _ hmem) (by decide)

/-! ## Requests -/

theorem Value.map_text_rollAll (values : List Value) (source : Source) :
    (rollAll values source).2.1.map Value.text = values.map Value.text := by
  have hrolled := rethrown_rollAll values source
  generalize (rollAll values source).2.1 = rolled at hrolled
  induction hrolled with
  | nil => rfl
  | cons hvalue _ ih =>
    rw [List.map_cons, List.map_cons, ih]
    cases hvalue <;> rfl

namespace Request

/-- No line ends inside of what the notation of the request is made of. -/
structure IsPlain (request : Request) : Prop where
  segments : ∀ segment ∈ request.segments, '\r' ∉ segment
  values : ∀ text ∈ request.values.map Value.text, '\r' ∉ text

variable {request added : Request} {piece : Piece}

theorem IsPlain.addValue (h : request.IsPlain) {value : Value} (hvalue : '\r' ∉ value.text) :
    (request.addValue value).IsPlain := by
  have hslot : '\r' ∉ slotName request.values.length :=
    List.not_mem_cons_of_ne_of_not_mem (by decide) (return_notMem_decimalText _)
  refine ⟨List.forall_mem_append.2 ⟨h.segments, List.forall_mem_singleton.2 hslot⟩, ?_⟩
  rw [Request.addValue, List.map_append]
  exact List.forall_mem_append.2 ⟨h.values, List.forall_mem_singleton.2 hvalue⟩

theorem IsPlain.addPiece? (h : request.IsPlain) (hwritten : piece.IsWritten)
    (hadd : request.addPiece? piece = some added) : added.IsPlain := by
  cases hwritten with
  | dice hlexeme hmodifiers =>
    cases hadd
    exact h.addValue (Group.isSolid_text_assemble hlexeme hmodifiers).return_notMem
  | constant hdigits =>
    obtain ⟨n, -, rfl⟩ := Option.map_eq_some_iff.1 hadd
    exact h.addValue (return_notMem_integerText n)
  | @operator c hc =>
    cases hadd
    refine ⟨List.forall_mem_append.2 ⟨h.segments, List.forall_mem_singleton.2 ?_⟩, h.values⟩
    exact fun hmem => absurd (List.mem_singleton.1 hmem ▸ hc) (by decide)

theorem isPlain_parse (text : Text) : (parse text).IsPlain := by
  have hscan : (({} : Request).scan (strip text)).1.IsPlain :=
    scan_invariant IsPlain (fun hwritten hadd h => h.addPiece? hwritten hadd)
      (fun _ h => ⟨h.segments, h.values⟩) ⟨List.forall_mem_nil _, List.forall_mem_nil _⟩ _
  rw [parse_eq, requireDice_eq]
  exact ⟨hscan.segments, hscan.values⟩

theorem IsPlain.return_notMem_text (h : request.IsPlain) : '\r' ∉ request.text := by
  intro hmem
  rcases mem_joinWith hmem with hspace | ⟨text, htext, hreturn⟩
  · exact absurd hspace (by decide)
  · obtain ⟨segment, hsegment, rfl⟩ := List.mem_map.1 htext
    rw [segmentText] at hreturn
    split at hreturn
    · rename_i slot hslot
      obtain ⟨⟨value, position⟩, hvalue, rfl⟩ := List.mem_map.1 (List.mem_of_find?_eq_some hslot)
      have hmem : value ∈ request.values := List.fst_mem_of_mem_zipIdx hvalue
      exact h.values _ (List.mem_map_of_mem hmem) hreturn
    · exact h.segments segment hsegment hreturn

theorem IsPlain.return_notMem_describe (h : request.IsPlain) :
    ∀ line ∈ request.groups.map Group.describe, '\r' ∉ line := by
  rw [List.forall_mem_map]
  intro group hgroup
  obtain ⟨value, hvalue, hsome⟩ := List.mem_filterMap.1 hgroup
  cases value with
  | constant n => cases hsome
  | group group =>
    cases hsome
    exact Group.return_notMem_describe (h.values _ (List.mem_map_of_mem hvalue))

/-- The lines of the detailed report that the label is no part of. -/
def ownLines (request : Request) : List Text :=
  [request.totalLine, "Formula: ".toList ++ request.text, "Rolls:".toList] ++
    request.groups.map Group.describe

theorem detailLines_eq (request : Request) :
    request.detailLines = request.label.toList ++ request.ownLines :=
  List.append_assoc _ _ _

theorem return_notMem_totalLine (request : Request) : '\r' ∉ request.totalLine := by
  have hresult : '\r' ∉ request.resultText := by
    rw [resultText]
    split
    · exact Number.return_notMem_text _
    · decide
  exact List.not_mem_append (by decide) hresult

theorem IsPlain.return_notMem_ownLines (h : request.IsPlain) :
    ∀ line ∈ request.ownLines, '\r' ∉ line := by
  have htext : '\r' ∉ "Formula: ".toList ++ request.text :=
    List.not_mem_append (by decide) h.return_notMem_text
  have hrolls : '\r' ∉ "Rolls:".toList := by decide
  refine List.forall_mem_append.2 ⟨?_, h.return_notMem_describe⟩
  simp only [List.forall_mem_cons, List.not_mem_nil, false_imp_iff, implies_true]
  exact ⟨request.return_notMem_totalLine, htext, hrolls, trivial⟩

theorem map_text_values_execute (request : Request) (source : Source) :
    (request.execute source).request.values.map Value.text = request.values.map Value.text := by
  rcases values_execute request source with hvalues | hvalues
  · rw [hvalues]
  · rw [hvalues, Value.map_text_rollAll]

/-- The lines of a report without an error are those of the label, and then its own. -/
theorem IsPlain.splitLines_details_eq (h : request.IsPlain) (herror : request.error = none) :
    splitLines request.details =
      request.label.toList.flatMap splitLines ++ request.ownLines := by
  have hown : request.ownLines ≠ [] := List.append_ne_nil_of_left_ne_nil (List.cons_ne_nil _ _) _
  have hne : request.detailLines ≠ [] := by
    rw [detailLines_eq]
    exact List.append_ne_nil_of_right_ne_nil _ hown
  rw [details, herror]
  dsimp only
  rw [splitLines_joinWith hne, detailLines_eq, List.flatMap_append,
    flatMap_splitLines h.return_notMem_ownLines]

theorem flatMap_splitLines_label_iff (label : Option Text) :
    label.toList.flatMap splitLines = label.toList ↔
      ∀ text, label = some text → ¬lineEnd <:+: text := by
  cases label with
  | none => exact iff_of_true rfl nofun
  | some text =>
    rw [Option.toList_some, List.flatMap_singleton, splitLines_eq_singleton_iff]
    exact ⟨fun h _ heq => Option.some.inj heq ▸ h, fun h => h text rfl⟩

/-- The detailed report of a request that was read and executed without an error has the lines of
the label, and behind them the total, the formula and the rolls, with one line for each group. The
label is its first line, and there are no others, just if no line ends inside of the label. -/
theorem splitLines_details {source after : Source}
    (hexecute : (parse text).execute source = ⟨none, request, after⟩)
    (herror : request.error = none) :
    ∃ number, request.result = some number ∧
      request.totalLine = "Total: ".toList ++ number.text ∧
      request.label = (parse text).label ∧
      splitLines request.details =
        request.label.toList.flatMap splitLines ++ request.ownLines ∧
      (splitLines request.details = request.label.toList ++ request.ownLines ↔
        ∀ label, request.label = some label → ¬lineEnd <:+: label) := by
  have hvalues := map_text_values_execute (parse text) source
  rw [hexecute] at hvalues
  rcases execute_cases (parse text) source with ⟨error, -, hfailed⟩ |
    ⟨formula, values, number, last, -, -, hended⟩ | ⟨fault, values, last, hfault⟩
  · rw [hexecute, herror] at hfailed
    cases hfailed
  · rw [hexecute] at hended
    cases hended
    have hparsed := isPlain_parse text
    have hplain : IsPlain { parse text with values := values, result := some number } :=
      ⟨hparsed.segments, by rw [hvalues]; exact hparsed.values⟩
    have hlines := hplain.splitLines_details_eq herror
    refine ⟨number, rfl, rfl, rfl, hlines, ?_⟩
    rw [hlines, List.append_left_inj]
    exact flatMap_splitLines_label_iff _
  · rw [hexecute] at hfault
    cases hfault

/-- A request with a label that shows another total than the one that is rolled. -/
def forgedTotal : Text :=
  "d6 luck\r\nTotal: 100".toList

/-- The request after a roll of one. -/
def forgedTotalRolled : Request where
  segments := [slotName 0]
  values := [.group {
    dice := 1
    faces := .number 6
    options := Options.parse []
    outcomes := [{ value := 1 }]
    total := 1 }]
  label := some "luck\r\nTotal: 100".toList
  result := some (.int 1)

set_option maxRecDepth 6000 in
/-- The report shows the total of the label above the one that was rolled. -/
theorem splitLines_details_forgedTotal :
    (∃ after, (parse forgedTotal).execute (.scripted #[1]) = ⟨none, forgedTotalRolled, after⟩) ∧
      splitLines forgedTotalRolled.details =
        ["luck".toList, "Total: 100".toList, "Total: 1".toList, "Formula: 1d6".toList,
          "Rolls:".toList, "(1d6) [1] = 1".toList] ∧
      splitLines forgedTotalRolled.details ≠
        forgedTotalRolled.label.toList ++ forgedTotalRolled.ownLines := by
  have hfault : ((parse forgedTotal).execute (.scripted #[1])).fault = none := by cbv
  have hrolled : ((parse forgedTotal).execute (.scripted #[1])).request = forgedTotalRolled := by
    cbv
  have hlabel : forgedTotalRolled.label.toList.flatMap splitLines =
      ["luck".toList, "Total: 100".toList] := by rfl
  have htotal : forgedTotalRolled.totalLine = "Total: 1".toList := by rfl
  have htext : forgedTotalRolled.text = "1d6".toList := by cbv
  have hgroups : forgedTotalRolled.groups.map Group.describe = ["(1d6) [1] = 1".toList] := by cbv
  have hown : forgedTotalRolled.ownLines = ["Total: 1".toList, "Formula: 1d6".toList,
      "Rolls:".toList, "(1d6) [1] = 1".toList] := by
    rw [ownLines, htotal, htext, hgroups]
    rfl
  rcases hexecute : (parse forgedTotal).execute (.scripted #[1]) with ⟨fault, request, after⟩
  rw [hexecute] at hfault hrolled
  obtain rfl : fault = none := hfault
  obtain rfl : request = forgedTotalRolled := hrolled
  obtain ⟨-, -, -, -, hlines, hfirst⟩ := splitLines_details hexecute rfl
  refine ⟨⟨after, rfl⟩, ?_, ?_⟩
  · rw [hlines, hlabel, hown]
    rfl
  · rw [Ne, hfirst]
    exact fun hnone => hnone _ rfl ⟨"luck".toList, "Total: 100".toList, rfl⟩

end Request

end DiceNotation
