import DiceNotation.Proofs.Request.Scan
import DiceNotation.Request.Execution

/-!
# Requests in any layout

A well-written request is a list of pieces that is laid out with separators in front of each, and
with a label behind them (`WrittenRequest`). It is read as these pieces and this label, wherever the
separators are and however many there are of them, as long as there is one between two values and
one in front of the label (`Request.parse_text_written`). So two layouts of the same pieces are
executed alike.

* *Pieces:* A value is read whole in front of a separator, an operator or the end, and an operator
    in front of anything (`Piece.IsWellWritten.read?_append`).
* *Scanning:* By induction on the list, the scan takes the pieces one by one
    (`Request.scan_chunks`). What stands behind a value is the end, or what the next piece begins
    with, which is its separators or, if there are none, an operator.
* *Ends:* The blanks that are cleared from the ends of the text are separators of the layout
    (`WrittenRequest.IsWellWritten.strip_text`), and the scan skips those in front of a piece
    anyway.
-/

namespace DiceNotation

/-- A piece as the notation asks for it: its modifiers are taken whole, and if it is a constant it
has not too many digits. -/
inductive Piece.IsWellWritten : Piece → Prop
  | dice {lexeme : DiceLexeme} {modifiers : Text} :
    lexeme.IsWritten → takeModifiers modifiers = (modifiers, []) →
      IsWellWritten (.dice lexeme modifiers)
  | constant {digits : Text} :
    IsRun digits → (significant digits).length ≤ constantDigits → IsWellWritten (.constant digits)
  | operator {c : Char} : c ∈ operatorChars → IsWellWritten (.operator c)

/-- A piece with separators in front of it. -/
structure Chunk where
  run : Text
  piece : Piece

/-- The chunk in writing. -/
def Chunk.text (chunk : Chunk) : Text :=
  chunk.run ++ chunk.piece.text

/-- A request as it is laid out: its pieces, the separators behind them, and its label, which may be
empty. -/
structure WrittenRequest where
  chunks : List Chunk
  gap : Text
  label : Text

namespace WrittenRequest

/-- The pieces of the request. -/
def pieces (written : WrittenRequest) : List Piece :=
  written.chunks.map Chunk.piece

/-- The request in writing. -/
def text (written : WrittenRequest) : Text :=
  written.chunks.flatMap Chunk.text ++ (written.gap ++ written.label)

/-- The pieces are well written and set apart by separators where two values meet. A label is set
apart as well, has no blanks at its ends, and begins with no piece. -/
structure IsWellWritten (written : WrittenRequest) : Prop where
  pieces : ∀ piece ∈ written.pieces, piece.IsWellWritten
  runs : ∀ chunk ∈ written.chunks, ∀ c ∈ chunk.run, isSeparator c = true
  apart : written.chunks.IsChain fun first next =>
    first.piece.isValue = true → next.piece.isValue = true → next.run ≠ []
  gap : ∀ c ∈ written.gap, isSeparator c = true
  gap_ne_nil : written.label ≠ [] → written.gap ≠ []
  label : NotAhead isBlank written.label
  label_reverse : NotAhead isBlank written.label.reverse
  label_begins : ¬BeginsPiece written.label

end WrittenRequest

/-! ## Pieces -/

namespace Piece.IsWellWritten

variable {piece : Piece} {tail : Text}

theorem isWritten (h : piece.IsWellWritten) : piece.IsWritten := by
  cases h with
  | @dice lexeme modifiers hlexeme hmodifiers =>
    have hsuffix := isSuffix_takeModifiers modifiers
    rw [hmodifiers] at hsuffix
    exact .dice hlexeme hsuffix
  | constant hdigits _ => exact .constant hdigits
  | operator hc => exact .operator hc

theorem isSolid (h : piece.IsWellWritten) : IsSolid piece.text := by
  cases h.isWritten with
  | dice hlexeme hmodifiers => exact hlexeme.isSolid.append hmodifiers.isBlank_eq_false
  | constant hdigits => exact hdigits.isSolid
  | operator hc =>
    refine isSolid_of_any (List.cons_ne_nil _ _) ?_
    rw [text, List.any_cons, List.any_nil, Bool.or_false]
    exact eq_false_of_any_eq_false (by decide : operatorChars.any isBlank = false) hc

/-- No value runs over a break, and no operator over anything. -/
theorem read?_append (h : piece.IsWellWritten) (ht : piece.isValue = true → BreakAhead tail) :
    Piece.read? (piece.text ++ tail) = some (piece, tail) := by
  cases h.isWritten with
  | dice hlexeme hmodifiers =>
    rw [text, List.append_assoc]
    exact Piece.read?_dice hlexeme hmodifiers (ht rfl)
  | constant hdigits => exact Piece.read?_constant hdigits (ht rfl)
  | operator hc => exact Piece.read?_operator hc tail

theorem addPiece? (h : piece.IsWellWritten) (request : Request) :
    ∃ values, List.Forall₂ Piece.Yields ([piece].filter Piece.isValue) values ∧
      request.addPiece? piece = some (request.addPieces [piece] values) := by
  obtain ⟨added, hadded⟩ : ∃ added, request.addPiece? piece = some added := by
    cases h with
    | dice => exact ⟨_, rfl⟩
    | constant _ hlength =>
      rw [Request.addPiece?, boundedValue?_eq_some_iff.2 ⟨hlength, rfl⟩]
      exact ⟨_, rfl⟩
    | operator => exact ⟨_, rfl⟩
  obtain ⟨values, hvalues, rfl⟩ := Request.addPiece?_eq_some h.isWritten hadded
  exact ⟨values, hvalues, hadded⟩

end Piece.IsWellWritten

/-! ## Scanning -/

namespace Request

variable {run : Text} {chunk : Chunk} {chunks : List Chunk} {tail : Text}

/-- Separators in front of a text make no difference to its scan. -/
theorem scan_append_of_isSeparator (h : ∀ c ∈ run, isSeparator c = true) (request : Request)
    (text : Text) : request.scan (run ++ text) = request.scan text := by
  have hskip : skipSeparators (run ++ text) = skipSeparators text :=
    List.dropWhile_append_of_pos h
  rw [scan, scan, hskip]

theorem scan_of_read? {request added : Request} {text rest : Text} {piece : Piece}
    (hskip : skipSeparators text = text) (hread : Piece.read? text = some (piece, rest))
    (hadd : request.addPiece? piece = some added) : request.scan text = added.scan rest := by
  rw [scan, hskip]
  split
  · rename_i hnone
    cases hread.symm.trans hnone
  · rename_i hsome
    cases hread.symm.trans hsome
    rw [hadd]

/-- In front of chunks there is a break, unless the first one is a value without separators. -/
theorem breakAhead_chunks (hpieces : ∀ chunk ∈ chunks, chunk.piece.IsWellWritten)
    (hruns : ∀ chunk ∈ chunks, ∀ c ∈ chunk.run, isSeparator c = true)
    (hfirst : ∀ chunk, chunks.head? = some chunk → chunk.piece.isValue = true → chunk.run ≠ [])
    (htail : BreakAhead tail) : BreakAhead (chunks.flatMap Chunk.text ++ tail) := by
  cases chunks with
  | nil => exact htail
  | cons chunk chunks =>
    obtain ⟨run, piece⟩ := chunk
    rw [List.flatMap_cons, Chunk.text, List.append_assoc, List.append_assoc]
    by_cases hrun : run = []
    · -- A first piece without separators is an operator, which is a break itself.
      cases hpieces _ List.mem_cons_self with
      | dice | constant => exact absurd hrun (hfirst _ rfl rfl)
      | operator hc =>
        rw [hrun]
        exact breakAhead_cons (List.mem_append_right _ hc)
    · exact breakAhead_of_isSeparator (hruns _ List.mem_cons_self) hrun _

/-- A scan takes well-written chunks piece by piece, and goes on with what stands behind them. -/
theorem scan_chunks (hpieces : ∀ chunk ∈ chunks, chunk.piece.IsWellWritten)
    (hruns : ∀ chunk ∈ chunks, ∀ c ∈ chunk.run, isSeparator c = true)
    (happart : chunks.IsChain fun first next =>
      first.piece.isValue = true → next.piece.isValue = true → next.run ≠ [])
    (htail : BreakAhead tail) (request : Request) :
    ∃ values,
      List.Forall₂ Piece.Yields ((chunks.map Chunk.piece).filter Piece.isValue) values ∧
      request.scan (chunks.flatMap Chunk.text ++ tail) =
        (request.addPieces (chunks.map Chunk.piece) values).scan tail := by
  induction chunks generalizing request with
  | nil => exact ⟨[], .nil, by simp [addPieces, segmentsFrom]⟩
  | cons chunk chunks ih =>
    obtain ⟨hpiece, hpieces⟩ := List.forall_mem_cons.1 hpieces
    obtain ⟨hrun, hruns⟩ := List.forall_mem_cons.1 hruns
    obtain ⟨hnext, happart⟩ := List.isChain_cons.1 happart
    obtain ⟨values, hvalues, hadd⟩ := hpiece.addPiece? request
    obtain ⟨more, hmore, hscan⟩ := ih hpieces hruns happart (request.addPieces [chunk.piece] values)
    have hread : Piece.read? (chunk.piece.text ++ (chunks.flatMap Chunk.text ++ tail)) =
        some (chunk.piece, chunks.flatMap Chunk.text ++ tail) :=
      hpiece.read?_append fun hvalue =>
        breakAhead_chunks hpieces hruns (fun next hhead => hnext next hhead hvalue) htail
    have hsolid : NotAhead isBlank (chunk.piece.text ++ (chunks.flatMap Chunk.text ++ tail)) :=
      hpiece.isSolid.notAhead.append hpiece.isSolid.ne_nil _
    refine ⟨values ++ more, ?_, ?_⟩
    · rw [List.map_cons, ← List.singleton_append, List.filter_append]
      exact List.rel_append hvalues hmore
    · calc request.scan ((chunk :: chunks).flatMap Chunk.text ++ tail)
          = request.scan
              (chunk.run ++ (chunk.piece.text ++ (chunks.flatMap Chunk.text ++ tail))) := by
            rw [List.flatMap_cons, Chunk.text, List.append_assoc, List.append_assoc]
        _ = (request.addPieces [chunk.piece] values).scan (chunks.flatMap Chunk.text ++ tail) := by
            rw [scan_append_of_isSeparator hrun,
              scan_of_read? (skipSeparators_of_notAhead hsolid) hread hadd]
        _ = (request.addPieces ((chunk :: chunks).map Chunk.piece) (values ++ more)).scan tail := by
            rw [hscan, addPieces_append hvalues]
            rfl

end Request

/-! ## Ends -/

namespace WrittenRequest

/-- What is written behind the pieces, up to the last character that is no blank. -/
def ending (written : WrittenRequest) : Text :=
  if written.label = [] then [] else written.gap ++ written.label

variable {written : WrittenRequest}

theorem IsWellWritten.breakAhead_ending (h : written.IsWellWritten) :
    BreakAhead written.ending := by
  rw [ending]
  split
  · exact notAhead_nil
  · rename_i hlabel
    exact breakAhead_of_isSeparator h.gap (h.gap_ne_nil hlabel) _

/-- Behind the pieces only the label is left. -/
theorem IsWellWritten.scan_ending (h : written.IsWellWritten) (request : Request) :
    request.scan written.ending = (request, written.label) := by
  have hskip : skipSeparators written.ending = written.label := by
    rw [ending]
    split
    · rename_i hlabel
      rw [hlabel]
      rfl
    · rw [skipSeparators, List.dropWhile_append_of_pos h.gap]
      exact skipSeparators_of_notAhead h.label
  have hread := Piece.read?_eq_none_iff.2 h.label_begins
  rw [Request.scan, hskip]
  split
  · rfl
  · rename_i hsome
    cases hread.symm.trans hsome

/-- No blank is written last, if none is written last in front of the ending. -/
theorem IsWellWritten.notAhead_reverse_append_ending (h : written.IsWellWritten) {front : Text}
    (hfront : NotAhead isBlank front.reverse) :
    NotAhead isBlank (front ++ written.ending).reverse := by
  rw [ending]
  split
  · rwa [List.append_nil]
  · rename_i hlabel
    rw [← List.append_assoc, List.reverse_append]
    exact h.label_reverse.append (mt List.reverse_eq_nil_iff.1 hlabel) _

/-- In front of the first piece, or of the label if there is none, are separators. Without them the
text begins and ends with no blank. -/
theorem IsWellWritten.exists_run (h : written.IsWellWritten) :
    ∃ run core, (∀ c ∈ run, isSeparator c = true) ∧
      written.chunks.flatMap Chunk.text ++ written.ending = run ++ core ∧
      NotAhead isBlank core ∧ NotAhead isBlank core.reverse := by
  have hpieces := List.forall_mem_map.1 h.pieces
  cases hchunks : written.chunks with
  | nil =>
    rw [List.flatMap_nil, List.nil_append, ending]
    split
    · exact ⟨[], [], nofun, rfl, notAhead_nil, notAhead_nil⟩
    · exact ⟨written.gap, written.label, h.gap, rfl, h.label, h.label_reverse⟩
  | cons chunk chunks =>
    rw [hchunks] at hpieces
    obtain ⟨hpiece, hpieces⟩ := List.forall_mem_cons.1 hpieces
    have hsolid := hpiece.isSolid
    have hrun : ∀ c ∈ chunk.run, isSeparator c = true :=
      h.runs chunk (hchunks ▸ List.mem_cons_self)
    have hlast : NotAhead isBlank (chunk.piece.text ++ chunks.flatMap Chunk.text).reverse :=
      notAhead_reverse_flatMap Chunk.run hsolid fun next hnext => (hpieces next hnext).isSolid
    refine ⟨chunk.run, chunk.piece.text ++ chunks.flatMap Chunk.text ++ written.ending, hrun, ?_,
      ?_, h.notAhead_reverse_append_ending hlast⟩
    · rw [List.flatMap_cons, Chunk.text]
      simp only [List.append_assoc]
    · rw [List.append_assoc]
      exact hsolid.notAhead.append hsolid.ne_nil _

/-- Clearing the text takes away separators in front of the first piece and behind the last one, and
nothing else. -/
theorem IsWellWritten.strip_text (h : written.IsWellWritten) :
    ∃ run, (∀ c ∈ run, isSeparator c = true) ∧
      written.chunks.flatMap Chunk.text ++ written.ending = run ++ strip written.text := by
  obtain ⟨run, core, hrun, hcore, hfront, hlast⟩ := h.exists_run
  -- Without a label the separators behind the last piece are cleared as well.
  have htext : ∃ back, AllBlank back ∧ written.text = run ++ core ++ back := by
    rw [← hcore, text, ending]
    split
    · rename_i hlabel
      exact ⟨written.gap, allBlank_of_isSeparator h.gap, by simp [hlabel]⟩
    · exact ⟨[], nofun, (List.append_nil _).symm⟩
  obtain ⟨back, hback, htext⟩ := htext
  refine ⟨run, hrun, ?_⟩
  rw [hcore, htext, strip_append_of_notAhead (allBlank_of_isSeparator hrun) hback hfront hlast]

end WrittenRequest

theorem Piece.Yields.unique {piece : Piece} {value other : Value} (h : piece.Yields value)
    (hother : piece.Yields other) : value = other := by
  cases h with
  | dice hgroup =>
    cases hother with
    | dice hother =>
      cases hgroup.symm.trans hother
      rfl
  | constant =>
    cases hother
    rfl

/-- The executions differ at most in the labels of the requests. -/
structure Execution.IsSameRun (first second : Execution) : Prop where
  fault : first.fault = second.fault
  source : first.source = second.source
  values : first.request.values = second.request.values
  result : first.request.result = second.request.result
  error : first.request.error = second.request.error

namespace Request

/-! ## Reading -/

variable {written : WrittenRequest}

/-- A well-written request is scanned as its pieces, and the label is left. -/
theorem scan_strip_text (h : written.IsWellWritten) :
    ∃ values, List.Forall₂ Piece.Yields (written.pieces.filter Piece.isValue) values ∧
      scan {} (strip written.text) = (addPieces {} written.pieces values, written.label) := by
  obtain ⟨run, hrun, htext⟩ := h.strip_text
  obtain ⟨values, hvalues, hscan⟩ :=
    scan_chunks (List.forall_mem_map.1 h.pieces) h.runs h.apart h.breakAhead_ending {}
  refine ⟨values, hvalues, ?_⟩
  rw [← scan_append_of_isSeparator hrun, ← htext, hscan, h.scan_ending]
  rfl

/-- A well-written request is read as its pieces and its label. -/
theorem parse_written (h : written.IsWellWritten) :
    ∃ values, List.Forall₂ Piece.Yields (written.pieces.filter Piece.isValue) values ∧
      parse written.text = {
        segments := segmentsFrom 0 written.pieces
        values := values
        label := if written.label = [] then none else some written.label
        error := if written.pieces.any Piece.isDice then none else some .noDice } := by
  obtain ⟨values, hvalues, hscan⟩ := scan_strip_text h
  refine ⟨values, hvalues, ?_⟩
  have hgroups := groups_ne_nil_iff hvalues
  have hlabel : labelOf? written.label =
      if written.label = [] then none else some written.label := by
    simp only [labelOf?, strip_of_notAhead h.label h.label_reverse, List.isEmpty_iff]
  have hempty : (addPieces {} written.pieces values).groups.isEmpty =
      !written.pieces.any Piece.isDice := by
    rw [Bool.eq_iff_iff, List.isEmpty_iff, Bool.not_eq_true', ← Bool.not_eq_true,
      List.any_eq_true, ← hgroups, not_not]
    rfl
  rw [parse_eq, hscan, requireDice_label, hlabel, requireDice, hempty]
  cases written.pieces.any Piece.isDice <;> rfl

/-- The label makes no difference to an execution. -/
theorem execute_label (request : Request) (label : Option Text) (source : Source) :
    execute { request with label := label } source =
      { request.execute source with
        request := { (request.execute source).request with label := label } } := by
  have hroll : ∀ formula, rollAndEvaluate { request with label := label } formula source =
      { request.rollAndEvaluate formula source with
        request := { (request.rollAndEvaluate formula source).request with label := label } } := by
    intro formula
    rw [rollAndEvaluate, rollAndEvaluate]
    rcases Value.rollAll request.values source with ⟨_ | error, values, after⟩
    · dsimp only
      rcases formula.evaluate (Value.scope values) with (error | breakdown) | number <;> rfl
    · rfl
  have hvalid : isValid { request with label := label } = request.isValid := rfl
  have hfaults : groupFaults { request with label := label } = request.groupFaults := rfl
  have hformula : formula { request with label := label } = request.formula := rfl
  rw [execute, execute, hvalid, hfaults, hformula]
  cases request.isValid with
  | false => rfl
  | true =>
    cases request.groupFaults with
    | cons => rfl
    | nil =>
      cases Formula.compile request.formula with
      | error => rfl
      | ok formula => exact hroll formula

/-- A well-written request is read as its pieces and its label, and has no error unless there is no
dice group. All requests that are written with the same pieces have the same formula and the same
values, and are executed alike. -/
theorem parse_text_written (written : WrittenRequest) (h : written.IsWellWritten) :
    (∃ values, List.Forall₂ Piece.Yields (written.pieces.filter Piece.isValue) values ∧
      parse written.text = {
        segments := segmentsFrom 0 written.pieces
        values := values
        label := if written.label = [] then none else some written.label
        error := if written.pieces.any Piece.isDice then none else some .noDice }) ∧
    ∀ other : WrittenRequest, other.IsWellWritten → other.pieces = written.pieces →
      (parse other.text).formula = (parse written.text).formula ∧
      (parse other.text).values = (parse written.text).values ∧
      ∀ source, ((parse other.text).execute source).IsSameRun
        ((parse written.text).execute source) := by
  refine ⟨parse_written h, fun other hother hpieces => ?_⟩
  obtain ⟨values, hvalues, hparse⟩ := parse_written h
  obtain ⟨others, hothers, hparse'⟩ := parse_written hother
  rw [hpieces] at hothers hparse'
  have hunique : Relator.RightUnique Piece.Yields := fun _ _ _ => Piece.Yields.unique
  obtain rfl := List.right_unique_forall₂' hunique hothers hvalues
  -- So the two requests differ in their labels alone, which no execution looks at.
  have hlabel : parse other.text =
      { parse written.text with label := (parse other.text).label } := by
    rw [hparse, hparse']
  rw [hlabel]
  refine ⟨rfl, rfl, fun source => ?_⟩
  rw [execute_label]
  exact ⟨rfl, rfl, rfl, rfl, rfl⟩

/-- A request with a modifier that misses its argument, laid out over three lines. -/
def scattered : WrittenRequest where
  chunks := [⟨[], .dice ⟨['2'], 'D', ['6']⟩ ['k']⟩, ⟨['\t'], .operator '+'⟩,
    ⟨[], .dice ⟨[], 'd', fudgeFaces⟩ ['!']⟩, ⟨[' ', '\r', '\n'], .constant ['0', '3']⟩]
  gap := ['\n', ' ']
  label := "damage".toList

/-- The same pieces as close together as they can be. -/
def compact : WrittenRequest where
  chunks := [⟨[], .dice ⟨['2'], 'D', ['6']⟩ ['k']⟩, ⟨[], .operator '+'⟩,
    ⟨[], .dice ⟨[], 'd', fudgeFaces⟩ ['!']⟩, ⟨[' '], .constant ['0', '3']⟩]
  gap := []
  label := []

theorem isWellWritten_pieces_scattered : ∀ piece ∈ scattered.pieces, piece.IsWellWritten := by
  have hcount : IsRun ['6'] := ⟨List.cons_ne_nil _ _, List.forall_mem_singleton.2 (by decide)⟩
  have hfirst : DiceLexeme.IsWritten ⟨['2'], 'D', ['6']⟩ :=
    ⟨List.forall_mem_singleton.2 (by decide), .inr rfl, .inl hcount⟩
  have hsecond : DiceLexeme.IsWritten ⟨[], 'd', fudgeFaces⟩ :=
    ⟨List.forall_mem_nil _, .inl rfl, .inr rfl⟩
  have hdigits : IsRun ['0', '3'] :=
    ⟨List.cons_ne_nil _ _, List.all_eq_true.1 (by decide)⟩
  simp only [scattered, WrittenRequest.pieces, List.map_cons, List.map_nil, List.forall_mem_cons]
  exact ⟨.dice hfirst (by cbv), .operator (by decide), .dice hsecond (by cbv),
    .constant hdigits (by decide), List.forall_mem_nil _⟩

theorem isWellWritten_scattered : scattered.IsWellWritten where
  pieces := isWellWritten_pieces_scattered
  runs := by simp [scattered, isSeparator]
  apart := by decide +kernel
  gap := List.all_eq_true.1 (by decide)
  gap_ne_nil := fun _ => List.cons_ne_nil _ _
  label := notAhead_cons (by decide)
  label_reverse := notAhead_cons (by decide)
  label_begins := Piece.read?_eq_none_iff.1 (by cbv)

theorem isWellWritten_compact : compact.IsWellWritten where
  pieces := isWellWritten_pieces_scattered
  runs := by simp [compact, isSeparator]
  apart := by decide +kernel
  gap := List.forall_mem_nil _
  gap_ne_nil := fun hlabel => absurd rfl hlabel
  label := notAhead_nil
  label_reverse := notAhead_nil
  label_begins := Piece.read?_eq_none_iff.1 (by cbv)

theorem parse_scattered :
    scattered.IsWellWritten ∧ compact.IsWellWritten ∧
      scattered.text = "2D6k\t+df! \r\n03\n damage".toList ∧
      compact.text = "2D6k+df! 03".toList ∧
      (parse scattered.text).formula = "$0 + $1 $2".toList ∧
      (parse scattered.text).label = some "damage".toList ∧
      (parse scattered.text).error = none ∧
      ∀ source, ((parse compact.text).execute source).IsSameRun
        ((parse scattered.text).execute source) := by
  obtain ⟨⟨values, -, hparse⟩, hothers⟩ :=
    parse_text_written scattered isWellWritten_scattered
  obtain ⟨-, -, hsame⟩ := hothers compact isWellWritten_compact rfl
  rw [hparse] at hsame ⊢
  exact ⟨isWellWritten_scattered, isWellWritten_compact, by decide, by decide, by cbv, rfl, rfl,
    hsame⟩

end Request

end DiceNotation
