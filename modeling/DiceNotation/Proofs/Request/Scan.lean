import DiceNotation.Proofs.Request.Notation
import DiceNotation.Proofs.Text.Blank

/-!
# What a text is read as

Reading a request divides its text: there are pieces, each with separators in front, and there is
what is left behind the last one (`Factors`). Nothing of the text is lost, and nothing is read
twice.

* *Pieces:* At its position each piece is what the notation prefers, dice to constants and constants
    to operators, and it is as long as possible (`Piece.Leads`).
* *The end:* Either no piece begins at what is left, or the scan was ended by an oversized constant
    (`ScanEnds`).
* *The request:* Its segments and values are those of the pieces, in order, and its label is what is
    left (`parse_factors`).
-/

namespace DiceNotation

/-! ## What begins a text -/

/-- A dice lexeme is written at the front of the text. -/
def BeginsDice (text : Text) : Prop :=
  ∃ lexeme : DiceLexeme, lexeme.IsWritten ∧ lexeme.text <+: text

/-- A dice lexeme, a run of digits or an operator is written at the front of the text. -/
def BeginsPiece (text : Text) : Prop :=
  BeginsDice text ∨ (∃ digits, IsRun digits ∧ digits <+: text) ∨ ∃ c ∈ operatorChars, [c] <+: text

variable {text rest : Text}

theorem NotAhead.not_isRun_isPrefix (h : NotAhead isDigit text) :
    ¬∃ digits, IsRun digits ∧ digits <+: text := by
  rintro ⟨digits, hrun, more, rfl⟩
  obtain ⟨c, tail, rfl, hc⟩ := hrun.head
  exact Bool.eq_false_iff.1 (h c rfl) hc

theorem IsFaces.exists_readFaces? {faces : Text} (h : IsFaces faces) (tail : Text) :
    ∃ found, readFaces? (faces ++ tail) = some found := by
  rcases h with hrun | rfl
  · obtain ⟨c, more, rfl, hc⟩ := hrun.head
    simp only [readFaces?, List.cons_append, readDigits?, List.takeWhile_cons_of_pos hc]
    exact ⟨_, rfl⟩
  · have hnone : readDigits? (fudgeFaces ++ tail) = none :=
      readDigits?_eq_none (notAhead_cons (by decide))
    simp only [readFaces?, hnone]
    exact ⟨_, rfl⟩

/-- Where a dice lexeme is written, one is read. -/
theorem not_beginsDice (h : DiceLexeme.read? text = none) : ¬BeginsDice text := by
  rintro ⟨lexeme, hwritten, tail, rfl⟩
  have hnot : NotAhead isDigit (lexeme.letter :: (lexeme.faces ++ tail)) :=
    hwritten.notAhead_letter
  have hd : (lexeme.letter == 'd' || lexeme.letter == 'D') = true := by
    rw [Bool.or_eq_true, beq_iff_eq, beq_iff_eq]
    exact hwritten.letter
  obtain ⟨found, hfaces⟩ := hwritten.faces.exists_readFaces? tail
  rw [DiceLexeme.read?, DiceLexeme.text, List.append_assoc, List.cons_append,
    dropWhile_append hwritten.count hnot] at h
  simp only [hd, if_true, hfaces] at h
  cases h

/-- Faces in digits are as many as possible. -/
theorem DiceLexeme.read?_notAhead {lexeme : DiceLexeme}
    (h : DiceLexeme.read? text = some (lexeme, rest)) (hrun : IsRun lexeme.faces) :
    NotAhead isDigit rest := by
  have hfaces : ∀ {tail faces after : Text}, readFaces? tail = some (faces, after) →
      IsRun faces → NotAhead isDigit after := by
    intro tail faces after hread hrun
    rw [readFaces?.eq_def] at hread
    split at hread
    · rename_i hdigits
      cases hread
      exact readDigits?_notAhead hdigits
    · split at hread
      · cases hread
        exact absurd (hrun.all 'f' List.mem_cons_self) (by decide)
      · cases hread
  rw [DiceLexeme.read?] at h
  split at h
  · split at h
    · obtain ⟨⟨faces, after⟩, hread, heq⟩ := Option.map_eq_some_iff.1 h
      cases heq
      exact hfaces hread hrun
    · cases h
  · cases h

/-! ## Pieces in their place -/

/-- The piece is what the notation reads in front of a text. -/
inductive Piece.Leads : Piece → Text → Prop
  | dice {lexeme : DiceLexeme} {modifiers rest : Text} :
    lexeme.IsWritten → (IsRun lexeme.faces → NotAhead isDigit (modifiers ++ rest)) →
      takeModifiers (modifiers ++ rest) = (modifiers, rest) → Leads (.dice lexeme modifiers) rest
  | constant {digits rest : Text} :
    ¬BeginsDice (digits ++ rest) → IsRun digits → NotAhead isDigit rest →
      Leads (.constant digits) rest
  | operator {c : Char} {rest : Text} :
    ¬BeginsDice (c :: rest) → NotAhead isDigit (c :: rest) → c ∈ operatorChars →
      Leads (.operator c) rest

variable {piece : Piece}

theorem Piece.leads_of_read? (h : Piece.read? text = some (piece, rest)) : piece.Leads rest := by
  rw [read?] at h
  split at h
  · rename_i lexeme after hlexeme
    cases h
    have happend := takeModifiers_append after
    refine .dice (DiceLexeme.read?_isWritten hlexeme) (fun hrun => ?_) ?_
    · rw [happend]
      exact DiceLexeme.read?_notAhead hlexeme hrun
    · rw [happend]
  · rename_i hlexeme
    have hdice := not_beginsDice hlexeme
    split at h
    · rename_i digits after hdigits
      cases h
      rw [← readDigits?_append hdigits] at hdice
      exact .constant hdice (readDigits?_isRun hdigits) (readDigits?_notAhead hdigits)
    · rename_i hdigits
      obtain ⟨⟨c, after⟩, hread, heq⟩ := Option.map_eq_some_iff.1 h
      cases heq
      obtain rfl := readOperator?_append hread
      exact .operator hdice (notAhead_isDigit_of_readDigits? hdigits) (mem_of_readOperator? hread)

theorem not_beginsPiece (h : Piece.read? text = none) : ¬BeginsPiece text := by
  rw [Piece.read?] at h
  split at h
  · cases h
  · rename_i hlexeme
    split at h
    · cases h
    · rename_i hdigits
      rintro (hdice | hrun | ⟨c, hc, tail, rfl⟩)
      · exact not_beginsDice hlexeme hdice
      · exact (notAhead_isDigit_of_readDigits? hdigits).not_isRun_isPrefix hrun
      · rw [Option.map_eq_none_iff, List.singleton_append, readOperator?,
          if_pos (List.contains_iff_mem.2 hc)] at h
        cases h

theorem Piece.IsWritten.beginsPiece (h : piece.IsWritten) (rest : Text) :
    BeginsPiece (piece.text ++ rest) := by
  cases h with
  | dice hlexeme _ => exact .inl ⟨_, hlexeme, _, (List.append_assoc _ _ _).symm⟩
  | constant hdigits => exact .inr (.inl ⟨_, hdigits, rest, rfl⟩)
  | operator hc => exact .inr (.inr ⟨_, hc, rest, rfl⟩)

/-- A piece is read just where one is written. -/
theorem Piece.read?_eq_none_iff : Piece.read? text = none ↔ ¬BeginsPiece text := by
  refine ⟨not_beginsPiece, fun h => Option.eq_none_iff_forall_ne_some.2 fun found hfound => h ?_⟩
  rw [← Piece.read?_append hfound]
  exact (Piece.read?_isWritten hfound).beginsPiece _

/-! ## Values and segments -/

/-- Whether the piece is a dice group. -/
def Piece.isDice : Piece → Bool
  | .dice _ _ => true
  | _ => false

/-- Whether the piece stands for a value. -/
def Piece.isValue : Piece → Bool
  | .operator _ => false
  | _ => true

/-- The value that the piece stands for: the group built from its three parts, or the number that
its digits denote, if there are few enough of them. -/
inductive Piece.Yields : Piece → Value → Prop
  | dice {lexeme : DiceLexeme} {modifiers : Text} {group : Group} :
    Group.create lexeme.count lexeme.faces modifiers = .ok group →
      Yields (.dice lexeme modifiers) (.group group)
  | constant {digits : Text} :
    (significant digits).length ≤ constantDigits →
      Yields (.constant digits) (.constant (numeralValue digits))

/-- The segments of pieces: operators as they are, and for the others slots, numbered from `next`
on. -/
def segmentsFrom (next : Nat) : List Piece → List Text
  | [] => []
  | .operator c :: pieces => [c] :: segmentsFrom next pieces
  | .dice _ _ :: pieces | .constant _ :: pieces => slotName next :: segmentsFrom (next + 1) pieces

/-- The parts of a written lexeme make a group, be it one with a fault. -/
theorem DiceLexeme.IsWritten.create_eq_ok {lexeme : DiceLexeme} (h : lexeme.IsWritten)
    (modifiers : Text) : Group.create lexeme.count lexeme.faces modifiers =
      .ok (Group.assemble lexeme.count lexeme.faces modifiers) :=
  Group.create_of_isDigit h.count h.faces modifiers

theorem segmentsFrom_append (next : Nat) (pieces more : List Piece) :
    segmentsFrom next (pieces ++ more) = segmentsFrom next pieces ++
      segmentsFrom (next + (pieces.filter Piece.isValue).length) more := by
  induction pieces generalizing next with
  | nil => rfl
  | cons piece pieces ih =>
    cases piece with
    | operator c => exact congrArg ([c] :: ·) (ih next)
    | dice | constant =>
      rw [List.cons_append, segmentsFrom, segmentsFrom, ih (next + 1), List.cons_append,
        Nat.add_assoc, Nat.add_comm 1]
      rfl

namespace Request

/-- Appends pieces, of which those that stand for values stand for the given ones. -/
def addPieces (request : Request) (pieces : List Piece) (values : List Value) : Request :=
  { request with
    values := request.values ++ values
    segments := request.segments ++ segmentsFrom request.values.length pieces }

theorem addPieces_append {pieces : List Piece} {values : List Value}
    (h : List.Forall₂ Piece.Yields (pieces.filter Piece.isValue) values) (request : Request)
    (more : List Piece) (others : List Value) :
    (request.addPieces pieces values).addPieces more others =
      request.addPieces (pieces ++ more) (values ++ others) := by
  simp [addPieces, segmentsFrom_append, h.length_eq]

/-! ## Scanning -/

/-- The text is divided into pieces with separators in front of them, and the rest. -/
inductive Factors : Text → List Piece → Text → Prop
  | done (rest : Text) : Factors rest [] rest
  | piece {separators after rest : Text} {piece : Piece} {pieces : List Piece} :
    (∀ c ∈ separators, isSeparator c = true) → piece.Leads after → Factors after pieces rest →
      Factors (separators ++ piece.text ++ after) (piece :: pieces) rest

/-- What ends a scan, and what it leaves for the label. -/
inductive ScanEnds : (rest : Text) → (oversized : Bool) → (left : Text) → Prop
  /-- No piece begins at what is left. -/
  | noPiece {rest : Text} : ¬BeginsPiece (skipSeparators rest) → ScanEnds rest false rest
  /-- A constant with too many significant digits is passed over. -/
  | oversized {separators digits left : Text} :
    (∀ c ∈ separators, isSeparator c = true) → Piece.Leads (.constant digits) left →
      constantDigits < (significant digits).length →
      ScanEnds (separators ++ digits ++ left) true left

/-- A text that a piece is read from, without its separators, is the separators, the piece and what
follows. -/
theorem eq_append_of_read? {piece : Piece} {text rest : Text}
    (h : Piece.read? (skipSeparators text) = some (piece, rest)) :
    text.takeWhile isSeparator ++ piece.text ++ rest = text := by
  rw [List.append_assoc, Piece.read?_append h, separators_append]

/-- What a request takes from a piece. -/
theorem addPiece?_eq_some {request added : Request} {piece : Piece} (hwritten : piece.IsWritten)
    (h : request.addPiece? piece = some added) :
    ∃ values : List Value, List.Forall₂ Piece.Yields ([piece].filter Piece.isValue) values ∧
      added = request.addPieces [piece] values := by
  cases hwritten with
  | @dice lexeme modifiers hwritten =>
    cases h
    refine ⟨_, .cons (.dice (hwritten.create_eq_ok modifiers)) .nil, ?_⟩
    simp [addPieces, segmentsFrom, addValue]
  | @constant digits =>
    rw [addPiece?_eq, Piece.item?, Option.map_map] at h
    obtain ⟨n, hvalue, rfl⟩ := Option.map_eq_some_iff.1 h
    obtain ⟨hlength, rfl⟩ := boundedValue?_eq_some_iff.1 hvalue
    refine ⟨_, .cons (.constant hlength) .nil, ?_⟩
    simp [addPieces, segmentsFrom, addItem, addValue]
  | operator =>
    cases h
    refine ⟨[], .nil, ?_⟩
    simp [addPieces, segmentsFrom, addOperator]

/-- What a scan makes of a text. -/
theorem scan_factors (request : Request) (text : Text) :
    ∃ pieces rest oversized left values, Factors text pieces rest ∧ ScanEnds rest oversized left ∧
      List.Forall₂ Piece.Yields (pieces.filter Piece.isValue) values ∧
      (request.scan text).1.values = request.values ++ values ∧
      (request.scan text).1.segments =
        request.segments ++ segmentsFrom request.values.length pieces ∧
      (request.scan text).1.error =
        (if oversized then some .constantTooLarge else request.error) ∧
      strip (request.scan text).2 = strip left := by
  fun_induction scan request text with
  | case1 request text hread =>
    refine ⟨[], text, false, text, [], .done _, .noPiece (not_beginsPiece hread), .nil,
      (List.append_nil _).symm, (List.append_nil _).symm, rfl, strip_skipSeparators text⟩
  | case2 request text piece rest hread added hadd ih =>
    obtain ⟨pieces, last, oversized, left, values, hfactors, hends, hvalues, hall, hsegments,
      herror, hleft⟩ := ih
    have hleads := Piece.leads_of_read? hread
    obtain ⟨first, hfirst, rfl⟩ := addPiece?_eq_some (Piece.read?_isWritten hread) hadd
    refine ⟨piece :: pieces, last, oversized, left, first ++ values, ?_, hends, ?_, ?_, ?_, herror,
      hleft⟩
    · have hpiece := Factors.piece (isSeparator_of_mem_takeWhile text) hleads hfactors
      rwa [eq_append_of_read? hread] at hpiece
    · rw [← List.singleton_append, List.filter_append]
      exact List.rel_append hfirst hvalues
    · rw [hall, addPieces, List.append_assoc]
    · have hsplit := segmentsFrom_append request.values.length [piece] pieces
      rw [hfirst.length_eq, List.singleton_append] at hsplit
      rw [hsegments, hsplit, addPieces, List.length_append, List.append_assoc]
  | case3 request text piece rest hread hadd =>
    have hleads := Piece.leads_of_read? hread
    refine ⟨[], text, true, rest, [], .done _, ?_, .nil, (List.append_nil _).symm,
      (List.append_nil _).symm, rfl, rfl⟩
    cases hleads with
    | dice => cases hadd
    | @constant digits rest hdice hrun hnot =>
      rw [addPiece?_eq, Piece.item?, Option.map_map, Option.map_eq_none_iff] at hadd
      have hlength := boundedValue?_eq_none_iff.1 hadd
      have hsplit := eq_append_of_read? hread
      rw [← hsplit]
      exact .oversized (isSeparator_of_mem_takeWhile text) (.constant hdice hrun hnot) hlength
    | operator => cases hadd

/-- There is a dice group among the values just if there is one among the pieces. -/
theorem groups_ne_nil_iff {pieces : List Piece} {values : List Value}
    (h : List.Forall₂ Piece.Yields (pieces.filter Piece.isValue) values) :
    values.filterMap Value.group? ≠ [] ↔ ∃ piece ∈ pieces, piece.isDice = true := by
  induction pieces generalizing values with
  | nil =>
    cases h
    simp
  | cons piece pieces ih =>
    simp only [List.mem_cons, exists_eq_or_imp]
    cases piece with
    | dice lexeme modifiers =>
      cases h with
      | cons hfirst _ =>
        cases hfirst
        exact iff_of_true (List.cons_ne_nil _ _) (.inl rfl)
    | constant digits =>
      cases h with
      | cons hfirst hrest =>
        cases hfirst
        rw [List.filterMap_cons_none rfl, ih hrest]
        exact (or_iff_right Bool.false_ne_true).symm
    | operator c =>
      rw [ih h]
      exact (or_iff_right Bool.false_ne_true).symm

theorem requireDice_eq (request : Request) :
    request.requireDice = { request with
      error := request.error.or (if request.groups = [] then some .noDice else none) } := by
  obtain ⟨segments, values, label, result, error⟩ := request
  rw [requireDice, isValid]
  cases error with
  | some e => rfl
  | none =>
    generalize hgroups : groups _ = dice
    cases dice <;> rfl

/-- A text is divided into pieces and a rest that begins with no piece, unless a constant is too
large. The request has the segments and values of the pieces, in order; its label is what is left,
without the blanks around it; and it has no error if a dice group was read and no constant is too
large. -/
theorem parse_factors (text : Text) :
    ∃ pieces rest oversized left, Factors (strip text) pieces rest ∧
      ScanEnds rest oversized left ∧
      (parse text).segments = segmentsFrom 0 pieces ∧
      List.Forall₂ Piece.Yields (pieces.filter Piece.isValue) (parse text).values ∧
      (parse text).label = (if strip left = [] then none else some (strip left)) ∧
      ((parse text).error = none ↔ (∃ piece ∈ pieces, piece.isDice = true) ∧ oversized = false) ∧
      ((parse text).error = some .constantTooLarge ↔ oversized = true) := by
  obtain ⟨pieces, rest, oversized, left, values, hfactors, hends, hyields, hvalues, hsegments,
    herror, hleft⟩ := scan_factors {} (strip text)
  rw [List.nil_append] at hvalues hsegments
  have hdice := groups_ne_nil_iff hyields
  rw [parse_eq, requireDice_eq]
  refine ⟨pieces, rest, oversized, left, hfactors, hends, hsegments, ?_, ?_, ?_, ?_⟩
  · rwa [hvalues]
  · simp only [labelOf?, hleft, List.isEmpty_iff]
  · rw [← hdice]
    simp only [groups, hvalues, herror]
    cases oversized <;> simp
  · simp only [herror]
    cases oversized <;> simp

end Request

end DiceNotation
