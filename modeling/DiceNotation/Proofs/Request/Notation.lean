import DiceNotation.Proofs.Request.Item
import Mathlib

/-!
# Requests read back

The notation of a request is faithful: read again, it gives the same request without a label, and
the same notation once more (`parse_text`). Excepted are texts with an oversized constant, at
which reading stops, and texts with a count that is too long to be kept.

* *Scanning:* A request that was scanned whole is the list of the items that its pieces stand for
    (`scan_eq_addItems`).
* *Notation:* Every segment of such a request denotes one item, so that the notation joins the
    notations of the items (`text_addItems`).
* *Scanning again:* Legible items joined by spaces are scanned one by one (`scan_spaced`).
-/

namespace DiceNotation

namespace Request

/-! ## Scanning into items -/

/-- Appends an item. -/
def addItem (request : Request) : Item → Request
  | .value v => request.addValue v
  | .operator c => request.addOperator [c]

/-- Appends items in order. -/
def addItems (request : Request) (items : List Item) : Request :=
  items.foldl addItem request

/-- The pieces that a text is read as, up to what begins no piece. -/
def piecesOf (text : Text) : List Piece :=
  match _h : Piece.read? (skipSeparators text) with
  | none => []
  | some (piece, rest) => piece :: piecesOf rest
termination_by text.length
decreasing_by
  have hlt := Piece.length_read?_lt _h
  have hle := (List.dropWhile_sublist isSeparator (l := text)).length_le
  exact Nat.lt_of_lt_of_le hlt hle

theorem addPiece?_eq (request : Request) (piece : Piece) :
    request.addPiece? piece = piece.item?.map request.addItem := by
  cases piece with
  | dice lexeme modifiers => rfl
  | constant digits =>
    rw [addPiece?, Piece.item?]
    cases boundedValue? constantDigits digits <;> rfl
  | operator c => rfl

theorem isWritten_of_mem_piecesOf {text : Text} {piece : Piece} (h : piece ∈ piecesOf text) :
    piece.IsWritten := by
  fun_induction piecesOf text with
  | case1 => cases h
  | case2 text piece' rest hread ih =>
    rcases List.mem_cons.1 h with rfl | hmem
    · exact Piece.read?_isWritten hread
    · exact ih hmem

/-- What neither a written piece nor the end of a scan can change holds after the scan. -/
theorem scan_invariant (holds : Request → Prop)
    (hpiece : ∀ {request added : Request} {piece : Piece}, piece.IsWritten →
      request.addPiece? piece = some added → holds request → holds added)
    (hend : ∀ request, holds request → holds { request with error := some .constantTooLarge })
    {request : Request} (h : holds request) (text : Text) : holds (request.scan text).1 := by
  fun_induction scan request text with
  | case1 => exact h
  | case2 request text piece rest hread added hadd ih =>
    exact ih (hpiece (Piece.read?_isWritten hread) hadd h)
  | case3 => exact hend _ h

/-- A scan that meets no oversized constant appends the items of all pieces. -/
theorem scan_eq_addItems (request : Request) (text : Text)
    (h : (request.scan text).1.error ≠ some .constantTooLarge) :
    ∃ items, (piecesOf text).map Piece.item? = items.map some ∧
      (request.scan text).1 = request.addItems items := by
  fun_induction scan request text with
  | case1 request text hread =>
    refine ⟨[], ?_, rfl⟩
    rw [piecesOf, hread]
    rfl
  | case2 request text piece rest hread request' hadd ih =>
    obtain ⟨items, hitems, hscan⟩ := ih h
    rw [addPiece?_eq] at hadd
    obtain ⟨item, hitem, rfl⟩ := Option.map_eq_some_iff.1 hadd
    refine ⟨item :: items, ?_, hscan⟩
    rw [piecesOf, hread]
    simp only [List.map_cons, hitem, hitems]
  | case3 request text piece rest hread hadd => exact absurd rfl h

/-! ## The notation of items -/

theorem slotName_inj {m n : Nat} (h : slotName m = slotName n) : m = n :=
  decimalText_inj (List.cons.inj h).2

/-- The segment is written for the item, among the values. -/
inductive Denotes (values : List Value) : Text → Item → Prop
  | slot {position : Nat} {value : Value} :
    values[position]? = some value → Denotes values (slotName position) (.value value)
  | operator (c : Char) : Denotes values [c] (.operator c)

variable {values : List Value} {segment : Text} {item : Item}

theorem Denotes.append (h : Denotes values segment item) (more : List Value) :
    Denotes (values ++ more) segment item := by
  cases h with
  | slot hvalue =>
    refine .slot ?_
    rw [List.getElem?_append_left (List.getElem?_eq_some_iff.1 hvalue).1, hvalue]
  | operator c => exact .operator c

theorem find?_slots {position : Nat} {value : Value} (h : values[position]? = some value) :
    (Value.slots values).find? (fun slot => slot.1 == slotName position) =
      some (slotName position, value) := by
  obtain ⟨hlt, hvalue⟩ := List.getElem?_eq_some_iff.1 h
  rw [List.find?_eq_some_iff_getElem]
  -- No slot before the position has the same name.
  refine ⟨beq_self_eq_true _, position, ?_, ?_, fun j hj => ?_⟩
  · rwa [Value.slots, List.length_map, List.length_zipIdx]
  · simp only [Value.slots, List.getElem_map, List.getElem_zipIdx, hvalue, Nat.zero_add]
  · simp only [Value.slots, List.getElem_map, List.getElem_zipIdx, Nat.zero_add, Bool.not_eq_true',
      beq_eq_false_iff_ne]
    intro heq
    exact Nat.ne_of_lt hj (slotName_inj heq)

theorem find?_slots_operator (values : List Value) (c : Char) :
    (Value.slots values).find? (fun slot => slot.1 == [c]) = none := by
  refine List.find?_eq_none.2 fun slot hslot heq => ?_
  obtain ⟨⟨value, position⟩, -, rfl⟩ := List.mem_map.1 hslot
  exact decimalText_ne_nil position (List.cons.inj (eq_of_beq heq)).2

/-- A segment is shown as the item that it denotes. -/
theorem Denotes.segmentText_eq (h : Denotes values segment item) :
    segmentText (Value.slots values) segment = item.text := by
  cases h with
  | slot hvalue =>
    rw [segmentText, find?_slots hvalue]
    rfl
  | operator c =>
    rw [segmentText, find?_slots_operator]
    rfl

theorem denotes_addItem {request : Request} {before : List Item}
    (h : List.Forall₂ (Denotes request.values) request.segments before) (item : Item) :
    List.Forall₂ (Denotes (request.addItem item).values) (request.addItem item).segments
      (before ++ [item]) := by
  cases item with
  | value v =>
    refine List.rel_append (h.imp fun _ _ hd => hd.append [v]) (.cons (.slot ?_) .nil)
    exact List.getElem?_concat_length
  | operator c => exact List.rel_append h (.cons (.operator c) .nil)

theorem denotes_addItems {request : Request} {before : List Item}
    (h : List.Forall₂ (Denotes request.values) request.segments before) (items : List Item) :
    List.Forall₂ (Denotes (request.addItems items).values) (request.addItems items).segments
      (before ++ items) := by
  induction items generalizing request before with
  | nil => rwa [List.append_nil]
  | cons item items ih =>
    have hstep := ih (denotes_addItem h item)
    rwa [List.append_assoc, List.singleton_append] at hstep

theorem map_segmentText {segments : List Text} {items : List Item}
    (h : List.Forall₂ (Denotes values) segments items) :
    segments.map (segmentText (Value.slots values)) = items.map Item.text := by
  induction h with
  | nil => rfl
  | cons hd _ ih => rw [List.map_cons, List.map_cons, hd.segmentText_eq, ih]

/-- The notation of a request joins the notations of its items. -/
theorem text_addItems (items : List Item) :
    (addItems {} items).text = joinWith [' '] (items.map Item.text) := by
  rw [text, map_segmentText (denotes_addItems .nil items), List.nil_append]

/-! ## Scanning the notation -/

theorem scan_space (request : Request) (text : Text) :
    request.scan (' ' :: text) = request.scan text := by
  rw [scan.eq_def, scan.eq_def request text]
  rfl

/-- Legible items with spaces between them are scanned one by one. -/
theorem scan_spaced (request : Request) {items : List Item}
    (h : ∀ item ∈ items, item.IsLegible) :
    request.scan (spaced (items.map Item.text)) = (request.addItems items, []) := by
  induction items generalizing request with
  | nil =>
    rw [scan]
    rfl
  | cons item items ih =>
    have hitem := h item List.mem_cons_self
    obtain ⟨piece, hread, hpiece⟩ := hitem.read _ (spaceAhead_spaced (items.map Item.text))
    -- The space in front of the item is skipped, and no character of the item is.
    have hskip : skipSeparators (spaced ((item :: items).map Item.text)) =
        item.text ++ spaced (items.map Item.text) :=
      skipSeparators_of_notAhead (hitem.solid.notAhead.append hitem.solid.ne_nil _)
    rw [scan, hskip, hread]
    simp only [addPiece?_eq, hpiece, Option.map_some]
    exact ih _ fun next hnext => h next (List.mem_cons_of_mem _ hnext)

/-- The joined notations of legible items are scanned into the items. -/
theorem scan_strip_joinWith (request : Request) {items : List Item}
    (h : ∀ item ∈ items, item.IsLegible) :
    request.scan (strip (joinWith [' '] (items.map Item.text))) = (request.addItems items, []) := by
  have hsolid : ∀ text ∈ items.map Item.text, IsSolid text :=
    List.forall_mem_map.2 fun item hitem => (h item hitem).solid
  rw [strip_joinWith hsolid]
  cases items with
  | nil =>
    rw [List.map_nil, joinWith, scan]
    rfl
  | cons item items =>
    rw [List.map_cons, joinWith_cons, ← scan_space]
    exact scan_spaced request h

/-! ## Reading the notation again -/

/-- The request, or its refusal if it has no dice. -/
def requireDice (request : Request) : Request :=
  if request.isValid && request.groups.isEmpty then { request with error := some .noDice }
  else request

theorem parse_eq (text : Text) :
    parse text = requireDice { (scan {} (strip text)).1 with
      label := labelOf? (scan {} (strip text)).2 } :=
  rfl

theorem values_requireDice (request : Request) : request.requireDice.values = request.values := by
  rw [requireDice]
  split <;> rfl

theorem text_requireDice (request : Request) : request.requireDice.text = request.text := by
  rw [requireDice]
  split <;> rfl

theorem requireDice_label (request : Request) (label : Option Text) :
    requireDice { request with label := label } = { request.requireDice with label := label } := by
  have hsame : (isValid { request with label := label } &&
      (groups { request with label := label }).isEmpty) =
      (request.isValid && request.groups.isEmpty) := rfl
  rw [requireDice, requireDice, hsame]
  cases request.isValid && request.groups.isEmpty <;> rfl

/-- A request that is read without an oversized constant is made of legible items, if no count is
too long. -/
theorem exists_items {text : Text} (hsize : (parse text).error ≠ some .constantTooLarge)
    (hcount : ∀ piece ∈ piecesOf (strip text), piece.HasShortCount) :
    ∃ items : List Item, (∀ item ∈ items, item.IsLegible) ∧
      (scan {} (strip text)).1 = addItems {} items := by
  have hscan : (scan {} (strip text)).1.error ≠ some .constantTooLarge := by
    intro herror
    apply hsize
    rw [parse_eq, requireDice_label, requireDice, isValid, herror]
    exact herror
  obtain ⟨items, hpieces, hitems⟩ := scan_eq_addItems {} (strip text) hscan
  refine ⟨items, fun item hitem => ?_, hitems⟩
  have hmem : some item ∈ (piecesOf (strip text)).map Piece.item? := by
    rw [hpieces]
    exact List.mem_map_of_mem hitem
  obtain ⟨piece, hpiece, heq⟩ := List.mem_map.1 hmem
  exact Piece.isLegible_of_item? (isWritten_of_mem_piecesOf hpiece) (hcount piece hpiece) heq

/-- The notation of a request is read as the request without its label. -/
theorem parse_text {text : Text} (hsize : (parse text).error ≠ some .constantTooLarge)
    (hcount : ∀ piece ∈ piecesOf (strip text), piece.HasShortCount) :
    parse (parse text).text = { parse text with label := none } := by
  obtain ⟨items, hlegible, hscan⟩ := exists_items hsize hcount
  have htext : (parse text).text = joinWith [' '] (items.map Item.text) := by
    rw [← text_addItems items, parse_eq, text_requireDice, hscan]
    rfl
  have hread : parse text = { (addItems {} items).requireDice with
      label := labelOf? (scan {} (strip text)).2 } := by
    rw [parse_eq, hscan, requireDice_label]
  have hagain :
      parse (parse text).text = { (addItems {} items).requireDice with label := none } := by
    rw [parse_eq, htext, scan_strip_joinWith {} hlegible, requireDice_label]
    rfl
  rw [hagain, hread]

/-- A request that is read without an oversized constant and without a count that is too long has a
faithful notation: the request that is read from it differs only in having no label. -/
theorem parse_text_faithful (text : Text) (hsize : (parse text).error ≠ some .constantTooLarge)
    (hcount : ∀ piece ∈ piecesOf (strip text), piece.HasShortCount) :
    (parse (parse text).text).segments = (parse text).segments ∧
      (parse (parse text).text).formula = (parse text).formula ∧
      (parse (parse text).text).values = (parse text).values ∧
      Value.slots (parse (parse text).text).values = Value.slots (parse text).values ∧
      (parse (parse text).text).error = (parse text).error ∧
      (parse (parse text).text).label = none ∧
      (parse (parse text).text).text = (parse text).text := by
  rw [parse_text hsize hcount]
  exact ⟨rfl, rfl, rfl, rfl, rfl, rfl, rfl⟩

/-- A request with a label, with a group that drops too many dice, and with numbers that are not
written as they are shown. -/
def mixedRequest : Text :=
  "4D6k3 - 2d٣d2+007 x".toList

set_option maxRecDepth 6000 in
theorem parse_text_mixedRequest :
    (parse mixedRequest).error ≠ some .constantTooLarge ∧
      (∀ piece ∈ piecesOf (strip mixedRequest), piece.HasShortCount) ∧
      (parse (parse mixedRequest).text).values = (parse mixedRequest).values ∧
      (parse (parse mixedRequest).text).label = none := by
  have herror : (parse mixedRequest).error = none := by cbv
  have hall : (piecesOf (strip mixedRequest)).all (fun piece => piece.HasShortCount) = true := by
    cbv
  have hsize : (parse mixedRequest).error ≠ some .constantTooLarge := by
    rw [herror]
    exact (Option.some_ne_none _).symm
  have hcount : ∀ piece ∈ piecesOf (strip mixedRequest), piece.HasShortCount := by
    intro piece hpiece
    exact of_decide_eq_true (List.all_eq_true.1 hall piece hpiece)
  obtain ⟨-, -, hvalues, -, -, hlabel, -⟩ := parse_text_faithful mixedRequest hsize hcount
  exact ⟨hsize, hcount, hvalues, hlabel⟩

end Request

end DiceNotation
