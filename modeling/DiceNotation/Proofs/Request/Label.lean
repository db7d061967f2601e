import DiceNotation.Proofs.Request.Scan

/-!
# What becomes the label

The scan of a request stops where no piece begins, and what it leaves unread becomes the label
(`Request.unread`). Two classes of blanks meet there: the scan skips only separators, whereas the
label is cleared of all blanks. As long as the scan has not stopped in front of one of the other
blanks, the label is the unread text up to blanks at its end, and no piece begins at it
(`Request.not_beginsPiece_label_or_blank`). In front of such a blank anything can be left, even an
operator with its operand (`Request.beginsPiece_label_noBreak`).
-/

namespace DiceNotation

variable {text : Text}

theorem BeginsPiece.mono {front : Text} (h : BeginsPiece front) (hfront : front <+: text) :
    BeginsPiece text := by
  rcases h with ⟨lexeme, hwritten, hlexeme⟩ | ⟨digits, hrun, hdigits⟩ | ⟨c, hc, hoperator⟩
  · exact .inl ⟨lexeme, hwritten, hlexeme.trans hfront⟩
  · exact .inr (.inl ⟨digits, hrun, hdigits.trans hfront⟩)
  · exact .inr (.inr ⟨c, hc, hoperator.trans hfront⟩)

/-- A text that begins with no blank only loses blanks at its end. -/
theorem strip_isPrefix (h : NotAhead isBlank text) : strip text <+: text := by
  rw [strip, stripFront, dropWhile_eq_self h]
  exact List.rdropWhile_prefix isBlank text

namespace Request

/-- What the scan of a text leaves unread. -/
def unread (text : Text) : Text :=
  (scan {} (strip text)).2

/-- A scan that comes upon no oversized constant stops where neither a piece nor a separator
    begins. -/
theorem scan_stops (request : Request) (text : Text)
    (h : (request.scan text).1.error ≠ some .constantTooLarge) :
    ¬BeginsPiece (request.scan text).2 ∧ NotAhead isSeparator (request.scan text).2 := by
  fun_induction scan request text with
  | case1 request text hread => exact ⟨not_beginsPiece hread, notAhead_dropWhile isSeparator text⟩
  | case2 request text piece rest hread added hadd ih => exact ih h
  | case3 => exact absurd rfl h

theorem unread_stops (h : (parse text).error ≠ some .constantTooLarge) :
    ¬BeginsPiece (unread text) ∧ NotAhead isSeparator (unread text) := by
  refine scan_stops {} (strip text) fun hscan => h ?_
  rw [parse_eq, requireDice_eq]
  simp only [hscan, Option.some_or]

theorem label_eq_strip {label : Text} (h : (parse text).label = some label) :
    label = strip (unread text) := by
  rw [parse_eq, requireDice_eq] at h
  simp only [labelOf?] at h
  split at h
  · cases h
  · cases h
    rfl

/-- No piece begins at the label of a request without an oversized constant, unless the scan has
    stopped in front of a blank that is no separator. -/
theorem not_beginsPiece_label_or_blank {label : Text} (hsize : (parse text).error ≠ some .constantTooLarge)
    (hlabel : (parse text).label = some label) :
    ¬BeginsPiece label ∨
      ∃ c rest, unread text = c :: rest ∧ isBlank c = true ∧ isSeparator c = false := by
  obtain ⟨hpiece, hseparator⟩ := unread_stops hsize
  obtain rfl := label_eq_strip hlabel
  by_cases hblank : NotAhead isBlank (unread text)
  · exact .inl fun hbegins => hpiece (hbegins.mono (strip_isPrefix hblank))
  · obtain ⟨c, hc, hcblank⟩ : ∃ c, (unread text).head? = some c ∧ ¬isBlank c = false := by
      simpa only [NotAhead, not_forall, exists_prop] using hblank
    obtain ⟨rest, hunread⟩ := List.head?_eq_some_iff.1 hc
    exact .inr ⟨c, rest, hunread, eq_true_of_ne_false hcblank, hseparator c hc⟩

/-- A request whose parts are set apart by all four separators. -/
def labelled : Text :=
  "2d6 +\t3\r\nfor 1d4 luck".toList

theorem not_beginsPiece_labelled :
    (parse labelled).label = some "for 1d4 luck".toList ∧ ¬BeginsPiece "for 1d4 luck".toList := by
  have hsize : (parse labelled).error ≠ some .constantTooLarge := by
    rw [show (parse labelled).error = none by cbv]
    exact (Option.some_ne_none _).symm
  have hlabel : (parse labelled).label = some "for 1d4 luck".toList := by cbv
  have hunread : unread labelled = "for 1d4 luck".toList := by cbv
  refine ⟨hlabel, (not_beginsPiece_label_or_blank hsize hlabel).resolve_right ?_⟩
  rintro ⟨c, rest, heq, hblank, -⟩
  rw [hunread] at heq
  cases heq
  exact absurd hblank (by decide)

/-- With a no-break space in front of it, a bonus becomes the label. -/
theorem beginsPiece_label_noBreak :
    (parse "d6\u00a0+ 2".toList).error = none ∧
      (parse "d6\u00a0+ 2".toList).label = some "+ 2".toList ∧ BeginsPiece "+ 2".toList := by
  refine ⟨by cbv, by cbv, .inr (.inr ⟨'+', by decide, ?_⟩)⟩
  exact ⟨" 2".toList, by decide⟩

end Request

end DiceNotation
