import DiceNotation.Proofs.Text.Numeral
import Mathlib.Data.List.DropRight

/-!
# Blank texts

A text is the one that is cleared of the blanks at its ends with blanks around it
(`exists_blanks_strip`), and clearing finds every text without blanks at its ends again between
blanks (`strip_append_of_notAhead`). What is cleared is empty just if there was nothing but blanks
(`strip_eq_nil_iff`), and separators that are taken off in front beforehand make no difference to it
(`strip_skipSeparators`).
-/

namespace DiceNotation

/-- The text has no character but blanks. -/
def AllBlank (text : Text) : Prop :=
  ∀ c ∈ text, isBlank c = true

instance (text : Text) : Decidable (AllBlank text) :=
  decidable_of_iff (text.all isBlank = true) List.all_eq_true

variable {text front back : Text}

theorem AllBlank.append (hfront : AllBlank front) (hback : AllBlank back) :
    AllBlank (front ++ back) :=
  List.forall_mem_append.2 ⟨hfront, hback⟩

theorem allBlank_of_isSeparator (h : ∀ c ∈ text, isSeparator c = true) : AllBlank text :=
  fun c hc => isBlank_of_isSeparator (h c hc)

theorem stripFront_append (hfront : AllBlank front) (text : Text) :
    stripFront (front ++ text) = stripFront text :=
  List.dropWhile_append_of_pos hfront

theorem stripBack_append (text : Text) (hback : AllBlank back) :
    stripBack (text ++ back) = stripBack text := by
  rw [stripBack, List.reverse_append,
    List.dropWhile_append_of_pos fun c hc => hback c (List.mem_reverse.1 hc), stripBack]

theorem strip_of_notAhead (hfront : NotAhead isBlank text)
    (hback : NotAhead isBlank text.reverse) : strip text = text := by
  rw [strip, stripFront, dropWhile_eq_self hfront, stripBack, dropWhile_eq_self hback,
    List.reverse_reverse]

/-- Clearing finds a text between blanks. -/
theorem strip_append_of_notAhead (hfront : AllBlank front) (hback : AllBlank back)
    (htext : NotAhead isBlank text) (hlast : NotAhead isBlank text.reverse) :
    strip (front ++ text ++ back) = text := by
  rw [List.append_assoc, strip, stripFront_append hfront]
  cases text with
  | nil =>
    have hnil : stripFront back = [] := List.dropWhile_eq_nil_iff.2 hback
    rw [List.nil_append, hnil]
    rfl
  | cons c text =>
    have hfixed : stripFront (c :: text ++ back) = c :: text ++ back :=
      dropWhile_eq_self (htext.append (List.cons_ne_nil c text) back)
    rw [hfixed, stripBack_append _ hback, stripBack, dropWhile_eq_self hlast, List.reverse_reverse]

theorem notAhead_strip (text : Text) : NotAhead isBlank (strip text) := by
  have hfront : NotAhead isBlank (stripFront text) := notAhead_dropWhile isBlank text
  intro c hc
  refine hfront c ?_
  obtain ⟨more, hmore⟩ := List.rdropWhile_prefix isBlank (stripFront text)
  obtain ⟨rest, hrest⟩ := List.head?_eq_some_iff.1 hc
  rw [← hmore]
  exact congrArg (fun front => (front ++ more).head?) hrest

theorem notAhead_reverse_strip (text : Text) : NotAhead isBlank (strip text).reverse := by
  rw [strip, stripBack, List.reverse_reverse]
  exact notAhead_dropWhile isBlank _

/-- There is nothing but blanks around what is left of a text. -/
theorem exists_blanks_strip (text : Text) :
    ∃ front back, AllBlank front ∧ AllBlank back ∧ front ++ strip text ++ back = text := by
  refine ⟨text.takeWhile isBlank, ((stripFront text).reverse.takeWhile isBlank).reverse,
    List.all_eq_true.1 List.all_takeWhile,
    fun c hc => List.all_eq_true.1 List.all_takeWhile c (List.mem_reverse.1 hc), ?_⟩
  rw [strip, stripBack, List.append_assoc, ← List.reverse_append, List.takeWhile_append_dropWhile,
    List.reverse_reverse]
  exact List.takeWhile_append_dropWhile

theorem strip_eq_nil_iff : strip text = [] ↔ AllBlank text := by
  constructor
  · intro h
    obtain ⟨front, back, hfront, hback, htext⟩ := exists_blanks_strip text
    rw [h, List.append_nil] at htext
    exact htext ▸ hfront.append hback
  · intro h
    have hstrip := strip_append_of_notAhead h (List.forall_mem_nil _ : AllBlank []) notAhead_nil
      notAhead_nil
    rwa [List.append_nil, List.append_nil] at hstrip

theorem separators_append (text : Text) :
    text.takeWhile isSeparator ++ skipSeparators text = text :=
  List.takeWhile_append_dropWhile

theorem isSeparator_of_mem_takeWhile (text : Text) :
    ∀ c ∈ text.takeWhile isSeparator, isSeparator c = true :=
  List.all_eq_true.1 List.all_takeWhile

theorem strip_skipSeparators (text : Text) : strip (skipSeparators text) = strip text := by
  have hblank := allBlank_of_isSeparator (isSeparator_of_mem_takeWhile text)
  rw [strip, ← stripFront_append hblank, separators_append, strip]

end DiceNotation
