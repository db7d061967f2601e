import DiceNotation.Proofs.Text.Blank

/-!
# Texts set apart by spaces

Words without blanks that are joined by single spaces can be told apart again. In front of every
word but the first there is a space (`joinWith_cons`), so that nothing or a space is next behind a
word (`spaceAhead_spaced`), and the joined text has no blanks at its ends (`strip_joinWith`).
-/

namespace DiceNotation

variable {text tail : Text} {texts : List Text}

/-- Nothing or a space is next. -/
def SpaceAhead (text : Text) : Prop :=
  NotAhead (fun c => c != ' ') text

theorem SpaceAhead.notAhead {isMember : Char → Bool} (h : SpaceAhead tail)
    (hspace : isMember ' ' = false) : NotAhead isMember tail := by
  intro c hc
  obtain rfl : c = ' ' := by
    have := h c hc
    rwa [bne_eq_false_iff_eq] at this
  exact hspace

/-! ## Blanks -/

/-- The text is not empty and has no blanks. -/
structure IsSolid (text : Text) : Prop where
  ne_nil : text ≠ []
  all : ∀ c ∈ text, isBlank c = false

theorem isSolid_of_any (hne : text ≠ []) (h : text.any isBlank = false) : IsSolid text :=
  ⟨hne, fun c hc => Bool.eq_false_iff.2 fun hblank =>
    Bool.eq_false_iff.1 h (List.any_eq_true.2 ⟨c, hc, hblank⟩)⟩

theorem IsSolid.append (hrun : IsSolid text) (h : ∀ c ∈ tail, isBlank c = false) :
    IsSolid (text ++ tail) := by
  refine ⟨List.append_ne_nil_of_left_ne_nil hrun.ne_nil tail, fun c hc => ?_⟩
  rcases List.mem_append.1 hc with hc | hc
  · exact hrun.all c hc
  · exact h c hc

theorem IsSolid.notAhead (h : IsSolid text) : NotAhead isBlank text :=
  fun c hc => h.all c (List.mem_of_mem_head? hc)

theorem IsSolid.reverse (h : IsSolid text) : IsSolid text.reverse :=
  ⟨mt List.reverse_eq_nil_iff.1 h.ne_nil, fun c hc => h.all c (List.mem_reverse.1 hc)⟩

theorem skipSeparators_of_notAhead (h : NotAhead isBlank text) : skipSeparators text = text := by
  refine dropWhile_eq_self fun c hc => Bool.eq_false_iff.2 fun hsep => ?_
  exact Bool.eq_false_iff.1 (h c hc) (isBlank_of_isSeparator hsep)

/-! ## Joining -/

/-- Texts with a space before each. -/
def spaced (texts : List Text) : Text :=
  texts.flatMap fun text => ' ' :: text

theorem spaced_cons (text : Text) (texts : List Text) :
    spaced (text :: texts) = ' ' :: (text ++ spaced texts) :=
  List.flatMap_cons

theorem joinWith_cons (text : Text) (texts : List Text) :
    joinWith [' '] (text :: texts) = text ++ spaced texts := by
  induction texts generalizing text with
  | nil => exact (List.append_nil _).symm
  | cons next texts ih =>
    rw [joinWith, ih next, spaced_cons, List.append_assoc]
    · rfl
    · exact List.cons_ne_nil _ _

theorem mem_joinWith_of_mem {separator : Text} {c : Char} (hc : c ∈ text) (h : text ∈ texts) :
    c ∈ joinWith separator texts := by
  induction texts with
  | nil => cases h
  | cons first texts ih =>
    cases texts with
    | nil => exact List.mem_singleton.1 h ▸ hc
    | cons next texts =>
      rw [joinWith, List.mem_append, List.mem_append]
      · rcases List.mem_cons.1 h with rfl | hmore
        · exact .inl (.inl hc)
        · exact .inr (ih hmore)
      · exact List.cons_ne_nil _ _

theorem spaceAhead_spaced (texts : List Text) : SpaceAhead (spaced texts) := by
  cases texts with
  | nil => exact notAhead_nil
  | cons text texts => exact notAhead_cons rfl

/-- Solid texts, with whatever stands between them, end in no blank. -/
theorem notAhead_reverse_flatMap {α : Type} {solid : α → Text} {members : List α}
    (run : α → Text) (htext : IsSolid text) (h : ∀ a ∈ members, IsSolid (solid a)) :
    NotAhead isBlank (text ++ members.flatMap fun a => run a ++ solid a).reverse := by
  induction members generalizing text with
  | nil =>
    rw [List.flatMap_nil, List.append_nil]
    exact htext.reverse.notAhead
  | cons a members ih =>
    obtain ⟨ha, hmore⟩ := List.forall_mem_cons.1 h
    have hne : (solid a ++ members.flatMap fun a => run a ++ solid a).reverse ≠ [] :=
      mt List.reverse_eq_nil_iff.1 (List.append_ne_nil_of_left_ne_nil ha.ne_nil _)
    have hsplit : text ++ ((a :: members).flatMap fun a => run a ++ solid a) =
        (text ++ run a) ++ (solid a ++ members.flatMap fun a => run a ++ solid a) := by
      rw [List.flatMap_cons, List.append_assoc, List.append_assoc]
    rw [hsplit, List.reverse_append]
    exact (ih ha hmore).append hne _

theorem strip_joinWith (h : ∀ text ∈ texts, IsSolid text) :
    strip (joinWith [' '] texts) = joinWith [' '] texts := by
  cases texts with
  | nil => rfl
  | cons text texts =>
    obtain ⟨htext, hmore⟩ := List.forall_mem_cons.1 h
    rw [joinWith_cons]
    have hlast : NotAhead isBlank (text ++ spaced texts).reverse :=
      notAhead_reverse_flatMap (fun _ => [' ']) htext hmore
    exact strip_of_notAhead (htext.notAhead.append htext.ne_nil _) hlast

end DiceNotation
