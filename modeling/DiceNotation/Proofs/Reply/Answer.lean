import DiceNotation.Reply.Basic
import DiceNotation.Proofs.Request.Execution

/-!
# Which texts are answered

Whatever is wrong with a text is said in the reply to it, with one exception. With a source that
answers in range, and that answers as many draws as the dice ask for, a text is left without a reply
exactly if its formula breaks down on the totals of its groups (`answer_isOk_iff`): it takes the
remainder of a complex number, or it raises a number to a refused power that cannot be shown.
-/

namespace DiceNotation

variable {text : Text} {source : Source}

/-- The text is a request whose formula breaks down on the dice that the source lets fall. -/
def LeavesUnanswered (text : Text) (source : Source) (why : Breakdown) : Prop :=
  cannedReply? text = none ∧ (Request.parse text).BreaksDown source why

theorem answer_eq_error_iff (text : Text) (detailed : Bool) (source : Source) (fault : Fault) :
    (answer text detailed source).1 = .error fault ↔
      cannedReply? text = none ∧ ((Request.parse text).execute source).fault = some fault := by
  rw [answer]
  cases hcanned : cannedReply? text with
  | some reply => exact ⟨nofun, fun h => nomatch h.1⟩
  | none =>
    rw [and_iff_right rfl]
    dsimp only
    cases hfault : ((Request.parse text).execute source).fault with
    | none => exact ⟨nofun, nofun⟩
    | some fault' =>
      constructor
      · rintro ⟨⟩
        rfl
      · rintro ⟨⟩
        rfl

theorem answer_eq_broken_iff (text : Text) (detailed : Bool) (source : Source) (why : Breakdown) :
    (answer text detailed source).1 = .error (.broken why) ↔ LeavesUnanswered text source why := by
  rw [answer_eq_error_iff, Request.fault_execute_eq_broken_iff, LeavesUnanswered]

/-- With a source that answers in range, and often enough for the dice to be rolled, a text is
answered, in detail or not, unless its formula breaks down. The formula is taken to be shallow
enough for the evaluator to read it and to evaluate it. -/
theorem answer_isOk_iff (text : Text) (detailed : Bool) (hs : source.AnswersInRange)
    (hends : (Request.parse text).RollsEnd source) :
    (∃ reply, (answer text detailed source).1 = .ok reply) ↔
      ¬∃ why, LeavesUnanswered text source why := by
  constructor
  · rintro ⟨reply, hreply⟩ ⟨why, hwhy⟩
    rw [(answer_eq_broken_iff text detailed source why).2 hwhy] at hreply
    cases hreply
  · intro hnone
    cases hanswer : (answer text detailed source).1 with
    | ok reply => exact ⟨reply, rfl⟩
    | error fault =>
      obtain ⟨hcanned, hfault⟩ := (answer_eq_error_iff text detailed source fault).1 hanswer
      cases fault with
      | roll e =>
        have he := Request.fault_execute_eq_roll hs hfault
        rw [he] at hfault
        exact absurd hfault hends
      | broken why =>
        have hbroken := (Request.fault_execute_eq_broken_iff _ source why).1 hfault
        exact absurd ⟨why, hcanned, hbroken⟩ hnone

/-- The source whose dice show their lowest number. -/
def lowestSource : Source where
  answer _ interval := .ok interval.low
  limit := Source.usualLimit

theorem answersInRange_lowestSource : lowestSource.AnswersInRange := by
  intro i interval hne
  refine ⟨interval.low, rfl, ?_⟩
  rw [Interval.contains, Bool.and_eq_true]
  exact ⟨decide_eq_true (Int.le_refl _), decide_eq_true hne⟩

/-- A power whose base has more digits than can be shown. -/
def unprintablePower : Text :=
  "(9^5000)^d2".toList

set_option maxRecDepth 6000 in
/-- The die is rolled, and then the power is refused in vain. -/
theorem leavesUnanswered_unprintablePower :
    LeavesUnanswered unprintablePower lowestSource .unprintable := by
  have hcanned : cannedReply? unprintablePower = none := by cbv
  have hvalid : (Request.parse unprintablePower).isValid = true := by cbv
  have hfaults : (Request.parse unprintablePower).groupFaults = [] := by cbv
  have hcompile : Formula.compile (Request.parse unprintablePower).formula =
      .ok ⟨"( slot0 ** slot1 ) ** slot2".toList, .value
        (.binary .pow (.binary .pow (.name "slot0".toList) (.name "slot1".toList))
          (.name "slot2".toList))⟩ := by cbv
  have hrolled : (Value.rollAll (Request.parse unprintablePower).values lowestSource).1 = none := by
    cbv
  have hscope :
      Value.scope (Value.rollAll (Request.parse unprintablePower).values lowestSource).2.1 =
        ⟨[("slot2".toList, .int 1), ("slot1".toList, .int 5000), ("slot0".toList, .int 9)]⟩ := by
    cbv
  refine ⟨hcanned, hvalid, hfaults, _, _, _, _, hcompile, rfl, Prod.ext hrolled rfl, ?_⟩
  rw [hscope]
  exact .operation rfl rfl (.pow (.inl Quantity.not_isPrintable_pow))

theorem answer_unprintablePower :
    lowestSource.AnswersInRange ∧ (Request.parse unprintablePower).RollsEnd lowestSource ∧
      ¬∃ reply, (answer unprintablePower false lowestSource).1 = .ok reply := by
  have hleaves := leavesUnanswered_unprintablePower
  have hends : (Request.parse unprintablePower).RollsEnd lowestSource := by
    rw [Request.RollsEnd, (Request.fault_execute_eq_broken_iff _ _ .unprintable).2 hleaves.2]
    exact nofun
  refine ⟨answersInRange_lowestSource, hends, fun hreply => ?_⟩
  exact (answer_isOk_iff unprintablePower false answersInRange_lowestSource hends).1 hreply
    ⟨.unprintable, hleaves⟩

end DiceNotation
