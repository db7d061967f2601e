import DiceNotation.Text.Numeral
import DiceNotation.Text.Blank
import DiceNotation.Number.Power

/-!
# Numerals read back

A number that was read from digits, whatever their script and however many zeros stood in front, has
no more decimal digits than the reader allows (`boundedValue?_lt`). Its decimal text is therefore
read as the same number by a reader with the same limit (`boundedValue?_decimalText`,
`Numeral.read_decimalText`).

A run is found in a longer text as soon as the text behind it does not go on with a character of the
same class (`NotAhead`).
-/

namespace DiceNotation

/-! ## Classes of characters -/

/-- The text does not begin with a character of the class. -/
def NotAhead (isMember : Char → Bool) (text : Text) : Prop :=
  ∀ c, text.head? = some c → isMember c = false

variable {isMember : Char → Bool} {run text : Text} {c : Char}

theorem notAhead_nil : NotAhead isMember [] := by
  intro c h
  cases h

theorem notAhead_cons (h : isMember c = false) : NotAhead isMember (c :: text) := by
  rintro _ ⟨⟩
  exact h

theorem NotAhead.append (h : NotAhead isMember run) (hne : run ≠ []) (text : Text) :
    NotAhead isMember (run ++ text) := by
  obtain ⟨c, rest, rfl⟩ := List.exists_cons_of_ne_nil hne
  exact notAhead_cons (h c rfl)

theorem NotAhead.append_notAhead (h : NotAhead isMember run) (ht : NotAhead isMember text) :
    NotAhead isMember (run ++ text) := by
  cases run with
  | nil => exact ht
  | cons c run => exact h.append (List.cons_ne_nil _ _) text

theorem notAhead_dropWhile (isMember : Char → Bool) (text : Text) :
    NotAhead isMember (text.dropWhile isMember) := by
  intro c hc
  have hhead := List.head?_dropWhile_not isMember text
  rwa [hc] at hhead

theorem takeWhile_eq_nil (h : NotAhead isMember text) : text.takeWhile isMember = [] := by
  cases text with
  | nil => rfl
  | cons c rest => rw [List.takeWhile_cons, h c rfl, if_neg Bool.false_ne_true]

theorem dropWhile_eq_self (h : NotAhead isMember text) : text.dropWhile isMember = text := by
  cases text with
  | nil => rfl
  | cons c rest => rw [List.dropWhile_cons, h c rfl, if_neg Bool.false_ne_true]

theorem takeWhile_append (inside : ∀ c ∈ run, isMember c = true) (h : NotAhead isMember text) :
    (run ++ text).takeWhile isMember = run := by
  rw [List.takeWhile_append_of_pos inside, takeWhile_eq_nil h, List.append_nil]

theorem dropWhile_append (inside : ∀ c ∈ run, isMember c = true) (h : NotAhead isMember text) :
    (run ++ text).dropWhile isMember = text := by
  rw [List.dropWhile_append_of_pos inside, dropWhile_eq_self h]

/-- A run of characters is as long as before in front of a text that does not go on with it. -/
theorem NotAhead.takeWhile_append (h : NotAhead isMember text) (front : Text) :
    (front ++ text).takeWhile isMember = front.takeWhile isMember := by
  have hsplit := List.takeWhile_append_dropWhile (p := isMember) (l := front)
  have hnext := (notAhead_dropWhile isMember front).append_notAhead h
  rw [← hsplit, List.append_assoc,
    DiceNotation.takeWhile_append (List.all_eq_true.1 List.all_takeWhile) hnext, hsplit]

theorem NotAhead.dropWhile_append (h : NotAhead isMember text) (front : Text) :
    (front ++ text).dropWhile isMember = front.dropWhile isMember ++ text := by
  have hsplit := List.takeWhile_append_dropWhile (p := isMember) (l := front)
  have hnext := (notAhead_dropWhile isMember front).append_notAhead h
  rw [← hsplit, List.append_assoc,
    DiceNotation.dropWhile_append (List.all_eq_true.1 List.all_takeWhile) hnext, hsplit]

/-- A digit lies among the ten after one of the zeros. -/
theorem exists_zero_of_isDigit (h : isDigit c = true) :
    ∃ first ∈ decimalZeros, first ≤ c.toNat ∧ c.toNat < first + 10 := by
  rw [isDigit, digitValue?, Option.isSome_map, List.find?_isSome] at h
  obtain ⟨first, hfirst, hbounds⟩ := h
  rw [Bool.and_eq_true, decide_eq_true_eq, decide_eq_true_eq] at hbounds
  exact ⟨first, hfirst, hbounds⟩

/-- No digit is white space. -/
theorem isBlank_eq_false_of_isDigit (h : isDigit c = true) : isBlank c = false := by
  have hapart : ∀ first ∈ decimalZeros, ∀ run ∈ blankRuns, run.2 < first ∨ first + 10 ≤ run.1 := by
    decide
  obtain ⟨first, hfirst, hlow, hhigh⟩ := exists_zero_of_isDigit h
  refine List.any_eq_false.2 fun run hrun => ?_
  rw [Bool.and_eq_true, decide_eq_true_eq, decide_eq_true_eq]
  have := hapart first hfirst run hrun
  omega

/-! ## Values -/

theorem digitValue?_le {n : Nat} (h : digitValue? c = some n) : n ≤ 9 := by
  obtain ⟨first, hfind, rfl⟩ := Option.map_eq_some_iff.1 h
  have hbounds := List.find?_some hfind
  rw [Bool.and_eq_true, decide_eq_true_eq, decide_eq_true_eq] at hbounds
  omega

/-- The value of an ASCII digit is its distance from the ASCII zero. -/
theorem digitValue?_of_isDigit_ascii (h : c.isDigit = true) :
    digitValue? c = some (c.toNat - 48) := by
  have hrange : 48 ≤ c.toNat ∧ c.toNat ≤ 57 := by
    simpa [Char.isDigit, UInt32.le_iff_toNat_le] using h
  have hfirst : (decide (48 ≤ c.toNat) && decide (c.toNat < 48 + 10)) = true := by
    simp only [Bool.and_eq_true, decide_eq_true_eq]
    omega
  simp [digitValue?, decimalZeros, hfirst]

/-- Reading digits on top of a number shifts the number and adds less than one unit of it. -/
theorem foldl_digits_lt (digits : Text) (n : Nat) :
    digits.foldl (fun n c => 10 * n + (digitValue? c).getD 0) n <
      (n + 1) * natPow 10 digits.length := by
  induction digits generalizing n with
  | nil => simp
  | cons c digits ih =>
    have hdigit : (digitValue? c).getD 0 ≤ 9 := by
      cases h : digitValue? c with
      | none => exact Nat.zero_le 9
      | some d => exact digitValue?_le h
    rw [List.foldl_cons, List.length_cons, natPow_succ]
    calc _ < (10 * n + (digitValue? c).getD 0 + 1) * natPow 10 digits.length := ih _
      _ ≤ (n + 1) * 10 * natPow 10 digits.length := Nat.mul_le_mul_right _ (by omega)
      _ = (n + 1) * (natPow 10 digits.length * 10) := by
        rw [Nat.mul_assoc, Nat.mul_comm 10]

theorem numeralValue_lt (digits : Text) : numeralValue digits < natPow 10 digits.length := by
  have h := foldl_digits_lt digits 0
  rwa [Nat.zero_add, Nat.one_mul] at h

theorem numeralValue_significant (digits : Text) :
    numeralValue (significant digits) = numeralValue digits := by
  induction digits with
  | nil => rfl
  | cons c digits ih =>
    rw [significant, List.dropWhile_cons]
    split
    · rename_i hzero
      obtain rfl : c = '0' := eq_of_beq hzero
      exact ih
    · rfl

/-! ## Decimal text -/

/-- Decimal text has ASCII digits only. -/
theorem isDigit_ascii_of_mem_decimalText {n : Nat} (h : c ∈ decimalText n) : c.isDigit = true :=
  Nat.isDigit_of_mem_toDigits (by decide) (by decide) h

theorem isDigit_of_mem_decimalText {n : Nat} (h : c ∈ decimalText n) : isDigit c = true :=
  isDigit_of_isDigit_ascii (isDigit_ascii_of_mem_decimalText h)

theorem decimalText_ne_nil (n : Nat) : decimalText n ≠ [] :=
  Nat.toDigits_ne_nil

theorem looksNumeric_of_isDigit {digits : Text} (hne : digits ≠ [])
    (h : ∀ c ∈ digits, isDigit c = true) : looksNumeric digits = true := by
  rw [looksNumeric, Bool.and_eq_true, List.all_eq_true]
  refine ⟨?_, fun c hc => ?_⟩
  · rw [Bool.not_eq_true', List.isEmpty_eq_false_iff]
    exact hne
  · rw [h c hc, Bool.true_or]

/-- A word in digits denotes a number, whatever the limit. -/
theorem isUndefinedNumeral_of_isDigit {word : Text} (limit : Nat)
    (h : ∀ c ∈ word, isDigit c = true) : isUndefinedNumeral limit word = false := by
  rw [isUndefinedNumeral, List.all_eq_true.2 h, Bool.not_true, Bool.and_false]

/-- The decimal text of a number is read as the number. -/
theorem numeralValue_decimalText (n : Nat) : numeralValue (decimalText n) = n := by
  -- The library's reader reads ASCII digits the same way.
  have hascii : ∀ (digits : Text) (m : Nat), (∀ c ∈ digits, c.isDigit = true) →
      digits.foldl (fun n c => 10 * n + (digitValue? c).getD 0) m =
        Nat.ofDigitChars 10 digits m := by
    intro digits
    induction digits with
    | nil => exact fun m _ => Nat.ofDigitChars_nil.symm
    | cons c digits ih =>
      intro m h
      rw [List.foldl_cons, Nat.ofDigitChars_cons,
        digitValue?_of_isDigit_ascii (h c List.mem_cons_self)]
      exact ih _ fun c hc => h c (List.mem_cons_of_mem _ hc)
  exact (hascii _ 0 fun _ => isDigit_ascii_of_mem_decimalText).trans Nat.ofDigitChars_ten_toDigits

theorem decimalText_inj {m n : Nat} (h : decimalText m = decimalText n) : m = n := by
  rw [← numeralValue_decimalText m, h, numeralValue_decimalText]

theorem length_decimalText_le_iff {n limit : Nat} (hlimit : 0 < limit) :
    (decimalText n).length ≤ limit ↔ n < natPow 10 limit :=
  Nat.length_toDigits_le_iff (by decide) hlimit

theorem length_significant_decimalText_le {n limit : Nat} (hlimit : 0 < limit)
    (h : n < natPow 10 limit) : (significant (decimalText n)).length ≤ limit :=
  Nat.le_trans (List.dropWhile_sublist _).length_le ((length_decimalText_le_iff hlimit).2 h)

/-! ## Limits -/

theorem numeralValue_lt_of_length {limit : Nat} {digits : Text}
    (h : (significant digits).length ≤ limit) : numeralValue digits < natPow 10 limit := by
  rw [← numeralValue_significant]
  exact Nat.lt_of_lt_of_le (numeralValue_lt _) (natPow_le_right (by decide) h)

theorem boundedValue?_eq_none_iff {limit : Nat} {digits : Text} :
    boundedValue? limit digits = none ↔ limit < (significant digits).length := by
  rw [boundedValue?]
  split
  · rename_i hlength
    exact iff_of_true rfl hlength
  · rename_i hlength
    exact iff_of_false nofun hlength

theorem boundedValue?_eq_some_iff {limit n : Nat} {digits : Text} :
    boundedValue? limit digits = some n ↔
      (significant digits).length ≤ limit ∧ numeralValue digits = n := by
  rw [boundedValue?]
  split
  · rename_i hlength
    exact ⟨nofun, fun h => absurd hlength (Nat.not_lt.2 h.1)⟩
  · rename_i hlength
    rw [Option.some.injEq, and_iff_right (Nat.le_of_not_lt hlength)]

theorem boundedValue?_lt {limit n : Nat} {digits : Text} (h : boundedValue? limit digits = some n) :
    n < natPow 10 limit := by
  obtain ⟨hlength, rfl⟩ := boundedValue?_eq_some_iff.1 h
  exact numeralValue_lt_of_length hlength

/-- A number that was read is read again from its decimal text. -/
theorem boundedValue?_decimalText {limit n : Nat} {digits : Text} (hlimit : 0 < limit)
    (h : boundedValue? limit digits = some n) : boundedValue? limit (decimalText n) = some n := by
  have hlength := length_significant_decimalText_le hlimit (boundedValue?_lt h)
  rw [boundedValue?, if_neg (Nat.not_lt.2 hlength), numeralValue_decimalText]

namespace Numeral

theorem read_of_isDigit {limit : Nat} {digits : Text} (hne : digits ≠ [])
    (h : ∀ c ∈ digits, isDigit c = true) :
    read limit digits =
      if limit < (significant digits).length then .tooLong else .value (numeralValue digits) := by
  rw [read, looksNumeric_of_isDigit hne h]
  rfl

theorem lt_of_read {limit n : Nat} {word : Text} (h : read limit word = .value n) :
    n < natPow 10 limit := by
  rw [read] at h
  split at h
  · cases h
  · split at h
    · cases h
    · rename_i hlength
      cases h
      exact numeralValue_lt_of_length (Nat.le_of_not_lt hlength)

/-- A number that was read is read again from its decimal text. -/
theorem read_decimalText {limit n : Nat} (hlimit : 0 < limit) (hn : n < natPow 10 limit) :
    read limit (decimalText n) = .value n := by
  have hlength := length_significant_decimalText_le hlimit hn
  rw [read_of_isDigit (decimalText_ne_nil n) fun _ => isDigit_of_mem_decimalText,
    if_neg (Nat.not_lt.2 hlength), numeralValue_decimalText]

end Numeral

end DiceNotation
