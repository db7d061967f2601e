import DiceNotation.Proofs.Number.Rounding

/-!
# Arithmetic within double precision

No operation leaves double precision: what comes out is an infinity, no number at all, or a finite
value that is representable. Nearly always this is so because the result has been rounded, whatever
the operands are. Only changes of sign, and remainders by an infinity, hand an operand on.
-/

namespace DiceNotation

namespace Double

variable {x : Double}

/-! ## Rounded results -/

theorem isRepresentable_ofScaled (negative : Bool) (m : Nat) (e : Int) :
    (ofScaled negative m e).IsRepresentable :=
  isRepresentable_ofRatio (shiftLeft_pos Nat.one_pos _)

theorem isRepresentable_ofInt (n : Int) : (ofInt n).IsRepresentable :=
  isRepresentable_ofRatio Nat.one_pos

theorem isRepresentable_ofQuotient (a : Int) {b : Int} (hb : b ≠ 0) :
    (ofQuotient a b).IsRepresentable :=
  isRepresentable_ofRatio (Int.natAbs_pos.2 hb)

theorem isRepresentable_add (x y : Double) : (x.add y).IsRepresentable := by
  rw [add.eq_def]
  split
  · trivial
  · trivial
  · split <;> trivial
  · trivial
  · trivial
  · dsimp only
    split
    · exact isRepresentable_signedZero
    · exact isRepresentable_ofScaled _ _ _

theorem isRepresentable_mul (x y : Double) : (x.mul y).IsRepresentable := by
  rw [mul.eq_def]
  split
  · trivial
  · trivial
  · trivial
  · split <;> trivial
  · split <;> trivial
  · exact isRepresentable_ofScaled _ _ _

theorem isRepresentable_div (x y : Double) : (x.div y).IsRepresentable := by
  rw [div.eq_def]
  split
  · trivial
  · trivial
  · trivial
  · trivial
  · exact isRepresentable_signedZero
  · split
    · split <;> trivial
    · rename_i hn
      exact isRepresentable_ofRatio (shiftLeft_pos (Nat.pos_of_ne_zero hn) _)

theorem isRepresentable_floor (x : Double) : x.floor.IsRepresentable := by
  cases x with
  | nan => trivial
  | infinite negative => trivial
  | finite negative m e =>
    simp only [floor]
    split
    · exact isRepresentable_signedZero
    · exact isRepresentable_ofInt _

theorem isRepresentable_floorDiv (x y : Double) : (x.floorDiv y).IsRepresentable := by
  unfold floorDiv
  extract_lets rest quotient corrected whole
  split
  · exact isRepresentable_signedZero
  · split
    · exact isRepresentable_add _ _
    · exact isRepresentable_floor _

/-! ## Operands handed on -/

theorem IsRepresentable.neg (h : x.IsRepresentable) : x.neg.IsRepresentable := by
  cases x <;> exact h

theorem IsRepresentable.abs (h : x.IsRepresentable) : x.abs.IsRepresentable := by
  cases x <;> exact h

/-- The remainder by an infinity is the dividend. -/
theorem IsRepresentable.truncatedRem (h : x.IsRepresentable) (y : Double) :
    (x.truncatedRem y).IsRepresentable := by
  rw [Double.truncatedRem.eq_def]
  split
  · trivial
  · trivial
  · trivial
  · exact h
  · split
    · trivial
    · exact isRepresentable_ofScaled _ _ _

theorem IsRepresentable.floorRem (h : x.IsRepresentable) (y : Double) :
    (x.floorRem y).IsRepresentable := by
  simp only [Double.floorRem]
  split
  · exact isRepresentable_signedZero
  · split
    · exact isRepresentable_add _ _
    · exact h.truncatedRem y

/-! ## The machine's functions -/

/-- Every bit pattern is that of a value of double precision. -/
theorem isRepresentable_ofBits (bits : UInt64) : (ofBits bits).IsRepresentable := by
  have hfraction : bits.toNat % leadingBit < leadingBit := Nat.mod_lt _ (by decide)
  have hlow : minExponent = -1074 := rfl
  have hhigh : maxExponent = 971 := rfl
  simp only [ofBits]
  split
  · split <;> trivial
  · split
    · exact ⟨by omega, by decide, by decide⟩
    · exact ⟨by omega, by omega, by omega⟩

theorem isRepresentable_viaFloat₂ (f : Float → Float → Float) (x y : Double) :
    (viaFloat₂ f x y).IsRepresentable :=
  isRepresentable_ofBits _

end Double

end DiceNotation
