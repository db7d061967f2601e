import DiceNotation.Request.Value
import DiceNotation.Proofs.Text.Numeral

/-!
# Slots

A slot is spelled out as a name before a formula is read (`spellSlots_slotName`). Different slots
have different names, and so the scope of some values gives to each slot the number of its own value
(`Value.value?_scope`).
-/

namespace DiceNotation

variable {text : Text}

/-- The name that a slot is spelled out as. -/
def slotIdentifier (position : Nat) : Text :=
  slotWord ++ decimalText position

theorem slotIdentifier_inj {i j : Nat} (h : slotIdentifier i = slotIdentifier j) : i = j :=
  decimalText_inj (List.append_cancel_left h)

/-- Only marks of slots are spelled out. -/
theorem spellSlots_cons {c : Char} (hc : c ≠ '$') (text : Text) :
    spellSlots (c :: text) = c :: spellSlots text := by
  rw [spellSlots.eq_3]
  rintro c' rest rfl
  exact absurd rfl hc

theorem spellSlots_append (h : '$' ∉ text) (tail : Text) :
    spellSlots (text ++ tail) = text ++ spellSlots tail := by
  induction text with
  | nil => rfl
  | cons c text ih =>
    have hc : c ≠ '$' := (List.ne_of_not_mem_cons h).symm
    rw [List.cons_append, spellSlots_cons hc, ih (List.not_mem_of_not_mem_cons h),
      List.cons_append]

theorem spellSlots_eq_self (h : '$' ∉ text) : spellSlots text = text := by
  have happend := spellSlots_append h []
  rwa [List.append_nil, spellSlots, List.append_nil] at happend

theorem mark_notMem_decimalText (n : Nat) : '$' ∉ decimalText n := by
  intro h
  exact absurd (isDigit_of_mem_decimalText h) (by decide)

theorem spellSlots_slotName_append (position : Nat) (tail : Text) :
    spellSlots (slotName position ++ tail) = slotIdentifier position ++ spellSlots tail := by
  obtain ⟨c, digits, hdigits⟩ := List.exists_cons_of_ne_nil (decimalText_ne_nil position)
  have hc : isDigit c = true :=
    isDigit_of_mem_decimalText (hdigits ▸ List.mem_cons_self : c ∈ decimalText position)
  have hrest : spellSlots (c :: (digits ++ tail)) = c :: digits ++ spellSlots tail := by
    rw [← List.cons_append, ← hdigits]
    exact spellSlots_append (mark_notMem_decimalText position) tail
  rw [slotName, slotIdentifier, hdigits, List.cons_append, List.cons_append, spellSlots, if_pos hc,
    hrest, List.append_assoc]

theorem spellSlots_slotName (position : Nat) :
    spellSlots (slotName position) = slotIdentifier position := by
  have h := spellSlots_slotName_append position []
  rwa [List.append_nil, spellSlots, List.append_nil] at h

namespace Value

theorem bindings_scope (values : List Value) :
    (scope values).bindings = (values.zipIdx.map fun (value, position) =>
      (slotIdentifier position, value.quantity)).reverse := by
  rw [scope, Scope.ofList, slots, List.map_map, List.map_map]
  refine congrArg List.reverse (List.map_congr_left fun member _ => ?_)
  exact congrArg (·, member.1.quantity) (spellSlots_slotName member.2)

theorem mem_bindings_scope {values : List Value} {binding : Text × Quantity} :
    binding ∈ (scope values).bindings ↔ ∃ position value, values[position]? = some value ∧
      binding = (slotIdentifier position, value.quantity) := by
  rw [bindings_scope, List.mem_reverse, List.mem_map]
  constructor
  · rintro ⟨⟨value, position⟩, hmem, rfl⟩
    exact ⟨position, value, List.mem_zipIdx_iff_getElem?.1 hmem, rfl⟩
  · rintro ⟨position, value, hvalue, rfl⟩
    exact ⟨(value, position), List.mem_zipIdx_iff_getElem?.2 hvalue, rfl⟩

/-- Every slot has the number of the value at its position. -/
theorem value?_scope (values : List Value) (position : Nat) :
    (scope values).value? (slotIdentifier position) = values[position]?.map quantity := by
  rw [Scope.value?]
  cases hfind : (scope values).bindings.find? fun binding =>
      binding.1 == slotIdentifier position with
  | none =>
    rw [List.find?_eq_none] at hfind
    cases hvalue : values[position]? with
    | none => rfl
    | some value =>
      have hmem := mem_bindings_scope.2 ⟨position, value, hvalue, rfl⟩
      exact absurd (beq_self_eq_true _) (hfind _ hmem)
  | some binding =>
    obtain ⟨i, value, hvalue, rfl⟩ := mem_bindings_scope.1 (List.mem_of_find?_eq_some hfind)
    have hname := List.find?_some hfind
    obtain rfl : i = position := slotIdentifier_inj (eq_of_beq hname)
    rw [hvalue]
    rfl

end Value

end DiceNotation
