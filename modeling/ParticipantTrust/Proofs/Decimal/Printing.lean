import ParticipantTrust.Proofs.Decimal.Text

namespace ParticipantTrust.Decimal

theorem toDigits_mul_tenTo {n : Nat} (hn : 0 < n) (k : Nat) :
    Nat.toDigits 10 (n * tenTo k) = Nat.toDigits 10 n ++ List.replicate k '0' := by
  induction k with
  | zero => rw [tenTo_eq, pow_zero, mul_one, List.replicate_zero, List.append_nil]
  | succ k ih =>
      have hpos : 0 < n * tenTo k := Nat.mul_pos hn (by rw [tenTo_eq]; positivity)
      have hnext : n * tenTo (k + 1) = 10 * (n * tenTo k) + 0 := by
        rw [tenTo_eq, tenTo_eq, pow_succ]
        ring
      rw [hnext, ← Nat.toDigits_append_toDigits (by omega) hpos (by omega), ih,
        Nat.toDigits_zero, List.append_assoc, ← List.replicate_succ']

-- Scales that are printed as zeros behind the digits.
def WrittenOut (scale : Int) : Prop := -15 ≤ scale ∧ scale ≤ 0

instance (scale : Int) : Decidable (WrittenOut scale) := by
  unfold WrittenOut; infer_instance

-- Written forms that no print tells apart if their numbers are the same.
def PrintsAlike (a b : Decimal) : Prop :=
  a.mantissa = 0 ∧ b.mantissa = 0 ∨ a.scale = b.scale ∨ WrittenOut a.scale ∧ WrittenOut b.scale

instance (a b : Decimal) : Decidable (a.PrintsAlike b) := by
  unfold PrintsAlike; infer_instance

theorem PrintsAlike.symm {a b : Decimal} (h : a.PrintsAlike b) : b.PrintsAlike a := by
  rcases h with ⟨ha, hb⟩ | hscale | ⟨ha, hb⟩
  · exact .inl ⟨hb, ha⟩
  · exact .inr (.inl hscale.symm)
  · exact .inr (.inr ⟨hb, ha⟩)

section Notations

variable {digits : List Char} (hdigits : IsDigits digits) (hne : digits ≠ [])

theorem length_positional (places : Nat) :
    (positional digits places).length = max (places + 1) digits.length + 1 := by
  unfold positional
  split <;> simp <;> omega

theorem point_mem_positional (places : Nat) : '.' ∈ positional digits places := by
  unfold positional
  split <;> simp

include hdigits in
-- Only a positive scale calls for a point.
theorem point_notMem_magnitudeText (scale : Int) (h : scale ≤ 0) :
    '.' ∉ magnitudeText digits scale := by
  have hpoint := hdigits.notMem (d := '.') rfl
  have hexponent := (isDigits_toDigits (-scale).toNat).notMem (d := '.') rfl
  have hzeros := (isDigits_replicate_zero (-scale).toNat).notMem (d := '.') rfl
  unfold magnitudeText
  rw [if_neg (by omega)]
  split <;> simp [hpoint, hexponent, hzeros]

include hdigits hne

-- More digits take more room, wherever the point is.
theorem length_magnitudeText_lt (scale : Int) (k : Nat) (hscale : 0 < scale) (hk : 0 < k) :
    (magnitudeText digits scale).length <
      (magnitudeText (digits ++ List.replicate k '0') (scale + k)).length := by
  have hlen := List.length_pos_of_ne_nil hne
  have hshift : scale + k - (digits ++ List.replicate k '0').length = scale - digits.length := by
    rw [List.length_append, List.length_replicate]
    omega
  have hexponent : scale + k + 1 - (digits ++ List.replicate k '0').length =
      scale + 1 - digits.length := by
    rw [List.length_append, List.length_replicate]
    omega
  have hpos : 0 < scale + k := by omega
  unfold magnitudeText
  rw [if_pos hscale, if_pos hpos, hshift, hexponent]
  by_cases htiny : 5 < scale - digits.length
  · obtain ⟨c, cs, rfl⟩ := List.exists_cons_of_ne_nil hne
    have hzeros : (cs ++ List.replicate k '0').isEmpty = false := by
      simp only [List.isEmpty_eq_false_iff, ne_eq, List.append_eq_nil_iff, List.replicate_eq_nil_iff]
      omega
    simp only [if_pos htiny, List.cons_append, List.drop_one, List.tail_cons, hzeros,
      Bool.false_eq_true, if_false]
    split <;> simp <;> omega
  · rw [if_neg htiny, if_neg htiny, length_positional, length_positional, List.length_append,
      List.length_replicate]
    omega

-- Zeros behind the digits, made up for by the scale, show unless the scales are written out.
theorem magnitudeText_shift_iff (scale : Int) (k : Nat) :
    magnitudeText digits scale = magnitudeText (digits ++ List.replicate k '0') (scale + k) ↔
      k = 0 ∨ WrittenOut scale ∧ WrittenOut (scale + k) := by
  constructor
  · intro h
    by_contra hother
    rw [not_or] at hother
    obtain ⟨hk, hscales⟩ := hother
    rcases lt_or_ge 0 scale with hpos | hneg
    · have hlt := length_magnitudeText_lt hdigits hne scale k hpos (by omega)
      rw [h] at hlt
      exact hlt.false
    · rcases lt_or_ge 0 (scale + k) with hpoint | hnone
      · have hmem : '.' ∈ magnitudeText (digits ++ List.replicate k '0') (scale + k) := by
          have hshort : ¬5 < scale + k - (digits ++ List.replicate k '0').length := by
            rw [List.length_append]
            simp
            omega
          unfold magnitudeText
          rw [if_pos hpoint, if_neg hshort]
          exact point_mem_positional _
        rw [← h] at hmem
        exact point_notMem_magnitudeText hdigits scale hneg hmem
      · have hlarge : scale < -15 := by
          unfold WrittenOut at hscales
          omega
        obtain ⟨j, rfl⟩ := Nat.exists_eq_succ_of_ne_zero hk
        unfold magnitudeText at h
        rw [if_neg (by omega), if_pos hlarge, if_neg (by omega)] at h
        -- an exponent mark on one side, a zero on the other
        split at h <;> simp [List.replicate_succ] at h
  · rintro (rfl | ⟨hscale, hshifted⟩)
    · simp
    · unfold WrittenOut at hscale hshifted
      have hsplit : (-scale).toNat = k + (-(scale + k)).toNat := by omega
      unfold magnitudeText
      rw [if_neg (by omega), if_neg (by omega), if_neg (by omega), if_neg (by omega), hsplit,
        ← List.replicate_append_replicate, List.append_assoc]

end Notations

theorem mantissa_eq_of_scale_le {a b : Decimal} (h : a.toRat = b.toRat) (hscale : a.scale ≤ b.scale) :
    b.mantissa = a.mantissa * tenTo (b.scale - a.scale).toNat := by
  have hshifted : a.mantissaAt b.scale = a.mantissa * tenTo (b.scale - a.scale).toNat := by
    unfold mantissaAt
    split
    · rename_i hzero
      rw [hzero, zero_mul]
    · rfl
  have hvalue : (⟨a.mantissaAt b.scale, b.scale⟩ : Decimal).toRat = b.toRat :=
    (toRat_mantissaAt a b.scale fun _ => hscale).trans h
  rw [toRat_mk, toRat, mul_eq_mul_right_iff, or_iff_left (ten_zpow_pos _).ne', Int.cast_inj] at hvalue
  rw [← hvalue, hshifted]

theorem text_eq_iff_of_scale_le {a b : Decimal} (h : a.toRat = b.toRat) (hscale : a.scale ≤ b.scale) :
    a.text = b.text ↔ a.PrintsAlike b := by
  have hmantissa := mantissa_eq_of_scale_le h hscale
  set k := (b.scale - a.scale).toNat with hk
  have htext : a.text = b.text ↔ a.textChars = b.textChars := String.ofList_inj
  have hten : 0 < (tenTo k : Int) := by
    rw [tenTo_eq]
    positivity
  rw [htext, PrintsAlike]
  by_cases hzero : a.mantissa = 0
  · have hzero' : b.mantissa = 0 := by rw [hmantissa, hzero, zero_mul]
    rw [textChars, textChars, if_pos hzero, if_pos hzero']
    exact iff_of_true rfl (.inl ⟨hzero, hzero'⟩)
  · have hzero' : b.mantissa ≠ 0 := hmantissa ▸ mul_ne_zero hzero hten.ne'
    have hsign : b.mantissa < 0 ↔ a.mantissa < 0 := by
      rw [hmantissa]
      exact ⟨fun hneg => neg_of_mul_neg_left hneg hten.le,
        fun hneg => mul_neg_of_neg_of_pos hneg hten⟩
    have hdigits : Nat.toDigits 10 b.mantissa.natAbs =
        Nat.toDigits 10 a.mantissa.natAbs ++ List.replicate k '0' := by
      rw [hmantissa, Int.natAbs_mul, Int.natAbs_natCast, toDigits_mul_tenTo (by omega)]
    have hscale' : b.scale = a.scale + k := by omega
    rw [textChars_eq a hzero, textChars_eq b hzero', decide_eq_decide.mpr hsign,
      List.append_cancel_left_eq, hdigits, hscale',
      magnitudeText_shift_iff (isDigits_toDigits _) Nat.toDigits_ne_nil]
    have hsame : a.scale = a.scale + k ↔ k = 0 := by omega
    have hnonzero : ¬(a.mantissa = 0 ∧ b.mantissa = 0) := fun hboth => hzero hboth.1
    rw [hsame, or_iff_right hnonzero]

-- Trailing zeros of a number are printed, and seen where the scales are not written out.
theorem text_eq_iff_printsAlike {a b : Decimal} (h : a.toRat = b.toRat) :
    a.text = b.text ↔ a.PrintsAlike b := by
  rcases le_total a.scale b.scale with hscale | hscale
  · exact text_eq_iff_of_scale_le h hscale
  · rw [eq_comm, text_eq_iff_of_scale_le h.symm hscale]
    exact ⟨PrintsAlike.symm, PrintsAlike.symm⟩

example : [⟨80, 2⟩, ⟨8, 1⟩, ⟨5, -2⟩, ⟨500, 0⟩].map text = ["0.80", "0.8", "500", "500"] := by decide

end ParticipantTrust.Decimal
