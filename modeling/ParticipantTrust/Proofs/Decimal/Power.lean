import ParticipantTrust.Proofs.Decimal.Rounding
import ParticipantTrust.Decimal.Power
import Mathlib.Data.Nat.EvenOddRec

namespace ParticipantTrust.Decimal

section Loop

variable (trim : Decimal → Decimal)

theorem powLoop_zero (result square : Decimal) : powLoop trim result square 0 = result := by
  rw [powLoop, if_pos rfl]

-- One bit of the exponent is consumed at each turn, the lowest first.
theorem powLoop_two_mul (result square : Decimal) (k : Nat) :
    powLoop trim result square (2 * k) = powLoop trim result (trim (square * square)) k := by
  rw [powLoop]
  split
  · rename_i hk
    rw [show k = 0 by omega, powLoop_zero]
  · rename_i hk
    rw [if_neg (by omega), if_neg (by omega), show 2 * k / 2 = k by omega]

theorem powLoop_two_mul_add_one (result square : Decimal) (k : Nat) :
    powLoop trim result square (2 * k + 1) =
      powLoop trim (trim (result * square)) (trim (square * square)) k := by
  rw [powLoop, if_neg (by omega), if_pos (show (2 * k + 1) % 2 = 1 by omega),
    show (2 * k + 1) / 2 = k by omega]
  split
  · rename_i hk
    rw [hk, powLoop_zero]
  · rfl

-- What a rounding of the products has to satisfy: it only looks at the number, is monotone and keeps
-- zero and its own results.
structure Trims (f : ℚ → ℚ) : Prop where
  toRat_trim : ∀ v, (trim v).toRat = f v.toRat
  mono : Monotone f
  zero : f 0 = 0
  idem : ∀ x, f (f x) = f x

variable {trim} {f : ℚ → ℚ}

theorem Trims.nonneg (ht : Trims trim f) {v : Decimal} (hv : 0 ≤ v.toRat) : 0 ≤ (trim v).toRat := by
  rw [ht.toRat_trim, ← ht.zero]
  exact ht.mono hv

theorem Trims.le (ht : Trims trim f) {v w : Decimal} (h : v.toRat ≤ w.toRat) :
    (trim v).toRat ≤ (trim w).toRat := by
  rw [ht.toRat_trim, ht.toRat_trim]
  exact ht.mono h

theorem Trims.product_nonneg (ht : Trims trim f) {a b : Decimal} (ha : 0 ≤ a.toRat)
    (hb : 0 ≤ b.toRat) : 0 ≤ (trim (a * b)).toRat := by
  apply ht.nonneg
  rw [toRat_mul]
  exact mul_nonneg ha hb

theorem Trims.product_le (ht : Trims trim f) {a a' b b' : Decimal} (ha : a.toRat ≤ a'.toRat)
    (hb : b.toRat ≤ b'.toRat) (hb0 : 0 ≤ b.toRat) (ha0 : 0 ≤ a'.toRat) :
    (trim (a * b)).toRat ≤ (trim (a' * b')).toRat := by
  apply ht.le
  rw [toRat_mul, toRat_mul]
  exact mul_le_mul ha hb hb0 ha0

theorem powLoop_nonneg (ht : Trims trim f) (result square : Decimal) (n : Nat)
    (hr : 0 ≤ result.toRat) (hs : 0 ≤ square.toRat) :
    0 ≤ (powLoop trim result square n).toRat := by
  induction n using Nat.evenOddRec generalizing result square with
  | h0 =>
      rw [powLoop_zero]
      exact hr
  | h_even k ih =>
      rw [powLoop_two_mul]
      exact ih _ _ hr (ht.product_nonneg hs hs)
  | h_odd k ih =>
      rw [powLoop_two_mul_add_one]
      exact ih _ _ (ht.product_nonneg hr hs) (ht.product_nonneg hs hs)

-- For one exponent both chains take the same turns, so they stay ordered.
theorem powLoop_le_powLoop (ht : Trims trim f) (result result' square square' : Decimal) (n : Nat)
    (hr0 : 0 ≤ result.toRat) (hr : result.toRat ≤ result'.toRat)
    (hs0 : 0 ≤ square.toRat) (hs : square.toRat ≤ square'.toRat) :
    (powLoop trim result square n).toRat ≤ (powLoop trim result' square' n).toRat := by
  have hsquare {a b : Decimal} (ha : 0 ≤ a.toRat) (hab : a.toRat ≤ b.toRat) :
      (trim (a * a)).toRat ≤ (trim (b * b)).toRat :=
    ht.product_le hab hab ha (ha.trans hab)
  induction n using Nat.evenOddRec generalizing result result' square square' with
  | h0 =>
      rw [powLoop_zero, powLoop_zero]
      exact hr
  | h_even k ih =>
      rw [powLoop_two_mul, powLoop_two_mul]
      exact ih _ _ _ _ hr0 hr (ht.product_nonneg hs0 hs0) (hsquare hs0 hs)
  | h_odd k ih =>
      rw [powLoop_two_mul_add_one, powLoop_two_mul_add_one]
      exact ih _ _ _ _ (ht.product_nonneg hr0 hs0) (ht.product_le hr hs hs0 (hr0.trans hr))
        (ht.product_nonneg hs0 hs0) (hsquare hs0 hs)

-- The carry from `n` to `n + 1` clears the trailing ones of `n` and sets the bit after them. So the
-- loop for `n + 1` reaches that bit with nothing multiplied yet, and its square is compared with the
-- product of the squares below it, which the loop for `n` holds in `result`. Each rounded square is at
-- most that product times one more factor.
theorem powLoop_succ_le (ht : Trims trim f) (result square : Decimal) (n : Nat)
    (hs0 : 0 ≤ square.toRat) (hs : square.toRat ≤ result.toRat) (hf : f square.toRat ≤ result.toRat) :
    (powLoop trim one square (n + 1)).toRat ≤ (powLoop trim result square n).toRat := by
  have hfirst (s : Decimal) : (trim (one * s)).toRat = f s.toRat := by
    rw [ht.toRat_trim, toRat_mul, toRat_one, one_mul]
  induction n using Nat.evenOddRec generalizing result square with
  | h0 =>
      rw [powLoop_zero, show 0 + 1 = 2 * 0 + 1 from rfl, powLoop_two_mul_add_one, powLoop_zero, hfirst]
      exact hf
  | h_even k ih =>
      rw [powLoop_two_mul_add_one, powLoop_two_mul]
      have hone : 0 ≤ (trim (one * square)).toRat := by
        rw [hfirst, ← ht.zero]
        exact ht.mono hs0
      exact powLoop_le_powLoop ht _ _ _ _ k hone ((hfirst square).trans_le hf)
        (ht.product_nonneg hs0 hs0) le_rfl
  | h_odd k ih =>
      rw [show 2 * k + 1 + 1 = 2 * (k + 1) by ring, powLoop_two_mul, powLoop_two_mul_add_one]
      have hnext : (trim (square * square)).toRat ≤ (trim (result * square)).toRat :=
        ht.product_le hs le_rfl hs0 (hs0.trans hs)
      apply ih _ _ (ht.product_nonneg hs0 hs0) hnext
      rw [ht.toRat_trim, ht.idem, ← ht.toRat_trim]
      exact hnext

end Loop

theorem trims_round (scale : Int) :
    Trims (·.round scale) (Rounding.halfUp.atScale scale) where
  toRat_trim v := toRat_round v scale
  mono _ _ h := Rounding.halfUp.atScale_mono scale h
  zero := Rounding.halfUp.atScale_zero scale
  idem x := Rounding.halfUp.atScale_of_hasPlaces scale _ (Rounding.halfUp.atScale_hasPlaces scale x)

theorem powAt_antitone (base : Decimal) (scale : Int) (h0 : 0 ≤ base.toRat) (h1 : base.toRat ≤ 1) :
    Antitone fun n => (base.powAt n scale).toRat := by
  apply antitone_nat_of_succ_le
  intro n
  exact powLoop_succ_le (trims_round scale) one base n h0 (h1.trans_eq toRat_one.symm)
    ((Rounding.halfUp_atScale_le_one scale h1).trans_eq toRat_one.symm)

-- A rounded power falls with the exponent and grows with the base.
theorem toRat_pow_le (base base' : Decimal) (n m : Nat) (precision : Int) (h0 : 0 ≤ base.toRat)
    (h : base.toRat ≤ base'.toRat) (h1 : base'.toRat ≤ 1) (hn : n ≤ m) :
    (base.pow m precision).toRat ≤ (base'.pow n precision).toRat := by
  have hexponent := powAt_antitone base (precision + guardDigits) h0 (h.trans h1) hn
  have hbase := powLoop_le_powLoop (trims_round (precision + guardDigits)) one one base base' n
    (by simp) le_rfl h0 h
  rw [pow, pow, toRat_round, toRat_round]
  exact Rounding.halfUp.atScale_mono precision (hexponent.trans hbase)

theorem toRat_pow_nonneg (base : Decimal) (n : Nat) (precision : Int) (h0 : 0 ≤ base.toRat) :
    0 ≤ (base.pow n precision).toRat := by
  rw [pow, toRat_round]
  exact Rounding.halfUp.atScale_nonneg _ (powLoop_nonneg (trims_round _) one base n (by simp) h0)

theorem toRat_pow_le_one (base : Decimal) (n : Nat) (precision : Int) (h0 : 0 ≤ base.toRat)
    (h1 : base.toRat ≤ 1) : (base.pow n precision).toRat ≤ 1 := by
  apply (toRat_pow_le base base 0 n precision h0 le_rfl h1 (Nat.zero_le n)).trans
  rw [pow, powAt, powLoop_zero, toRat_round]
  exact Rounding.halfUp_atScale_le_one precision toRat_one.le

end ParticipantTrust.Decimal
