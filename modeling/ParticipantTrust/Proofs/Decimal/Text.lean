import ParticipantTrust.Decimal.Text
import ParticipantTrust.Proofs.Decimal.Value

namespace ParticipantTrust

@[simp] theorem ok_bind {ε α β : Type} (a : α) (f : α → Except ε β) : (Except.ok a >>= f) = f a := rfl

@[simp] theorem ok_map {ε α β : Type} (f : α → β) (a : α) :
    (Except.ok a : Except ε α).map f = .ok (f a) := rfl

namespace Decimal

def IsDigits (cs : List Char) : Prop := ∀ c ∈ cs, c.isDigit = true

theorem isDigits_toDigits (n : Nat) : IsDigits (Nat.toDigits 10 n) :=
  fun _ hc => Nat.isDigit_of_mem_toDigits (by omega) (by omega) hc

theorem exists_toDigits_cons (n : Nat) : ∃ c cs, Nat.toDigits 10 n = c :: cs ∧ c.isDigit = true := by
  obtain ⟨c, cs, hcs⟩ := List.exists_cons_of_ne_nil (Nat.toDigits_ne_nil (n := n) (b := 10))
  exact ⟨c, cs, hcs, isDigits_toDigits n c (hcs ▸ List.mem_cons_self ..)⟩

theorem isDigits_replicate_zero (k : Nat) : IsDigits (List.replicate k '0') := by
  intro c hc
  rw [List.eq_of_mem_replicate hc]
  rfl

theorem IsDigits.append {cs ds : List Char} (hcs : IsDigits cs) (hds : IsDigits ds) :
    IsDigits (cs ++ ds) :=
  List.forall_mem_append.mpr ⟨hcs, hds⟩

theorem ne_of_isDigit {c d : Char} (hc : c.isDigit = true) (hd : d.isDigit = false) : c ≠ d := by
  rintro rfl
  rw [hc] at hd
  cases hd

theorem IsDigits.ne {cs : List Char} (h : IsDigits cs) {c d : Char} (hc : c ∈ cs)
    (hd : d.isDigit = false) : c ≠ d := ne_of_isDigit (h c hc) hd

theorem IsDigits.notMem {cs : List Char} (h : IsDigits cs) {d : Char} (hd : d.isDigit = false) :
    d ∉ cs := fun hmem => h.ne hmem hd rfl

theorem isExponentMark_of_isDigit {c : Char} (h : c.isDigit = true) : isExponentMark c = false := by
  have he : c ≠ 'e' := ne_of_isDigit h rfl
  have hE : c ≠ 'E' := ne_of_isDigit h rfl
  simp [isExponentMark, he, hE]

theorem le_ofDigitChars (cs : List Char) (n : Nat) : n ≤ Nat.ofDigitChars 10 cs n := by
  rw [Nat.ofDigitChars_eq_ofDigitChars_zero]
  exact (Nat.le_mul_of_pos_left n (by positivity)).trans (Nat.le_add_right _ _)

theorem readDigits_eq {cs : List Char} (h : IsDigits cs) (n : Nat) :
    readDigits cs n = .ok (Nat.ofDigitChars 10 cs n) := by
  induction cs generalizing n with
  | nil => rfl
  | cons c cs ih =>
      obtain ⟨hc, hcs⟩ := List.forall_mem_cons.mp h
      have hblank : c ≠ '_' := h.ne (List.mem_cons_self ..) rfl
      rw [readDigits, if_neg hblank, if_pos hc, ih hcs, Nat.ofDigitChars_cons]

theorem readMagnitude_eq {cs : List Char} (h : IsDigits cs) (hne : cs ≠ []) :
    readMagnitude cs = .ok (Nat.ofDigitChars 10 cs 0) := by
  obtain ⟨c, cs, rfl⟩ := List.exists_cons_of_ne_nil hne
  have hplus : c ≠ '+' := h.ne (List.mem_cons_self ..) rfl
  have hblank : c ≠ '_' := h.ne (List.mem_cons_self ..) rfl
  rw [← readDigits_eq h]
  simp [readMagnitude, hplus, hblank]

-- The digits of an exponent only add to it, so one that fits as a whole fits at each digit.
theorem readExponentDigits_eq {cs : List Char} (h : IsDigits cs) {limit n : Nat}
    (tooFar : DecimalTextError) (hfits : Nat.ofDigitChars 10 cs n ≤ limit) :
    readExponentDigits limit tooFar cs n = .ok (Nat.ofDigitChars 10 cs n) := by
  induction cs generalizing n with
  | nil => rfl
  | cons c cs ih =>
      obtain ⟨hc, hcs⟩ := List.forall_mem_cons.mp h
      rw [Nat.ofDigitChars_cons] at hfits ⊢
      have hnext := (le_ofDigitChars cs _).trans hfits
      rw [readExponentDigits, if_pos hc, if_neg (by omega)]
      exact ih hcs hfits

theorem readExponent_minus (k : Nat) (hk : k ≤ exponentLimit) :
    readExponent ('-' :: Nat.toDigits 10 k) = .ok (-(k : Int)) := by
  have hread := readExponentDigits_eq (isDigits_toDigits k) .exponentTooSmall
    (hk.trans' Nat.ofDigitChars_ten_toDigits.le)
  obtain ⟨c, cs, hcs, -⟩ := exists_toDigits_cons k
  rw [Nat.ofDigitChars_ten_toDigits, hcs] at hread
  simp [hcs, readExponent, hread]

theorem readExponent_plus (k : Nat) (hk : k ≤ exponentLimit - 1) :
    readExponent ('+' :: Nat.toDigits 10 k) = .ok (k : Int) := by
  have hread := readExponentDigits_eq (isDigits_toDigits k) .exponentTooLarge
    (hk.trans' Nat.ofDigitChars_ten_toDigits.le)
  obtain ⟨c, cs, hcs, -⟩ := exists_toDigits_cons k
  rw [Nat.ofDigitChars_ten_toDigits, hcs] at hread
  simp [hcs, readExponent, hread]

def minusSign (negative : Bool) : List Char := if negative then ['-'] else []

def signed (negative : Bool) (n : Nat) : Int := if negative then -n else n

theorem readMantissa_eq (negative : Bool) {cs : List Char} (h : IsDigits cs) (hne : cs ≠ []) :
    readMantissa (minusSign negative ++ cs) = .ok (signed negative (Nat.ofDigitChars 10 cs 0)) := by
  have hread := readMagnitude_eq h hne
  obtain ⟨c, cs, rfl⟩ := List.exists_cons_of_ne_nil hne
  have hplus : c ≠ '+' := h.ne (List.mem_cons_self ..) rfl
  have hminus : c ≠ '-' := h.ne (List.mem_cons_self ..) rfl
  cases negative <;> simp [minusSign, signed, readMantissa, hplus, hminus, hread]

-- The places of a number behind their point, which is left out where there are none.
def afterPoint : List Char → List Char
  | [] => []
  | places => '.' :: places

theorem afterPoint_of_ne_nil {places : List Char} (h : places ≠ []) :
    afterPoint places = '.' :: places := by
  obtain ⟨c, cs, rfl⟩ := List.exists_cons_of_ne_nil h
  rfl

theorem splitPoint_eq {whole places : List Char} (hwhole : '.' ∉ whole) (hplaces : IsDigits places) :
    splitPoint (whole ++ afterPoint places) = (whole ++ places, places.length) := by
  have hno : ∀ c ∈ whole, decide (c ≠ '.') = true :=
    fun c hc => decide_eq_true fun h => hwhole (h ▸ hc)
  have hcount : places.countP (· ≠ '_') = places.length :=
    List.countP_eq_length.mpr fun c hc => decide_eq_true (hplaces.ne hc rfl)
  unfold splitPoint
  rw [List.takeWhile_append_of_pos hno, List.dropWhile_append_of_pos hno]
  cases places with
  | nil => simp [afterPoint]
  | cons c places => simpa [afterPoint] using hcount

-- What may stand behind the digits of a number, with the exponent that it gives.
inductive ExponentPart : List Char → Int → Prop
  | absent : ExponentPart [] 0
  | marked {mark : Char} {digits : List Char} {exponent : Int} (hmark : isExponentMark mark = true)
      (hread : readExponent digits = .ok exponent) : ExponentPart (mark :: digits) exponent

theorem readText_eq {base tail digits : List Char} {exponent mantissa : Int} {places : Nat}
    (hbase : ∀ c ∈ base, isExponentMark c = false) (hne : base ≠ [])
    (htail : ExponentPart tail exponent) (hsplit : splitPoint base = (digits, places))
    (hmantissa : readMantissa digits = .ok mantissa) (hscale : ScaleFits (places - exponent)) :
    readText (base ++ tail) = .ok ⟨mantissa, places - exponent⟩ := by
  have hno : ∀ c ∈ base, (! isExponentMark c) = true := fun c hc => by rw [hbase c hc]; rfl
  unfold readText
  rw [List.takeWhile_append_of_pos hno, List.dropWhile_append_of_pos hno]
  cases htail with
  | absent =>
      rw [sub_zero] at hscale ⊢
      simp [hne, hsplit, hscale, hmantissa]
  | marked hmark hread => simp [hmark, hread, hne, hsplit, hscale, hmantissa]

theorem isExponentMark_of_mem_base (negative : Bool) {whole places : List Char}
    (hwhole : IsDigits whole) (hplaces : IsDigits places) :
    ∀ c ∈ minusSign negative ++ whole ++ afterPoint places, isExponentMark c = false := by
  have hdigits : ∀ {cs : List Char}, IsDigits cs → ∀ c ∈ cs, isExponentMark c = false :=
    fun h c hc => isExponentMark_of_isDigit (h c hc)
  rw [List.forall_mem_append, List.forall_mem_append]
  refine ⟨⟨?_, hdigits hwhole⟩, ?_⟩
  · cases negative <;> simp [minusSign, isExponentMark]
  · cases places with
    | nil => simp [afterPoint]
    | cons c places => exact List.forall_mem_cons.mpr ⟨rfl, hdigits hplaces⟩

-- An unsigned text, with the number that its digits make and the scale that its places and its exponent
-- give to it.
inductive Denotes (cs : List Char) (n : Nat) (scale : Int) : Prop
  | intro (whole places tail : List Char) (exponent : Int) (hwhole : IsDigits whole)
      (hne : whole ≠ []) (hplaces : IsDigits places) (htail : ExponentPart tail exponent)
      (htext : cs = whole ++ afterPoint places ++ tail)
      (hvalue : Nat.ofDigitChars 10 (whole ++ places) 0 = n)
      (hscale : scale = places.length - exponent)

theorem Denotes.readText {cs : List Char} {n : Nat} {scale : Int} (h : Denotes cs n scale)
    (hfits : ScaleFits scale) (negative : Bool) :
    readText (minusSign negative ++ cs) = .ok ⟨signed negative n, scale⟩ := by
  obtain ⟨whole, places, tail, exponent, hwhole, hne, hplaces, htail, rfl, rfl, rfl⟩ := h
  have hbase := isExponentMark_of_mem_base negative hwhole hplaces
  have hsign : '.' ∉ minusSign negative ++ whole := by
    have := hwhole.notMem (d := '.') rfl
    cases negative <;> simpa [minusSign]
  have hsplit := splitPoint_eq hsign hplaces
  rw [List.append_assoc _ _ places] at hsplit
  have hmantissa := readMantissa_eq negative (hwhole.append hplaces) (by simp [hne])
  have hread := readText_eq hbase (by simp [hne]) htail hsplit hmantissa hfits
  simpa only [List.append_assoc] using hread

theorem scaleFits_iff (scale : Int) : ScaleFits scale ↔ -2 ^ 63 ≤ scale ∧ scale < 2 ^ 63 := by
  have hmin : Int64.minValue.toInt = -2 ^ 63 := by decide
  have hmax : Int64.maxValue.toInt = 2 ^ 63 - 1 := by decide
  rw [ScaleFits, hmin, hmax]
  omega

theorem exponentPart_minus (k : Nat) (hk : k ≤ 2 ^ 63) :
    ExponentPart ('E' :: '-' :: Nat.toDigits 10 k) (-(k : Int)) :=
  .marked rfl (readExponent_minus k (hk.trans (by decide)))

theorem exponentPart_plus (k : Nat) (hk : k ≤ 2 ^ 63) :
    ExponentPart ('e' :: '+' :: Nat.toDigits 10 k) (k : Int) :=
  .marked rfl (readExponent_plus k (hk.trans (by decide)))

section Notations

variable {digits : List Char} (hdigits : IsDigits digits) (hne : digits ≠ [])
include hdigits hne

theorem scientific_denotes (scale : Int) (hscale : ScaleFits scale) (htiny : digits.length < scale) :
    Denotes
      (digits.take 1 ++ afterPoint (digits.drop 1) ++
        'E' :: '-' :: Nat.toDigits 10 (scale + 1 - digits.length).toNat)
      (Nat.ofDigitChars 10 digits 0) scale := by
  rw [scaleFits_iff] at hscale
  have hlen := List.length_pos_of_ne_nil hne
  refine .intro (digits.take 1) (digits.drop 1) _ (-(scale + 1 - digits.length).toNat)
    (fun c hc => hdigits c (List.mem_of_mem_take hc)) (by simp [hne])
    (fun c hc => hdigits c (List.mem_of_mem_drop hc)) (exponentPart_minus _ (by omega)) rfl ?_ ?_
  · rw [List.take_append_drop]
  · rw [List.length_drop]
    omega

theorem positional_denotes (places : Nat) (hplaces : 0 < places) :
    Denotes (positional digits places) (Nat.ofDigitChars 10 digits 0) places := by
  unfold positional
  by_cases hshort : digits.length ≤ places
  · rw [if_pos hshort]
    refine .intro ['0'] (List.replicate (places - digits.length) '0' ++ digits) [] 0
      (isDigits_replicate_zero 1) (by simp) ((isDigits_replicate_zero _).append hdigits) .absent
      ?_ ?_ ?_
    · rw [afterPoint_of_ne_nil (by simp [hne])]
      simp
    · simp [Nat.ofDigitChars_cons, Nat.ofDigitChars_append]
    · rw [List.length_append, List.length_replicate]
      omega
  · rw [if_neg hshort]
    refine .intro (digits.take (digits.length - places)) (digits.drop (digits.length - places)) [] 0
      (fun c hc => hdigits c (List.mem_of_mem_take hc)) (by simp [hne]; omega)
      (fun c hc => hdigits c (List.mem_of_mem_drop hc)) .absent ?_ ?_ ?_
    · rw [afterPoint_of_ne_nil (by simp; omega), List.append_nil]
    · rw [List.take_append_drop]
    · rw [List.length_drop]
      omega

theorem raised_denotes (k : Nat) (hk : k ≤ 2 ^ 63) :
    Denotes (digits ++ 'e' :: '+' :: Nat.toDigits 10 k) (Nat.ofDigitChars 10 digits 0) (-k) := by
  refine .intro digits [] _ k hdigits hne (by simp [IsDigits]) (exponentPart_plus k hk) ?_ ?_ ?_
  · simp [afterPoint]
  · simp
  · simp

theorem appended_denotes (k : Nat) :
    Denotes (digits ++ List.replicate k '0') (Nat.ofDigitChars 10 digits 0 * tenTo k) 0 := by
  refine .intro (digits ++ List.replicate k '0') [] [] 0 (hdigits.append (isDigits_replicate_zero k))
    (by simp [hne]) (by simp [IsDigits]) .absent ?_ ?_ ?_
  · simp [afterPoint]
  · rw [List.append_nil, Nat.ofDigitChars_append, Nat.ofDigitChars_replicate_zero, tenTo_eq, mul_comm]
  · simp

end Notations

-- Every notation gives the digits of a number and its scale back, but for zeros that are appended in
-- place of a scale.
theorem magnitudeText_denotes (n : Nat) (scale : Int) (hscale : ScaleFits scale) :
    Denotes (magnitudeText (Nat.toDigits 10 n) scale) n scale ∨
      scale ≤ 0 ∧
        Denotes (magnitudeText (Nat.toDigits 10 n) scale) (n * tenTo (-scale).toNat) 0 := by
  have hdigits := isDigits_toDigits n
  have hne := Nat.toDigits_ne_nil (n := n) (b := 10)
  have hvalue := Nat.ofDigitChars_ten_toDigits (n := n)
  unfold magnitudeText
  -- Only these three facts about the digits of a number matter to its notations.
  generalize Nat.toDigits 10 n = digits at hdigits hvalue hne
  subst hvalue
  by_cases hpos : 0 < scale
  · rw [if_pos hpos]
    left
    by_cases htiny : 5 < scale - digits.length
    · rw [if_pos htiny]
      have h := scientific_denotes hdigits hne scale hscale (by omega)
      obtain ⟨c, cs, rfl⟩ := List.exists_cons_of_ne_nil hne
      cases cs with
      | nil => exact h
      | cons d cs => simpa [afterPoint] using h
    · rw [if_neg htiny]
      have h := positional_denotes hdigits hne scale.toNat (by omega)
      rwa [Int.toNat_of_nonneg hpos.le] at h
  · rw [if_neg hpos]
    by_cases hlarge : scale < -15
    · rw [if_pos hlarge]
      left
      have h := raised_denotes hdigits hne (-scale).toNat (by rw [scaleFits_iff] at hscale; omega)
      rwa [Int.toNat_of_nonneg (by omega), neg_neg] at h
    · rw [if_neg hlarge]
      exact .inr ⟨by omega, appended_denotes hdigits hne _⟩

theorem textChars_eq (v : Decimal) (h : v.mantissa ≠ 0) :
    v.textChars =
      minusSign (v.mantissa < 0) ++ magnitudeText (Nat.toDigits 10 v.mantissa.natAbs) v.scale := by
  rw [textChars, if_neg h]
  by_cases hneg : v.mantissa < 0 <;> simp [hneg, minusSign]

theorem signed_natAbs (m : Int) : signed (m < 0) m.natAbs = m := by
  by_cases hneg : m < 0
  · rw [decide_eq_true hneg]
    exact (Int.eq_neg_comm.mp (Int.ofNat_natAbs_of_nonpos hneg.le)).symm
  · rw [decide_eq_false hneg]
    exact Int.natAbs_of_nonneg (not_lt.mp hneg)

theorem signed_mul (negative : Bool) (n k : Nat) : signed negative (n * k) = signed negative n * k := by
  cases negative
  · exact Int.natCast_mul n k
  · change -((n * k : Nat) : Int) = -(n : Int) * k
    push_cast
    ring

-- A written number is read back, in its own written form or without its negative scale.
theorem ofText_text (v : Decimal) (hscale : ScaleFits v.scale) :
    ∃ w, ofText v.text = .ok w ∧ w.toRat = v.toRat := by
  unfold ofText text
  rw [String.toList_ofList]
  by_cases hzero : v.mantissa = 0
  · rw [textChars, if_pos hzero]
    exact ⟨zero, rfl, by rw [toRat_zero, (toRat_eq_zero_iff v).mpr hzero]⟩
  · rw [textChars_eq v hzero]
    rcases magnitudeText_denotes v.mantissa.natAbs v.scale hscale with h | ⟨hnonpos, h⟩
    · refine ⟨_, h.readText hscale _, ?_⟩
      rw [signed_natAbs]
    · refine ⟨_, h.readText (by decide) _, ?_⟩
      rw [← toRat_mantissaAt v 0 fun _ => hnonpos, mantissaAt, if_neg hzero, zero_sub, signed_mul,
        signed_natAbs]

example : [⟨-125, 4⟩, ⟨500, 30⟩, ⟨12, -16⟩, ⟨12, -2⟩].map text =
    ["-0.0125", "5.00E-28", "12e+16", "1200"] := by decide

end Decimal

end ParticipantTrust
