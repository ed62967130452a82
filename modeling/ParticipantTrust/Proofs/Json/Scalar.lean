import ParticipantTrust.Json.Codec
import ParticipantTrust.Proofs.Decimal.Text

namespace ParticipantTrust.Json

def Blanks (cs : List Char) : Prop := ∀ c ∈ cs, isBlank c = true

theorem skipBlanks_append {before : List Char} (h : Blanks before) (cs : List Char) :
    skipBlanks (before ++ cs) = skipBlanks cs :=
  List.dropWhile_append_of_pos h

theorem skipBlanks_cons {c : Char} (h : isBlank c = false) (cs : List Char) :
    skipBlanks (c :: cs) = c :: cs := by
  rw [skipBlanks, List.dropWhile_cons_of_neg (by simp [h])]

-- The code unit in the escape of a control character.
theorem codeUnit_hexDigit (n : Nat) (h : n < 32) :
    codeUnit '0' '0' (hexDigit (n / 16)) (hexDigit (n % 16)) = some n := by
  have hall : ∀ n : Fin 32, codeUnit '0' '0' (hexDigit (n / 16)) (hexDigit (n % 16)) = some n.val := by
    decide
  exact hall ⟨n, h⟩

theorem readStringBody_control {c : Char} (h : c.toNat < 32) (cs : List Char) :
    readStringBody
        ('\\' :: 'u' :: '0' :: '0' :: hexDigit (c.toNat / 16) :: hexDigit (c.toNat % 16) :: cs) =
      (readStringBody cs).map fun (s, rest) => (c :: s, rest) := by
  have htrail : isTrailUnit c.toNat = false := by
    simp only [isTrailUnit, Bool.and_eq_false_imp, decide_eq_true_eq, decide_eq_false_iff_not]
    omega
  have hlead : isLeadUnit c.toNat = false := by
    simp only [isLeadUnit, Bool.and_eq_false_imp, decide_eq_true_eq, decide_eq_false_iff_not]
    omega
  simp [readStringBody, codeUnit_hexDigit _ h, htrail, hlead, Char.ofNat_toNat]

theorem readStringBody_plain {c : Char} (hquote : c ≠ '"') (hslash : c ≠ '\\') (h : ¬c.toNat < 32)
    (cs : List Char) :
    readStringBody (c :: cs) = (readStringBody cs).map fun (s, rest) => (c :: s, rest) := by
  rw [readStringBody.eq_def]
  simp [hslash, h]

theorem readStringBody_escape (c : Char) (cs : List Char) :
    readStringBody (escape c ++ cs) = (readStringBody cs).map fun (s, rest) => (c :: s, rest) := by
  unfold escape
  split_ifs with hquote hslash hn hr ht hb hf hcontrol
  · subst hquote; simp [readStringBody, letterEscape]
  · subst hslash; simp [readStringBody, letterEscape]
  · subst hn; simp [readStringBody, letterEscape]
  · subst hr; simp [readStringBody, letterEscape]
  · subst ht; simp [readStringBody, letterEscape]
  · subst hb; simp [readStringBody, letterEscape]
  · subst hf; simp [readStringBody, letterEscape]
  · exact readStringBody_control hcontrol cs
  · exact readStringBody_plain hquote hslash hcontrol cs

-- A written string ends at its own closing quote, whatever its characters are.
theorem readStringBody_flatMap (s rest : List Char) :
    readStringBody (s.flatMap escape ++ '"' :: rest) = .ok (s, rest) := by
  induction s with
  | nil => rfl
  | cons c s ih => rw [List.flatMap_cons, List.append_assoc, readStringBody_escape, ih, ok_map]

theorem quote_append (s : String) (rest : List Char) :
    quote s ++ rest = '"' :: (s.toList.flatMap escape ++ '"' :: rest) := by
  simp [quote]

-- Text that cannot be taken for a part of the number in front of it.
def EndsNumber (rest : List Char) : Prop :=
  ∀ c ∈ rest.head?, c.isDigit = false ∧ c ≠ '.' ∧ Decimal.isExponentMark c = false

theorem EndsNumber.of_blanks {before rest : List Char} (hbefore : Blanks before)
    (hrest : EndsNumber rest) : EndsNumber (before ++ rest) := by
  cases before with
  | nil => exact hrest
  | cons c cs =>
      have hc := hbefore c (List.mem_cons_self ..)
      intro d hd
      obtain rfl : c = d := Option.some.inj hd
      simp only [isBlank, Bool.or_eq_true, beq_iff_eq] at hc
      rcases hc with ((rfl | rfl) | rfl) | rfl <;> decide

theorem endsNumber_cons {c : Char} (rest : List Char) (hdigit : c.isDigit = false) (hpoint : c ≠ '.')
    (hmark : Decimal.isExponentMark c = false) : EndsNumber (c :: rest) := by
  intro d hd
  obtain rfl : c = d := Option.some.inj hd
  exact ⟨hdigit, hpoint, hmark⟩

theorem takeWhile_isDigit {digits rest : List Char} (hdigits : Decimal.IsDigits digits)
    (hrest : EndsNumber rest) : (digits ++ rest).takeWhile Char.isDigit = digits := by
  rw [List.takeWhile_append_of_pos hdigits]
  cases rest with
  | nil => simp
  | cons c cs => simp [(hrest c rfl).1]

theorem dropWhile_isDigit {digits rest : List Char} (hdigits : Decimal.IsDigits digits)
    (hrest : EndsNumber rest) : (digits ++ rest).dropWhile Char.isDigit = rest := by
  rw [List.dropWhile_append_of_pos hdigits]
  cases rest with
  | nil => rfl
  | cons c cs => simp [(hrest c rfl).1]

theorem readDigitRun_append {digits rest : List Char} (atEnd : ReadError)
    (hdigits : Decimal.IsDigits digits) (hne : digits ≠ []) (hrest : EndsNumber rest) :
    readDigitRun atEnd (digits ++ rest) = .ok (digits, rest) := by
  obtain ⟨c, cs, rfl⟩ := List.exists_cons_of_ne_nil hne
  obtain ⟨hc, hcs⟩ := List.forall_mem_cons.mp hdigits
  rw [List.cons_append, readDigitRun, if_pos hc, takeWhile_isDigit hcs hrest,
    dropWhile_isDigit hcs hrest]

theorem head?_toDigits_ne_zero (n : Nat) (hn : 0 < n) : (Nat.toDigits 10 n).head? ≠ some '0' := by
  induction n using Nat.strong_induction_on with
  | _ n ih =>
      rw [Nat.toDigits_eq_if (by omega)]
      split
      · rename_i hlt
        intro hhead
        have hdigit := Nat.toNat_digitChar_sub_48_of_lt_ten hlt
        rw [Option.some.inj hhead] at hdigit
        exact hn.ne hdigit
      · rw [List.head?_append_of_ne_nil _ Nat.toDigits_ne_nil]
        exact ih (n / 10) (by omega) (by omega)

theorem readWhole_toDigits (atEnd : ReadError) (n : Nat) {rest : List Char} (hrest : EndsNumber rest) :
    readWhole atEnd (Nat.toDigits 10 n ++ rest) = .ok (Nat.toDigits 10 n, rest) := by
  have hlead : ¬((Nat.toDigits 10 n).head? = some '0' ∧ 1 < (Nat.toDigits 10 n).length) := by
    rintro ⟨hhead, hlen⟩
    rcases Nat.eq_zero_or_pos n with rfl | hpos
    · rw [Nat.toDigits_zero] at hlen
      exact lt_irrefl _ hlen
    · exact head?_toDigits_ne_zero n hpos hhead
  rw [readWhole, readDigitRun_append atEnd (Decimal.isDigits_toDigits n) Nat.toDigits_ne_nil hrest,
    ok_bind]
  simp only [if_neg hlead]
  rfl

theorem readSign_digits {cs : List Char} (hdigits : Decimal.IsDigits cs) (hne : cs ≠ [])
    (rest : List Char) : readSign (cs ++ rest) = (false, cs ++ rest) := by
  obtain ⟨c, cs, rfl⟩ := List.exists_cons_of_ne_nil hne
  have hminus : c ≠ '-' := hdigits.ne (List.mem_cons_self ..) rfl
  simp [readSign, hminus]

theorem EndsNumber.readFraction {rest : List Char} (h : EndsNumber rest) (atEnd : ReadError) :
    readFraction atEnd rest = .ok ([], rest) := by
  cases rest with
  | nil => rfl
  | cons c cs => simp [Json.readFraction, (h c rfl).2.1]

theorem EndsNumber.readExponentPart {rest : List Char} (h : EndsNumber rest) (atEnd : ReadError) :
    readExponentPart atEnd rest = .ok (none, rest) := by
  cases rest with
  | nil => rfl
  | cons c cs => simp [Json.readExponentPart, (h c rfl).2.2]

theorem readNumberText_toDigits (atEnd : ReadError) (n : Nat) {rest : List Char}
    (hrest : EndsNumber rest) :
    readNumberText atEnd (Nat.toDigits 10 n ++ rest) =
      .ok (⟨false, Nat.toDigits 10 n, [], none⟩, rest) := by
  simp only [readNumberText, readSign_digits (Decimal.isDigits_toDigits n) Nat.toDigits_ne_nil rest,
    readWhole_toDigits atEnd n hrest, hrest.readFraction, hrest.readExponentPart, ok_bind]
  rfl

theorem readNumber_toDigits (n : Nat) (hn : n < UInt64.size) {rest : List Char}
    (hrest : EndsNumber rest) :
    readNumber (Nat.toDigits 10 n ++ rest) = .ok (.integer n, rest) := by
  have hvalue : NumberText.value ⟨false, Nat.toDigits 10 n, [], none⟩ = some (.integer n) := by
    simp [NumberText.value, hn]
  simp only [readNumber, readNumberText_toDigits _ n hrest, ok_bind, hvalue]
  rfl

end ParticipantTrust.Json
