import ParticipantTrust.Proofs.Decimal.Rounding
import ParticipantTrust.Proofs.Registry.Invalidation

namespace ParticipantTrust

namespace Rounding

theorem down_apply_nonneg_iff (x : ℚ) : 0 ≤ down.apply x ↔ -1 < x := by
  simp only [apply]
  split
  · rename_i hx
    exact iff_of_true (Int.floor_nonneg.mpr hx) (by linarith)
  · rw [← Int.sub_one_lt_iff, Int.lt_ceil]
    push_cast
    rfl

-- Below the next whole number after `b`, what is cut off at the point is at most `b`.
theorem down_apply_le_iff (x b : ℚ) (hb : 0 ≤ b) : (down.apply x : ℚ) ≤ b ↔ x < ⌊b⌋ + 1 := by
  have hfloor : 0 ≤ ⌊b⌋ := Int.floor_nonneg.mpr hb
  rw [← Int.le_floor]
  simp only [apply]
  split
  · rw [← Int.lt_add_one_iff, Int.floor_lt]
    push_cast
    rfl
  · rename_i hx
    have hneg : x < 0 := not_le.mp hx
    have hceil : ⌈x⌉ ≤ 0 := Int.ceil_le.mpr (by simpa using hneg.le)
    have hcast : (0 : ℚ) ≤ ⌊b⌋ := by exact_mod_cast hfloor
    exact iff_of_true (hceil.trans hfloor) (by linarith)

end Rounding

namespace Collateral

theorem lookup_cons_eq (address name : String) (amount : Decimal)
    (balances : List (String × Decimal)) :
    ((name, amount) :: balances).lookup address =
      if address = name then some amount else balances.lookup address := by
  rw [List.lookup_cons]
  by_cases h : address = name
  · simp [h]
  · rw [beq_false_of_ne h, if_neg h]

theorem lookup_setBalance (address other : String) (amount : Decimal)
    (balances : List (String × Decimal)) :
    (setBalance address amount balances).lookup other =
      if other = address then some amount else balances.lookup other := by
  induction balances with
  | nil => exact lookup_cons_eq other address amount []
  | cons entry balances ih =>
      obtain ⟨name, old⟩ := entry
      simp only [setBalance]
      by_cases hname : name = address
      · subst hname
        simp only [if_pos, lookup_cons_eq]
        split <;> rfl
      · simp only [if_neg hname, lookup_cons_eq, ih]
        by_cases hother : other = name
        · subst hother
          simp [hname]
        · simp [hother]

-- What is taken from a balance by a slash of `fraction`.
def taken (balance fraction : Decimal) : Decimal := (balance * fraction).roundWith .down 0

theorem toRat_taken (balance fraction : Decimal) :
    (taken balance fraction).toRat = (Rounding.down.apply (balance.toRat * fraction.toRat) : ℤ) := by
  rw [taken, Decimal.toRat_roundWith, Decimal.toRat_mul, Rounding.atScale]
  simp

variable (c : Collateral) (address : String)

theorem balance?_deposit (amount : Decimal) (other : String) :
    (c.deposit address amount).balance? other =
      if other = address then some (c.balance address + amount) else c.balance? other :=
  lookup_setBalance address other _ c.balances

theorem toRat_balance_deposit (amount : Decimal) (other : String) :
    ((c.deposit address amount).balance other).toRat =
      (c.balance other).toRat + if other = address then amount.toRat else 0 := by
  rw [balance, balance?_deposit]
  split
  · rename_i h
    rw [Option.getD_some, Decimal.toRat_add, h]
  · rw [add_zero, balance]

theorem slash_of_none (fraction : Decimal) (h : c.balance? address = none) :
    c.slash address fraction = c := by
  simp only [slash, h]

theorem slashes_slash_of_some (fraction : Decimal) {balance : Decimal}
    (h : c.balance? address = some balance) :
    (c.slash address fraction).slashes = c.slashes ++ [(address, taken balance fraction)] := by
  simp only [slash, h, taken]

theorem balance?_slash_of_some (fraction : Decimal) {balance : Decimal}
    (h : c.balance? address = some balance) (other : String) :
    (c.slash address fraction).balance? other =
      if other = address then some (balance - taken balance fraction) else c.balance? other := by
  simp only [slash, h, taken]
  exact lookup_setBalance address other _ c.balances

-- Without collateral a balance of zero is taken from in vain.
theorem toRat_balance_slash (fraction : Decimal) (other : String) :
    ((c.slash address fraction).balance other).toRat =
      (c.balance other).toRat -
        if other = address then (taken (c.balance address) fraction).toRat else 0 := by
  cases h : c.balance? address with
  | none =>
      have hzero : c.balance address = Decimal.zero := by rw [balance, h, Option.getD_none]
      have htaken : (taken Decimal.zero fraction).toRat = 0 := by
        rw [toRat_taken, Decimal.toRat_zero, zero_mul, Rounding.apply_zero, Int.cast_zero]
      rw [slash_of_none c address fraction h, hzero, htaken, ite_self, sub_zero]
  | some held =>
      have hheld : c.balance address = held := by rw [balance, h, Option.getD_some]
      rw [balance, balance?_slash_of_some c address fraction h, hheld]
      split
      · rename_i hother
        rw [Option.getD_some, Decimal.toRat_sub, hother, hheld]
      · rw [sub_zero, balance]

end Collateral

namespace Registry

-- A slash is due where a fraction is set, unless the epoch in effect has seen one.
def SlashDue (r : Registry) (fraction : Option Decimal) (epoch : Option UInt64)
    (address : String) : Prop :=
  fraction.isSome = true ∧ ∀ e, epoch = some e → r.alreadySlashed e address = false

theorem slashOnce_collateral (r : Registry) (fraction : Option Decimal) (epoch : Option UInt64)
    (address : String) :
    (∃ share, fraction = some share ∧ r.SlashDue fraction epoch address ∧
      (r.slashOnce fraction epoch address).collateral = r.collateral.slash address share) ∨
    (¬r.SlashDue fraction epoch address ∧
      (r.slashOnce fraction epoch address).collateral = r.collateral) := by
  cases fraction with
  | none => exact .inr ⟨fun h => Bool.false_ne_true h.1, rfl⟩
  | some share =>
      cases epoch with
      | none => exact .inl ⟨share, rfl, ⟨rfl, fun e h => nomatch h⟩, rfl⟩
      | some epoch =>
          simp only [slashOnce]
          by_cases hslashed : r.alreadySlashed epoch address = true
          · rw [if_pos hslashed]
            exact .inr ⟨fun h => absurd (h.2 epoch rfl) (by simp [hslashed]), rfl⟩
          · rw [if_neg hslashed]
            refine .inl ⟨share, rfl, ⟨rfl, ?_⟩, ?_⟩
            · intro e he
              cases he
              exact Bool.eq_false_iff.mpr hslashed
            · unfold markSlashed slash
              split <;> rfl

theorem invalidated_collateral (r : Registry) (params : Params) (block : Block) (reason : Reason)
    (address : String) :
    (r.invalidated params block reason address).collateral =
      (r.slashOnce params.collateral.slashFraction block.effectiveEpoch address).collateral := by
  obtain ⟨groups, -, heq⟩ := r.invalidated_eq params block reason address
  rw [heq]

-- An update slashes when it moves to `invalid` with a slash due.
def Slashing (r : Registry) (p : Participant) (params : Params) (previous : EpochStats)
    (block : Block) : Prop :=
  p.status.isSticky = false ∧ (p.verdict params previous).status = .invalid ∧
    r.SlashDue params.collateral.slashFraction block.effectiveEpoch p.address

theorem update_collateral (r : Registry) (p : Participant) (params : Params)
    (previous : EpochStats) (block : Block) :
    let after := ((p.update params services previous block).run r).2
    (∃ fraction, params.collateral.slashFraction = some fraction ∧
      r.Slashing p params previous block ∧
      after.collateral = r.collateral.slash p.address fraction) ∨
    (¬r.Slashing p params previous block ∧ after.collateral = r.collateral) := by
  intro after
  by_cases hmove : p.status.isSticky = false ∧ (p.verdict params previous).status = .invalid
  · obtain ⟨hsticky, hinvalid⟩ := hmove
    have hafter : after = r.invalidated params block (p.verdict params previous).reason
        p.address := by
      simp only [after]
      rw [p.update_of_invalid params services previous block r hsticky hinvalid]
      exact invalidate_run _ _ _ _ _
    rw [hafter, invalidated_collateral]
    rcases r.slashOnce_collateral params.collateral.slashFraction block.effectiveEpoch p.address
      with ⟨fraction, hfraction, hdue, hcollateral⟩ | ⟨hdue, hcollateral⟩
    · exact .inl ⟨fraction, hfraction, ⟨hsticky, hinvalid, hdue⟩, hcollateral⟩
    · exact .inr ⟨fun h => hdue h.2.2, hcollateral⟩
  · refine .inr ⟨fun h => hmove ⟨h.1, h.2.1⟩, ?_⟩
    have hafter : after = r := (p.update_of_spared params services previous block r hmove).2
    rw [hafter]

end Registry

end ParticipantTrust
