import ParticipantTrust.Proofs.Domain
import ParticipantTrust.Proofs.Registry.Collateral
import ParticipantTrust.Proofs.Registry.Epochs
import Mathlib.Data.List.Infix

namespace ParticipantTrust

namespace Collateral

-- The sum of the entries of an address.
def total (address : String) (entries : List (String × Decimal)) : ℚ :=
  ((entries.filter (·.1 = address)).map (·.2.toRat)).sum

@[simp] theorem total_nil (address : String) : total address [] = 0 := rfl

theorem total_cons (address name : String) (amount : Decimal) (entries : List (String × Decimal)) :
    total address ((name, amount) :: entries) =
      (if address = name then amount.toRat else 0) + total address entries := by
  unfold total
  by_cases h : name = address
  · subst h
    simp
  · simp [h, Ne.symm h]

theorem total_append (address : String) (entries others : List (String × Decimal)) :
    total address (entries ++ others) = total address entries + total address others := by
  simp [total]

-- What has been paid in by an address and is accounted for.
def held (c : Collateral) (address : String) : ℚ :=
  (c.balance address).toRat + total address c.slashes

theorem held_deposit (c : Collateral) (address : String) (amount : Decimal) (other : String) :
    (c.deposit address amount).held other =
      c.held other + total other [(address, amount)] := by
  have hslashes : (c.deposit address amount).slashes = c.slashes := rfl
  rw [held, held, toRat_balance_deposit, hslashes, total_cons, total_nil]
  ring

theorem held_slash (c : Collateral) (address : String) (fraction : Decimal) (other : String) :
    (c.slash address fraction).held other = c.held other := by
  cases h : c.balance? address with
  | none => rw [slash_of_none c address fraction h]
  | some balance =>
      have hbalance : c.balance address = balance := by
        rw [Collateral.balance, h, Option.getD_some]
      rw [held, held, toRat_balance_slash, slashes_slash_of_some c address fraction h, total_append,
        total_cons, total_nil, hbalance]
      ring

-- The whole units in a share of a balance.
def IsWholeShare (amount balance fraction : Decimal) : Prop :=
  ∃ n : ℤ, amount.toRat = n ∧ (n : ℚ) ≤ fraction.toRat * balance.toRat ∧
    fraction.toRat * balance.toRat < n + 1

theorem isWholeShare_taken (balance fraction : Decimal) (hbalance : 0 ≤ balance.toRat)
    (hfraction : 0 ≤ fraction.toRat) : IsWholeShare (taken balance fraction) balance fraction := by
  have hshare : 0 ≤ balance.toRat * fraction.toRat := mul_nonneg hbalance hfraction
  refine ⟨⌊balance.toRat * fraction.toRat⌋, ?_, ?_, ?_⟩
  · rw [toRat_taken, Rounding.apply, if_pos hshare]
  · rw [mul_comm fraction.toRat]
    exact Int.floor_le _
  · rw [mul_comm fraction.toRat]
    exact Int.lt_floor_add_one _

-- The entry that a slash appends, if any, is what it takes of the balance it meets.
theorem mem_slashes_slash (c : Collateral) (address : String) (fraction : Decimal)
    (hbalance : 0 ≤ (c.balance address).toRat) (hfraction : 0 ≤ fraction.toRat)
    {entry : String × Decimal} (hentry : entry ∈ (c.slash address fraction).slashes) :
    entry ∈ c.slashes ∨
      entry.1 = address ∧ (c.slash address fraction).slashes = c.slashes ++ [entry] ∧
        IsWholeShare entry.2 (c.balance address) fraction := by
  cases h : c.balance? address with
  | none =>
      rw [slash_of_none c address fraction h] at hentry
      exact .inl hentry
  | some balance =>
      have hslashes := slashes_slash_of_some c address fraction h
      have hheld : c.balance address = balance := by rw [Collateral.balance, h, Option.getD_some]
      rw [hslashes, List.mem_append, List.mem_singleton] at hentry
      rw [hheld] at hbalance ⊢
      rcases hentry with hbefore | rfl
      · exact .inl hbefore
      · exact .inr ⟨rfl, hslashes, isWholeShare_taken balance fraction hbalance hfraction⟩

theorem balance_slash_nonneg (c : Collateral) (address : String) (fraction : Decimal)
    (hfraction : Domain.closedUnit.Contains fraction) (h : ∀ other, 0 ≤ (c.balance other).toRat)
    (other : String) : 0 ≤ ((c.slash address fraction).balance other).toRat := by
  obtain ⟨hlow, hhigh⟩ := (Domain.closedUnit_contains_iff fraction).mp hfraction
  rw [toRat_balance_slash]
  split
  · rename_i hother
    subst hother
    obtain ⟨n, htaken, hn, -⟩ := isWholeShare_taken (c.balance other) fraction (h other) hlow
    have hshare := mul_le_mul_of_nonneg_right hhigh (h other)
    rw [htaken]
    linarith
  · rw [sub_zero]
    exact h other

end Collateral

def Call.deposit? : Call → Option (String × Decimal)
  | .deposit address amount => some (address, amount)
  | _ => none

-- The deposits among the calls of a run.
def deposits (calls : List Call) : List (String × Decimal) := calls.filterMap Call.deposit?

namespace World

-- The call slashes the collateral of an address by a fraction.
def Orders (w : World) (call : Call) (address : String) (fraction : Decimal) : Prop :=
  ∃ who p params previous block, call = .update who params previous block ∧
    w.participants[who]? = some p ∧ p.address = address ∧
    params.collateral.slashFraction = some fraction ∧
    w.registry.Slashing p params previous block

-- The ways that a call can change collateral.
theorem step_collateral (w : World) (call : Call) :
    (∃ address amount, call = .deposit address amount ∧
      (w.step call).registry.collateral = w.registry.collateral.deposit address amount) ∨
    (∃ address fraction, w.Orders call address fraction ∧ call.deposit? = none ∧
      (w.step call).registry.collateral = w.registry.collateral.slash address fraction) ∨
    (call.deposit? = none ∧ (w.step call).registry.collateral = w.registry.collateral) := by
  cases call with
  | update who params previous block =>
      cases hp : w.participants[who]? with
      | none =>
          simp only [step, hp]
          exact .inr (.inr ⟨rfl, trivial⟩)
      | some p =>
          rw [step_update w who params previous block p hp]
          rcases w.registry.update_collateral p params previous block with
            ⟨fraction, hfraction, hslashing, hafter⟩ | ⟨-, hafter⟩
          · exact .inr (.inl ⟨p.address, fraction,
              ⟨who, p, params, previous, block, rfl, hp, rfl, hfraction, hslashing⟩, rfl, hafter⟩)
          · exact .inr (.inr ⟨rfl, hafter⟩)
  | rewrite who p => exact .inr (.inr ⟨rfl, rfl⟩)
  | deposit address amount => exact .inl ⟨address, amount, rfl, rfl⟩
  | addMember group address => exact .inr (.inr ⟨rfl, rfl⟩)

theorem step_held (w : World) (call : Call) (address : String) :
    (w.step call).registry.collateral.held address =
      w.registry.collateral.held address + Collateral.total address call.deposit?.toList := by
  rcases w.step_collateral call with ⟨other, amount, rfl, hafter⟩ |
    ⟨other, fraction, -, hnone, hafter⟩ | ⟨hnone, hafter⟩
  · rw [hafter, Collateral.held_deposit]
    rfl
  · rw [hafter, Collateral.held_slash, hnone, Option.toList_none, Collateral.total_nil, add_zero]
  · rw [hafter, hnone, Option.toList_none, Collateral.total_nil, add_zero]

theorem run_held (w : World) (calls : List Call) (address : String) :
    (w.run calls).registry.collateral.held address =
      w.registry.collateral.held address + Collateral.total address (deposits calls) := by
  induction calls generalizing w with
  | nil => simp [run, deposits]
  | cons call calls ih =>
      have hdeposits : deposits (call :: calls) = call.deposit?.toList ++ deposits calls := by
        unfold deposits
        cases h : call.deposit? <;> simp [h]
      calc ((w.step call).run calls).registry.collateral.held address
          = (w.step call).registry.collateral.held address +
              Collateral.total address (deposits calls) := ih (w.step call)
        _ = w.registry.collateral.held address +
              Collateral.total address (deposits (call :: calls)) := by
            rw [step_held, hdeposits, Collateral.total_append, add_assoc]

theorem run_append (w : World) (calls more : List Call) :
    w.run (calls ++ more) = (w.run calls).run more := List.foldl_append

-- The run makes the call when it has come to the state `u`.
def Meets (w : World) (calls : List Call) (u : World) (call : Call) : Prop :=
  ∃ before after, calls = before ++ call :: after ∧ u = w.run before

theorem Meets.append {w u : World} {calls : List Call} {call : Call} (h : w.Meets calls u call)
    (more : List Call) : w.Meets (calls ++ more) u call := by
  obtain ⟨before, after, rfl, hu⟩ := h
  exact ⟨before, after ++ more, by simp, hu⟩

theorem Meets.mem {w u : World} {calls : List Call} {call : Call} (h : w.Meets calls u call) :
    call ∈ calls := by
  obtain ⟨before, after, rfl, -⟩ := h
  simp

theorem meets_last (w : World) (calls : List Call) (call : Call) :
    w.Meets (calls ++ [call]) (w.run calls) call := ⟨calls, [], rfl, rfl⟩

-- No deposit is below zero, and every fraction that a slash is ordered by is a share.
structure Fair (w : World) (calls : List Call) : Prop where
  deposits : ∀ address amount, .deposit address amount ∈ calls → Decimal.zero ≤ amount
  fractions : ∀ u call address fraction, w.Meets calls u call → u.Orders call address fraction →
    Domain.closedUnit.Contains fraction

theorem Fair.of_append {w : World} {calls more : List Call} (h : w.Fair (calls ++ more)) :
    w.Fair calls where
  deposits address amount hmem := h.deposits address amount (List.mem_append_left more hmem)
  fractions u call address fraction hmeets :=
    h.fractions u call address fraction (hmeets.append more)

-- The slash was taken by a call of the run, as the whole units in a share of the balance it met.
def Slashed (w : World) (calls : List Call) (entry : String × Decimal) : Prop :=
  ∃ u call fraction, w.Meets calls u call ∧ u.Orders call entry.1 fraction ∧
    (u.step call).registry.collateral.slashes = u.registry.collateral.slashes ++ [entry] ∧
    Collateral.IsWholeShare entry.2 (u.registry.collateral.balance entry.1) fraction

theorem Slashed.append {w : World} {calls : List Call} {entry : String × Decimal}
    (h : w.Slashed calls entry) (more : List Call) : w.Slashed (calls ++ more) entry := by
  obtain ⟨u, call, fraction, hmeets, htaken⟩ := h
  exact ⟨u, call, fraction, hmeets.append more, htaken⟩

-- What fair calls keep: no balance is below zero, and every slash has been taken.
structure Sound (w : World) (calls : List Call) : Prop where
  balances : ∀ address, 0 ≤ ((w.run calls).registry.collateral.balance address).toRat
  slashes : ∀ entry ∈ (w.run calls).registry.collateral.slashes, w.Slashed calls entry

theorem sound_step (w : World) (calls : List Call) (call : Call) (hfair : w.Fair (calls ++ [call]))
    (h : w.Sound calls) : w.Sound (calls ++ [call]) := by
  have hlast := w.meets_last calls call
  have hrun : w.run (calls ++ [call]) = (w.run calls).step call := w.run_append calls [call]
  rcases (w.run calls).step_collateral call with ⟨address, amount, hcall, hafter⟩ |
    ⟨address, fraction, horders, -, hafter⟩ | ⟨-, hafter⟩
  · have hamount : 0 ≤ amount.toRat := by
      have := (Decimal.le_iff _ _).mp (hfair.deposits address amount (by simp [hcall]))
      rwa [Decimal.toRat_zero] at this
    constructor
    · intro other
      rw [hrun, hafter, Collateral.toRat_balance_deposit]
      have hbalance := h.balances other
      split
      · exact add_nonneg hbalance hamount
      · rwa [add_zero]
    · intro entry hentry
      rw [hrun, hafter] at hentry
      exact (h.slashes entry hentry).append [call]
  · have hfraction := hfair.fractions _ call address fraction hlast horders
    have hlow := ((Domain.closedUnit_contains_iff fraction).mp hfraction).1
    constructor
    · rw [hrun, hafter]
      exact Collateral.balance_slash_nonneg _ address fraction hfraction h.balances
    · intro entry hentry
      rw [hrun, hafter] at hentry
      rcases Collateral.mem_slashes_slash _ address fraction (h.balances address) hlow hentry with
        hbefore | ⟨rfl, hslashes, hshare⟩
      · exact (h.slashes entry hbefore).append [call]
      · exact ⟨w.run calls, call, fraction, hlast, horders, by rw [hafter, hslashes], hshare⟩
  · constructor
    · rw [hrun, hafter]
      exact h.balances
    · intro entry hentry
      rw [hrun, hafter] at hentry
      exact (h.slashes entry hentry).append [call]

theorem sound_run (w : World) (calls : List Call) (hfair : w.Fair calls)
    (hempty : w.registry.collateral = .empty) : w.Sound calls := by
  induction calls using List.reverseRecOn with
  | nil =>
      constructor
      · intro address
        rw [run, List.foldl_nil, hempty]
        exact Decimal.toRat_zero.ge
      · intro entry hentry
        rw [run, List.foldl_nil, hempty] at hentry
        cases hentry
  | append_singleton calls call ih => exact w.sound_step calls call hfair (ih hfair.of_append)

-- From an empty ledger on, what an address has paid in is its balance and what has been slashed of it.
-- Fair calls take whole units of a share of the balance that they meet, and never more than there is.
theorem collateral_conserved_in_run (w : World) (calls : List Call)
    (hempty : w.registry.collateral = .empty) :
    (∀ address, Collateral.total address (deposits calls) =
      ((w.run calls).registry.collateral.balance address).toRat +
        Collateral.total address (w.run calls).registry.collateral.slashes) ∧
    (w.Fair calls →
      (∀ entry ∈ (w.run calls).registry.collateral.slashes, w.Slashed calls entry) ∧
      ∀ before, before <+: calls →
        ∀ address, 0 ≤ ((w.run before).registry.collateral.balance address).toRat) := by
  refine ⟨?_, ?_⟩
  · intro address
    have hnothing : Collateral.empty.held address = 0 := by
      rw [Collateral.held, show Collateral.empty.balance address = Decimal.zero from rfl,
        Decimal.toRat_zero, zero_add]
      rfl
    have hheld := w.run_held calls address
    rw [hempty, hnothing, zero_add] at hheld
    exact hheld.symm
  · intro hfair
    refine ⟨(w.sound_run calls hfair hempty).slashes, ?_⟩
    rintro before ⟨after, rfl⟩
    exact (w.sound_run before hfair.of_append hempty).balances

-- Between two deposits a fifth of a stake is slashed, in whole units.
theorem collateral_conserved_over_slash :
    let p : Participant := { Participant.new "gonka1alice" .active with streak := 20 }
    let w : World := ⟨[p], .empty⟩
    let calls := [Call.deposit "gonka1alice" (Decimal.ofInt 1003),
      .update 0 .genesis .zero ⟨120, some 7⟩, .deposit "gonka1alice" ⟨25, 1⟩]
    let after := (w.run calls).registry.collateral
    Collateral.total "gonka1alice" (deposits calls) =
        (after.balance "gonka1alice").toRat + Collateral.total "gonka1alice" after.slashes ∧
      after.balance "gonka1alice" = ⟨8055, 1⟩ ∧
      w.Slashed calls ("gonka1alice", Decimal.ofInt 200) := by
  intro p w calls after
  obtain ⟨htotal, hfair⟩ := w.collateral_conserved_in_run calls rfl
  refine ⟨htotal "gonka1alice", by decide +kernel, (hfair ⟨?_, ?_⟩).1 _ (by decide +kernel)⟩
  · intro address amount hmem
    simp only [calls, List.mem_cons, Call.deposit.injEq, List.not_mem_nil, or_false, reduceCtorEq,
      false_or] at hmem
    rcases hmem with ⟨-, rfl⟩ | ⟨-, rfl⟩
    · decide
    · decide
  · rintro u call address fraction hmeets ⟨who, q, params, previous, block, rfl, -, -, hset, -⟩
    have hmem := hmeets.mem
    simp only [calls, List.mem_cons, List.not_mem_nil, or_false, reduceCtorEq, false_or,
      Call.update.injEq] at hmem
    obtain ⟨-, rfl, -⟩ := hmem
    cases hset
    decide

end World

end ParticipantTrust
