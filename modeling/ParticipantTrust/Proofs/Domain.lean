import ParticipantTrust.Params
import ParticipantTrust.Proofs.Decimal.Value

namespace ParticipantTrust

namespace Domain

theorem openUnit_contains_iff (v : Decimal) : openUnit.Contains v ↔ 0 < v.toRat ∧ v.toRat < 1 := by
  simp only [Contains, Decimal.lt_iff, Decimal.toRat_zero, Decimal.toRat_one]

theorem closedUnit_contains_iff (v : Decimal) :
    closedUnit.Contains v ↔ 0 ≤ v.toRat ∧ v.toRat ≤ 1 := by
  simp only [Contains, Decimal.le_iff, Decimal.toRat_zero, Decimal.toRat_one]

theorem positive_contains_iff (v : Decimal) : positive.Contains v ↔ 0 < v.toRat := by
  simp only [Contains, Decimal.lt_iff, Decimal.toRat_zero]

theorem closedUnit_contains_of_openUnit (v : Decimal) (h : openUnit.Contains v) :
    closedUnit.Contains v := by
  rw [openUnit_contains_iff] at h
  rw [closedUnit_contains_iff]
  exact ⟨h.1.le, h.2.le⟩

end Domain

namespace Bound

theorem check_eq_ok_iff (b : Bound) : b.check = .ok () ↔ b.Holds := by
  obtain ⟨name, value, domain⟩ := b
  cases value with
  | none => simp [check, Holds]
  | some v => simp [check, Holds]

-- The error of a check carries the parameter as it stands.
theorem check_eq_error_iff (b : Bound) (e : BoundsError) :
    b.check = .error e ↔ b = ⟨e.name, some e.value, e.domain⟩ ∧ ¬e.domain.Contains e.value := by
  obtain ⟨name, value, domain⟩ := b
  obtain ⟨name', value', domain'⟩ := e
  cases value with
  | none => simp [check]
  | some v =>
      by_cases h : domain.Contains v
      · have hcheck : check ⟨name, some v, domain⟩ = .ok () := if_pos h
        rw [hcheck]
        refine iff_of_false nofun ?_
        rintro ⟨⟨⟩, hnot⟩
        exact hnot h
      · have hcheck : check ⟨name, some v, domain⟩ = .error ⟨name, v, domain⟩ := if_neg h
        rw [hcheck]
        constructor
        · rintro ⟨⟩
          exact ⟨rfl, h⟩
        · rintro ⟨⟨⟩, -⟩
          rfl

theorem forM_check_cons (b : Bound) (bounds : List Bound) :
    (b :: bounds).forM check = b.check >>= fun _ => bounds.forM check := rfl

theorem forM_check_eq_ok_iff (bounds : List Bound) :
    bounds.forM check = .ok () ↔ ∀ b ∈ bounds, b.Holds := by
  induction bounds with
  | nil => simp [List.forM, pure, Except.pure]
  | cons b bounds ih =>
      rw [List.forall_mem_cons, ← ih, ← check_eq_ok_iff, forM_check_cons]
      cases b.check with
      | ok => simp [bind, Except.bind]
      | error e => simp [bind, Except.bind]

-- The checks stop at the first bound that does not hold.
theorem forM_check_eq_error_iff (bounds : List Bound) (e : BoundsError) :
    bounds.forM check = .error e ↔ ∃ before b after, bounds = before ++ b :: after ∧
      (∀ c ∈ before, c.Holds) ∧ b.check = .error e := by
  constructor
  · intro h
    induction bounds with
    | nil => cases h
    | cons b bounds ih =>
        rw [forM_check_cons] at h
        cases hb : b.check with
        | error e' =>
            rw [hb] at h
            exact ⟨[], b, bounds, rfl, nofun, hb.trans h⟩
        | ok =>
            rw [hb] at h
            obtain ⟨before, c, after, rfl, hbefore, hc⟩ := ih h
            have hholds := (check_eq_ok_iff b).mp hb
            exact ⟨b :: before, c, after, rfl, List.forall_mem_cons.mpr ⟨hholds, hbefore⟩, hc⟩
  · rintro ⟨before, b, after, rfl, hbefore, hb⟩
    induction before with
    | nil =>
        rw [List.nil_append, forM_check_cons, hb]
        rfl
    | cons c before ih =>
        obtain ⟨hc, hbefore⟩ := List.forall_mem_cons.mp hbefore
        rw [List.cons_append, forM_check_cons, (check_eq_ok_iff c).mpr hc]
        exact ih hbefore

end Bound

theorem ValidationParams.validate_eq_ok_iff (p : ValidationParams) :
    p.validate = .ok () ↔ ∀ b ∈ p.bounds, b.Holds := Bound.forM_check_eq_ok_iff p.bounds

-- Parameters are valid exactly when each of them that is set lies in its domain.
theorem Params.validate_eq_ok_iff (p : Params) :
    p.validate = .ok () ↔ ∀ b ∈ p.bounds, b.Holds := Bound.forM_check_eq_ok_iff p.bounds

-- Otherwise the error tells the first one that is set and lies outside.
theorem Params.validate_eq_error_iff (p : Params) (e : BoundsError) :
    p.validate = .error e ↔ ∃ before after,
      p.bounds = before ++ ⟨e.name, some e.value, e.domain⟩ :: after ∧
      (∀ c ∈ before, c.Holds) ∧ ¬e.domain.Contains e.value := by
  rw [validate, Bound.forM_check_eq_error_iff]
  constructor
  · rintro ⟨before, b, after, hbounds, hbefore, hb⟩
    obtain ⟨rfl, houtside⟩ := (b.check_eq_error_iff e).mp hb
    exact ⟨before, after, hbounds, hbefore, houtside⟩
  · rintro ⟨before, after, hbounds, hbefore, houtside⟩
    exact ⟨before, _, after, hbounds, hbefore, (Bound.check_eq_error_iff _ e).mpr ⟨rfl, houtside⟩⟩

example : Params.genesis.validate = .ok () := rfl

end ParticipantTrust
