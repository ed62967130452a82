import ParticipantTrust.Registry.Exclusions

namespace ParticipantTrust.Exclusions

theorem matches_of_get? {e : Exclusions} {epoch : UInt64} {address : String} {entry : Exclusion}
    (h : e.get? epoch address = some entry) : Matches entry epoch address := by
  have hfound := List.find?_some (p := fun entry => decide (Matches entry epoch address)) h
  exact of_decide_eq_true hfound

theorem not_matches_of_before {entry : Exclusion} {epoch : UInt64} {address : String}
    (h : Before entry epoch address) : ¬Matches entry epoch address := by
  rintro ⟨rfl, rfl⟩
  rcases h with hepoch | ⟨-, haddress⟩
  · exact UInt64.lt_irrefl _ hepoch
  · exact String.lt_irrefl _ haddress

-- Entries before the place of a new one are of another pair, so the new one is found.
theorem find?_insertEntry_self (new : Exclusion) (entries : List Exclusion) :
    (insertEntry new entries).find? (fun entry => Matches entry new.epochIndex new.address) =
      some new := by
  have hself : Matches new new.epochIndex new.address := ⟨rfl, rfl⟩
  induction entries with
  | nil => simp [insertEntry, hself]
  | cons entry entries ih =>
      unfold insertEntry
      split
      · rename_i hbefore
        rw [List.find?_cons_of_neg (by simp [not_matches_of_before hbefore])]
        exact ih
      · split
        · simp [hself]
        · simp [hself]

-- An entry is put over one of its own pair at most.
theorem find?_insertEntry_of_not_matches (new : Exclusion) (epoch : UInt64) (address : String)
    (h : ¬Matches new epoch address) (entries : List Exclusion) :
    (insertEntry new entries).find? (fun entry => Matches entry epoch address) =
      entries.find? (fun entry => Matches entry epoch address) := by
  induction entries with
  | nil => simp [insertEntry, h]
  | cons entry entries ih =>
      unfold insertEntry
      split
      · rw [List.find?_cons, List.find?_cons, ih]
      · split
        · rename_i hmatches
          have hentry : ¬Matches entry epoch address := by
            rintro ⟨rfl, rfl⟩
            exact h ⟨hmatches.1.symm, hmatches.2.symm⟩
          simp [h, hentry]
        · simp [h]

theorem get?_record_self (e : Exclusions) (new : Exclusion) :
    (e.record new).get? new.epochIndex new.address = some new :=
  find?_insertEntry_self new e.entries

theorem get?_record_of_not_matches (e : Exclusions) (new : Exclusion) (epoch : UInt64)
    (address : String) (h : ¬Matches new epoch address) :
    (e.record new).get? epoch address = e.get? epoch address :=
  find?_insertEntry_of_not_matches new epoch address h e.entries

end ParticipantTrust.Exclusions
