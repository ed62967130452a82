import Mathlib.Data.List.OfFn
import Mathlib.Data.List.FinRange
import Mathlib.Data.Fintype.Perm
import ParticipantTrust.Proofs.Text.ByteOrder
import ParticipantTrust.Settlement

namespace ParticipantTrust

namespace Settlement

section

variable {count : Nat} (epoch : UInt64) (given : Vector Participant count)

-- How far a settlement has come when `visited` are the places behind it.
structure Reached (visited : List (Fin count)) (s : Settlement count) : Prop where
  summaries : s.summaries.toList = visited.map fun i => (getElem given i i.isLt).summary epoch
  settled : ∀ i ∈ visited, getElem s.participants i i.isLt = (getElem given i i.isLt).settle
  waiting : ∀ i ∉ visited, getElem s.participants i i.isLt = getElem given i i.isLt

variable {epoch given} {visited : List (Fin count)} {s : Settlement count}

-- A place is visited once, so its participant still has the counters of the epoch.
theorem Reached.visit (h : Reached epoch given visited s) (place : Fin count)
    (hplace : place ∉ visited) :
    Reached epoch given (visited ++ [place]) (s.visit epoch place) := by
  have hfound : s.participants[place] = given[place] := h.waiting place hplace
  have hset : ∀ i : Fin count, (s.visit epoch place).participants[i] =
      if i = place then given[place].settle else s.participants[i] := by
    intro i
    simp only [Settlement.visit, Fin.getElem_fin, Vector.getElem_set, ← hfound, Fin.ext_iff, eq_comm]
  constructor
  case summaries => simp [Settlement.visit, h.summaries, hfound]
  case settled =>
    intro i hi
    rw [hset]
    split
    · rename_i heq
      rw [heq]
    · rename_i hne
      exact h.settled i (by simpa [hne] using hi)
  case waiting =>
    intro i hi
    obtain ⟨hvisited, hne⟩ : i ∉ visited ∧ i ≠ place := by simpa using hi
    rw [hset, if_neg hne]
    exact h.waiting i hvisited

theorem Reached.run (h : Reached epoch given visited s) (places : List (Fin count))
    (hnodup : (visited ++ places).Nodup) :
    Reached epoch given (visited ++ places) (places.foldl (Settlement.visit epoch) s) := by
  induction places generalizing visited s with
  | nil => simpa using h
  | cons place places ih =>
      rw [List.append_cons] at hnodup ⊢
      have hplace : place ∉ visited := fun hmem =>
        (List.nodup_append.mp (List.nodup_append.mp hnodup).1).2.2 place hmem place (by simp) rfl
      exact ih (h.visit place hplace) hnodup

end

end Settlement

theorem visitingOrder_perm (participants : List Participant) :
    (visitingOrder participants).Perm (List.finRange participants.length) :=
  List.mergeSort_perm _ _

-- All places are visited, each once.
theorem settle_reached (epoch : UInt64) (participants : List Participant) :
    Settlement.Reached epoch (Settlement.start participants).participants
      (visitingOrder participants)
      ((visitingOrder participants).foldl (Settlement.visit epoch) (.start participants)) := by
  have hstart : Settlement.Reached epoch (Settlement.start participants).participants []
      (.start participants) := ⟨rfl, nofun, fun _ _ => rfl⟩
  have hnodup : (visitingOrder participants).Nodup :=
    (visitingOrder_perm participants).nodup_iff.mpr (List.nodup_finRange _)
  exact hstart.run (visitingOrder participants) hnodup

theorem settle_snd (epoch : UInt64) (participants : List Participant) :
    (settle epoch participants).2 = participants.map (·.settle) := by
  have hreached := settle_reached epoch participants
  apply List.ext_getElem (by simp [settle])
  intro i hi hi'
  have hplace : i < participants.length := by simpa using hi'
  have hvisited : (⟨i, hplace⟩ : Fin participants.length) ∈ visitingOrder participants :=
    (visitingOrder_perm participants).mem_iff.mpr (List.mem_finRange _)
  have hsettled := hreached.settled ⟨i, hplace⟩ hvisited
  simpa [settle, Settlement.start] using hsettled

end ParticipantTrust
