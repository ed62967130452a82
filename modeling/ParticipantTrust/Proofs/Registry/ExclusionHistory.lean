import ParticipantTrust.Proofs.Registry.Exclusions
import ParticipantTrust.Proofs.Text.ByteOrder
import Mathlib.Algebra.BigOperators.Group.Finset.Basic
import Mathlib.Data.Prod.Lex
import Mathlib.Data.String.Basic

namespace ParticipantTrust.Exclusions

-- The ledger after the entries of `history` were recorded in it one by one.
def recordAll (e : Exclusions) (history : List Exclusion) : Exclusions := history.foldl record e

-- Nothing was recorded for the pair of `entry` after it.
def LastRecorded (history : List Exclusion) (entry : Exclusion) : Prop :=
  ∃ earlier later, history = earlier ++ entry :: later ∧
    ∀ other ∈ later, ¬Matches other entry.epochIndex entry.address

-- Where the entry of a pair stands: by epoch first, by address within one epoch.
def place (epoch : UInt64) (address : String) : ℕ ×ₗ String := toLex (epoch.toNat, address)

theorem before_iff (entry : Exclusion) (epoch : UInt64) (address : String) :
    Before entry epoch address ↔ place entry.epochIndex entry.address < place epoch address := by
  rw [Before, place, place, Prod.Lex.toLex_lt_toLex, UInt64.lt_iff_toNat_lt, ← UInt64.toNat_inj]

theorem matches_iff (entry : Exclusion) (epoch : UInt64) (address : String) :
    Matches entry epoch address ↔ place entry.epochIndex entry.address = place epoch address := by
  rw [Matches, place, place, toLex_inj, Prod.mk.injEq, UInt64.toNat_inj]

-- No address comes before the empty one.
theorem before_empty_iff (entry : Exclusion) (epoch : UInt64) :
    Before entry epoch "" ↔ entry.epochIndex.toNat < epoch.toNat := by
  have hleast : ¬entry.address < "" := by
    rw [String.lt_iff_toList_lt]
    exact List.not_lt_nil _
  simp [Before, hleast, UInt64.lt_iff_toNat_lt]

-- Entries stand in their order, so no pair has two of them.
def Ordered (entries : List Exclusion) : Prop :=
  entries.Pairwise fun a b => place a.epochIndex a.address < place b.epochIndex b.address

theorem mem_insertEntry {new entry : Exclusion} {entries : List Exclusion}
    (h : entry ∈ insertEntry new entries) : entry = new ∨ entry ∈ entries := by
  induction entries with
  | nil => exact .inl (List.mem_singleton.mp h)
  | cons first entries ih =>
      unfold insertEntry at h
      split at h
      · rcases List.mem_cons.mp h with rfl | hrest
        · exact .inr List.mem_cons_self
        · exact (ih hrest).imp_right (List.mem_cons_of_mem _)
      · split at h
        · exact (List.mem_cons.mp h).imp_right (List.mem_cons_of_mem _)
        · exact List.mem_cons.mp h

theorem ordered_insertEntry (new : Exclusion) (entries : List Exclusion) (h : Ordered entries) :
    Ordered (insertEntry new entries) := by
  induction entries with
  | nil => exact List.pairwise_singleton _ _
  | cons first entries ih =>
      obtain ⟨hfirst, hrest⟩ := List.pairwise_cons.mp h
      unfold insertEntry
      split
      · rename_i hbefore
        refine List.pairwise_cons.mpr ⟨fun entry hentry => ?_, ih hrest⟩
        rcases mem_insertEntry hentry with rfl | hold
        · exact (before_iff _ _ _).mp hbefore
        · exact hfirst entry hold
      · rename_i hbefore
        rw [before_iff, not_lt] at hbefore
        split
        · rename_i hmatches
          rw [matches_iff] at hmatches
          refine List.pairwise_cons.mpr ⟨fun entry hentry => ?_, hrest⟩
          exact hmatches ▸ hfirst entry hentry
        · rename_i hother
          rw [matches_iff] at hother
          have hnew := lt_of_le_of_ne hbefore (Ne.symm hother)
          refine List.pairwise_cons.mpr ⟨fun entry hentry => ?_, h⟩
          rcases List.mem_cons.mp hentry with rfl | hold
          · exact hnew
          · exact hnew.trans (hfirst entry hold)

theorem ordered_recordAll (e : Exclusions) (history : List Exclusion) (h : Ordered e.entries) :
    Ordered (e.recordAll history).entries := by
  induction history generalizing e with
  | nil => exact h
  | cons new history ih => exact ih (e.record new) (ordered_insertEntry new e.entries h)

-- The entries before the one of a pair are of other pairs, so a search for the pair finds it.
theorem Ordered.find?_of_mem {entries : List Exclusion} (h : Ordered entries) {entry : Exclusion}
    (hmem : entry ∈ entries) :
    entries.find? (fun other => Matches other entry.epochIndex entry.address) = some entry := by
  induction entries with
  | nil => exact absurd hmem List.not_mem_nil
  | cons first entries ih =>
      obtain ⟨hfirst, hrest⟩ := List.pairwise_cons.mp h
      rcases List.mem_cons.mp hmem with rfl | hlater
      · exact List.find?_cons_of_pos (by simp [Matches])
      · have hother : ¬Matches first entry.epochIndex entry.address := by
          rw [matches_iff]
          exact (hfirst entry hlater).ne
        rw [List.find?_cons_of_neg (by simpa using hother)]
        exact ih hrest hlater

theorem Ordered.get?_eq_some_iff {e : Exclusions} (h : Ordered e.entries) (epoch : UInt64)
    (address : String) (entry : Exclusion) :
    e.get? epoch address = some entry ↔ entry ∈ e.entries ∧ Matches entry epoch address := by
  constructor
  · exact fun hget => ⟨List.mem_of_find?_eq_some hget, matches_of_get? hget⟩
  · rintro ⟨hmem, rfl, rfl⟩
    exact h.find?_of_mem hmem

section Prefix

variable {α : Type} {P : α → Bool} {l : List α}
  (hdown : l.Pairwise fun a b => P b = true → P a = true)

include hdown

-- Where a predicate does not come back once it fails, what stands in front is all that satisfies it.
theorem takeWhile_eq_filter : l.takeWhile P = l.filter P := by
  induction l with
  | nil => rfl
  | cons a l ih =>
      obtain ⟨hfirst, hrest⟩ := List.pairwise_cons.mp hdown
      by_cases ha : P a = true
      · rw [List.takeWhile_cons_of_pos ha, List.filter_cons_of_pos ha, ih hrest]
      · have hnone : ∀ b ∈ l, ¬P b = true := fun b hb hP => ha (hfirst b hb hP)
        rw [List.takeWhile_cons_of_neg ha, List.filter_cons_of_neg ha, List.filter_eq_nil_iff.mpr hnone]

theorem dropWhile_eq_filter_not : l.dropWhile P = l.filter fun a => !P a := by
  induction l with
  | nil => rfl
  | cons a l ih =>
      obtain ⟨hfirst, hrest⟩ := List.pairwise_cons.mp hdown
      by_cases ha : P a = true
      · rw [List.dropWhile_cons_of_pos ha, List.filter_cons_of_neg (by simpa using ha), ih hrest]
      · have hall : ∀ b ∈ a :: l, (!P b) = true := by
          intro b hb
          rcases List.mem_cons.mp hb with rfl | hb
          · simpa using ha
          · simpa using fun hP => ha (hfirst b hb hP)
        rw [List.dropWhile_cons_of_neg ha, List.filter_eq_self.mpr hall]

end Prefix

-- From the place of `epoch` and the empty address on no entry is of an earlier epoch, and those of
-- `epoch` come first.
theorem Ordered.forEpoch_eq_filter {e : Exclusions} (h : Ordered e.entries) (epoch : UInt64) :
    e.forEpoch epoch = e.entries.filter fun entry => entry.epochIndex = epoch := by
  have hepochs : e.entries.Pairwise fun a b => a.epochIndex.toNat ≤ b.epochIndex.toNat := by
    refine h.imp fun hlt => ?_
    rcases Prod.Lex.toLex_lt_toLex.mp hlt with hepoch | heq
    · exact hepoch.le
    · exact heq.1.le
  have hbefore : e.entries.Pairwise fun a b =>
      decide (Before b epoch "") = true → decide (Before a epoch "") = true := by
    refine hepochs.imp fun hle => ?_
    simp only [decide_eq_true_eq, before_empty_iff]
    exact hle.trans_lt
  have hwithin : (e.entries.filter fun entry => !decide (Before entry epoch "")).Pairwise fun a b =>
      decide (b.epochIndex = epoch) = true → decide (a.epochIndex = epoch) = true := by
    refine List.pairwise_filter.mpr (hepochs.imp fun hle hstart _ => ?_)
    simp only [Bool.not_eq_true', decide_eq_false_iff_not, before_empty_iff, not_lt] at hstart
    simp only [decide_eq_true_eq]
    rintro rfl
    exact UInt64.toNat_inj.mp (hle.antisymm hstart)
  rw [forEpoch, dropWhile_eq_filter_not hbefore, takeWhile_eq_filter hwithin, List.filter_filter]
  refine List.filter_congr fun entry _ => ?_
  by_cases hepoch : entry.epochIndex = epoch
  · simp [hepoch, before_empty_iff]
  · simp [hepoch]

theorem Ordered.mem_forEpoch_iff {e : Exclusions} (h : Ordered e.entries) (epoch : UInt64)
    (entry : Exclusion) : entry ∈ e.forEpoch epoch ↔ entry ∈ e.entries ∧ entry.epochIndex = epoch := by
  rw [h.forEpoch_eq_filter, List.mem_filter, decide_eq_true_eq]

-- Within one epoch the places are the addresses.
theorem Ordered.forEpoch_addresses {e : Exclusions} (h : Ordered e.entries) (epoch : UInt64) :
    (e.forEpoch epoch).Pairwise fun a b => a.address < b.address := by
  rw [h.forEpoch_eq_filter]
  refine List.pairwise_filter.mpr (h.imp fun hlt ha hb => ?_)
  simp only [decide_eq_true_eq] at ha hb
  rw [ha, hb] at hlt
  rcases Prod.Lex.toLex_lt_toLex.mp hlt with hepoch | heq
  · exact absurd hepoch (lt_irrefl _)
  · exact heq.2

-- Every entry is counted in its own epoch.
theorem Ordered.size_eq_sum {e : Exclusions} (h : Ordered e.entries) (epochs : Finset UInt64)
    (hepochs : ∀ entry ∈ e.entries, entry.epochIndex ∈ epochs) :
    e.size = ∑ epoch ∈ epochs, (e.forEpoch epoch).length := by
  have hcount : ∀ epoch, (e.forEpoch epoch).length =
      ((e.entries.map (·.epochIndex) : List UInt64) : Multiset UInt64).count epoch := by
    intro epoch
    rw [h.forEpoch_eq_filter, ← List.countP_eq_length_filter, Multiset.coe_count, List.count,
      List.countP_map]
    rfl
  have hmem : ∀ epoch ∈ ((e.entries.map (·.epochIndex) : List UInt64) : Multiset UInt64),
      epoch ∈ epochs := by
    simpa using hepochs
  rw [Finset.sum_congr rfl fun epoch _ => hcount epoch, Multiset.sum_count_eq_card hmem,
    Multiset.coe_card, List.length_map, size]

-- A new entry is the last one of its pair, and of no other pair.
theorem lastRecorded_append_iff (history : List Exclusion) (new entry : Exclusion) :
    LastRecorded (history ++ [new]) entry ↔
      new = entry ∨ LastRecorded history entry ∧ ¬Matches new entry.epochIndex entry.address := by
  constructor
  · rintro ⟨earlier, later, hsplit, hlater⟩
    rcases later.eq_nil_or_concat with rfl | ⟨later, last, rfl⟩
    · exact .inl (List.append_inj_right' hsplit rfl |> List.singleton_inj.mp)
    · rw [List.concat_eq_append, ← List.cons_append, ← List.append_assoc] at hsplit
      obtain ⟨rfl, hlast⟩ := List.append_inj' hsplit rfl
      obtain rfl := List.singleton_inj.mp hlast
      refine .inr ⟨⟨earlier, later, rfl, fun other hother => ?_⟩, ?_⟩
      · exact hlater other (by simp [hother])
      · exact hlater new (by simp)
  · rintro (rfl | ⟨⟨earlier, later, rfl, hlater⟩, hnew⟩)
    · exact ⟨history, [], rfl, by simp⟩
    · refine ⟨earlier, later ++ [new], by simp, fun other hother => ?_⟩
      rcases List.mem_append.mp hother with hold | hlast
      · exact hlater other hold
      · exact List.mem_singleton.mp hlast ▸ hnew

theorem LastRecorded.mem {history : List Exclusion} {entry : Exclusion}
    (h : LastRecorded history entry) : entry ∈ history := by
  obtain ⟨earlier, later, rfl, -⟩ := h
  simp

theorem recordAll_append (e : Exclusions) (history : List Exclusion) (new : Exclusion) :
    e.recordAll (history ++ [new]) = (e.recordAll history).record new :=
  List.foldl_append

-- A pair is looked up as the last entry recorded for it.
theorem get?_recordAll_eq_some_iff (history : List Exclusion) (epoch : UInt64) (address : String)
    (entry : Exclusion) : (empty.recordAll history).get? epoch address = some entry ↔
      LastRecorded history entry ∧ Matches entry epoch address := by
  induction history using List.reverseRecOn with
  | nil =>
      refine iff_of_false (by simp [recordAll, get?, empty]) fun ⟨hlast, _⟩ => ?_
      exact List.not_mem_nil hlast.mem
  | append_singleton history new ih =>
      rw [recordAll_append, lastRecorded_append_iff]
      by_cases hnew : Matches new epoch address
      · obtain ⟨rfl, rfl⟩ := hnew
        rw [get?_record_self, Option.some.injEq]
        constructor
        · rintro rfl
          exact ⟨.inl rfl, rfl, rfl⟩
        · rintro ⟨heq | ⟨-, hother⟩, hentry⟩
          · exact heq
          · exact absurd ⟨hentry.1.symm, hentry.2.symm⟩ hother
      · rw [get?_record_of_not_matches _ _ _ _ hnew, ih]
        constructor
        · rintro ⟨hlast, rfl, rfl⟩
          exact ⟨.inr ⟨hlast, hnew⟩, rfl, rfl⟩
        · rintro ⟨rfl | ⟨hlast, -⟩, hentry⟩
          · exact absurd hentry hnew
          · exact ⟨hlast, hentry⟩

theorem ordered_recordAll_empty (history : List Exclusion) :
    Ordered (empty.recordAll history).entries :=
  ordered_recordAll empty history List.Pairwise.nil

theorem mem_recordAll_iff (history : List Exclusion) (entry : Exclusion) :
    entry ∈ (empty.recordAll history).entries ↔ LastRecorded history entry := by
  have hget := (ordered_recordAll_empty history).get?_eq_some_iff entry.epochIndex entry.address entry
  rw [get?_recordAll_eq_some_iff] at hget
  have hself : Matches entry entry.epochIndex entry.address := ⟨rfl, rfl⟩
  simpa [hself] using hget.symm

-- What a ledger that started empty says of an epoch: the last entry of each address in the order of the
-- addresses' bytes, from every side the same.
theorem epoch_lists_last_entries (history : List Exclusion) (epoch : UInt64) :
    let ledger := empty.recordAll history
    (ledger.forEpoch epoch).Pairwise (fun a b => utf8Bytes a.address < utf8Bytes b.address) ∧
    (∀ entry, entry ∈ ledger.forEpoch epoch ↔
      LastRecorded history entry ∧ entry.epochIndex = epoch) ∧
    (∀ address, ledger.isExcluded epoch address = true ↔
      ∃ entry ∈ ledger.forEpoch epoch, entry.address = address) ∧
    (∀ address entry, ledger.get? epoch address = some entry ↔
      entry ∈ ledger.forEpoch epoch ∧ entry.address = address) ∧
    ledger.size = ∑ recorded ∈ (history.map (·.epochIndex)).toFinset,
      (ledger.forEpoch recorded).length := by
  intro ledger
  have hordered := ordered_recordAll_empty history
  have hget : ∀ address entry, ledger.get? epoch address = some entry ↔
      entry ∈ ledger.forEpoch epoch ∧ entry.address = address := by
    intro address entry
    rw [hordered.get?_eq_some_iff, hordered.mem_forEpoch_iff, and_assoc, Matches]
  refine ⟨?_, ?_, ?_, hget, ?_⟩
  · exact (hordered.forEpoch_addresses epoch).imp fun h => (utf8Bytes_lt_iff _ _).mpr h
  · intro entry
    rw [hordered.mem_forEpoch_iff, mem_recordAll_iff]
  · intro address
    rw [isExcluded, Option.isSome_iff_exists]
    exact exists_congr (hget address)
  · refine hordered.size_eq_sum _ fun entry hentry => ?_
    have hrecorded := ((mem_recordAll_iff history entry).mp hentry).mem
    simpa using ⟨entry, hrecorded, rfl⟩

end ParticipantTrust.Exclusions
