import ParticipantTrust.Registry.Basic
import ParticipantTrust.Proofs.Settlement
import ParticipantTrust.Proofs.Transition.Requests
import ParticipantTrust.Proofs.Transition.Update

namespace ParticipantTrust

-- What can befall a participant. An update has its own parameters and services, and an epoch is settled
-- together with the participants listed before and after.
inductive Operation (σ : Type) where
  | record (event : Event)
  | update (params : Params) (services : Services σ) (previous : EpochStats) (block : Block)
  | settle (epoch : UInt64) (before after : List Participant)

-- A participant on its way, with all requests made on its account and the outcomes of its updates,
-- both latest first.
structure Course (σ : Type) where
  participant : Participant
  services : σ
  journal : List Request
  outcomes : List (Except TransitionError Transition)

-- Whether an update has carried out an invalidation, in full or in part.
def invalidates : Except TransitionError Transition → Bool
  | .error _ => true
  | .ok transition => transition.invalidation.isSome

namespace Course

variable {σ : Type}

def start (p : Participant) (s : σ) : Course σ := ⟨p, s, [], []⟩

def step (c : Course σ) : Operation σ → Course σ
  | .record event => { c with participant := c.participant.record event }
  | .update params services previous block =>
    let after := (c.participant.update params services.journaled previous block).run
      (c.services, c.journal)
    ⟨after.1.1, after.2.1, after.2.2, after.1.2 :: c.outcomes⟩
  | .settle epoch before after =>
    let settled := (settle epoch (before ++ c.participant :: after)).2
    { c with participant := settled[before.length]?.getD c.participant }

def run (c : Course σ) (operations : List (Operation σ)) : Course σ := operations.foldl step c

def removals (c : Course σ) : Nat := c.journal.countP Request.isRemoval

def invalidations (c : Course σ) : Nat := c.outcomes.countP invalidates

end Course

theorem Participant.record_status (p : Participant) (event : Event) :
    (p.record event).status = p.status := by
  cases event <;> rfl

theorem Participant.record_epochsCompleted (p : Participant) (event : Event) :
    (p.record event).epochsCompleted = p.epochsCompleted := by
  cases event <;> rfl

theorem settle_at_length (epoch : UInt64) (before after : List Participant) (p : Participant) :
    (settle epoch (before ++ p :: after)).2[before.length]? = some p.settle := by
  simp [settle_snd]

theorem Participant.settle_epochsCompleted (p : Participant) (h : p.status.isSticky = true) :
    p.settle.epochsCompleted = p.epochsCompleted := by
  have hactive : p.status ≠ .active := by
    intro hactive
    rw [hactive] at h
    cases h
  exact if_neg hactive

namespace Course

variable {σ : Type}

-- Nothing that a penalty touches differs.
structure SameStanding (c d : Course σ) : Prop where
  status : d.participant.status = c.participant.status
  epochs : d.participant.epochsCompleted = c.participant.epochsCompleted
  services : d.services = c.services
  journal : d.journal = c.journal
  invalidations : d.invalidations = c.invalidations

theorem SameStanding.trans {c d e : Course σ} (hcd : c.SameStanding d) (hde : d.SameStanding e) :
    c.SameStanding e where
  status := hde.status.trans hcd.status
  epochs := hde.epochs.trans hcd.epochs
  services := hde.services.trans hcd.services
  journal := hde.journal.trans hcd.journal
  invalidations := hde.invalidations.trans hcd.invalidations

theorem step_settle (c : Course σ) (epoch : UInt64) (before after : List Participant) :
    c.step (.settle epoch before after) = { c with participant := c.participant.settle } := by
  simp only [step, settle_at_length, Option.getD_some]

theorem step_update_of_isSticky (c : Course σ) (params : Params) (services : Services σ)
    (previous : EpochStats) (block : Block) (h : c.participant.status.isSticky = true) :
    c.step (.update params services previous block) =
      { c with outcomes := .ok ⟨c.participant.status, c.participant.status,
          (c.participant.verdict params previous).reason, none⟩ :: c.outcomes } := by
  simp only [step]
  rw [Participant.update_of_isSticky _ _ _ _ _ _ h]

theorem step_sameStanding (c : Course σ) (operation : Operation σ)
    (h : c.participant.status.isSticky = true) : c.SameStanding (c.step operation) := by
  cases operation with
  | record event =>
      exact ⟨c.participant.record_status event, c.participant.record_epochsCompleted event, rfl,
        rfl, rfl⟩
  | update params services previous block =>
      rw [step_update_of_isSticky c params services previous block h]
      exact ⟨rfl, rfl, rfl, rfl, rfl⟩
  | settle epoch before after =>
      rw [step_settle]
      exact ⟨rfl, c.participant.settle_epochsCompleted h, rfl, rfl, rfl⟩

theorem run_sameStanding (c : Course σ) (operations : List (Operation σ))
    (h : c.participant.status.isSticky = true) : c.SameStanding (c.run operations) := by
  induction operations generalizing c with
  | nil => exact ⟨rfl, rfl, rfl, rfl, rfl⟩
  | cons operation operations ih =>
      have hstep := c.step_sameStanding operation h
      refine hstep.trans (ih (c.step operation) ?_)
      rw [hstep.status]
      exact h

-- An invalidation makes the status sticky, and a sticky status allows no other.
structure PenalisedOnce (c : Course σ) : Prop where
  removals : c.removals = c.invalidations
  atMostOne : c.invalidations ≤ 1
  none : c.participant.status.isSticky = false → c.invalidations = 0
  quiet : c.invalidations = 0 → c.journal = []

theorem PenalisedOnce.of_sameStanding {c d : Course σ} (hc : c.PenalisedOnce)
    (h : c.SameStanding d) : d.PenalisedOnce where
  removals := by
    have hremovals : d.removals = c.removals :=
      congrArg (List.countP Request.isRemoval) h.journal
    rw [hremovals, h.invalidations]
    exact hc.removals
  atMostOne := by rw [h.invalidations]; exact hc.atMostOne
  none := by rw [h.status, h.invalidations]; exact hc.none
  quiet := by rw [h.journal, h.invalidations]; exact hc.quiet

theorem step_update_of_invalid (c : Course σ) (params : Params) (services : Services σ)
    (previous : EpochStats) (block : Block) (hsticky : c.participant.status.isSticky = false)
    (hinvalid : (c.participant.verdict params previous).status = .invalid) :
    (c.step (.update params services previous block)).participant.status = .invalid ∧
      (c.step (.update params services previous block)).removals = c.removals + 1 ∧
      (c.step (.update params services previous block)).invalidations = c.invalidations + 1 := by
  simp only [step, removals, invalidations]
  rw [Participant.update_of_invalid _ _ _ _ _ _ hsticky hinvalid]
  refine ⟨hinvalid, ?_, ?_⟩
  · exact invalidate_makes params services block _ _ (c.services, c.journal)
  · apply List.countP_cons_of_pos
    dsimp only
    split
    · rfl
    · rfl

theorem step_update_penalisedOnce (c : Course σ) (params : Params) (services : Services σ)
    (previous : EpochStats) (block : Block) (hsticky : c.participant.status.isSticky = false)
    (hc : c.PenalisedOnce) : (c.step (.update params services previous block)).PenalisedOnce := by
  have hnone := hc.none hsticky
  by_cases hkept : (c.participant.verdict params previous).status = c.participant.status
  · simp only [step]
    rw [Participant.update_of_kept _ _ _ _ _ _ (.inl hkept)]
    exact ⟨hc.removals, hc.atMostOne, hc.none, hc.quiet⟩
  by_cases hinvalid : (c.participant.verdict params previous).status = .invalid
  · obtain ⟨hstatus, hremovals, hinvalidations⟩ :=
      c.step_update_of_invalid params services previous block hsticky hinvalid
    have hremoved := hc.removals
    refine ⟨by omega, by omega, ?_, by omega⟩
    intro hfree
    rw [hstatus] at hfree
    cases hfree
  · simp only [step]
    rw [Participant.update_of_moved _ _ _ _ _ _ hkept hsticky hinvalid]
    exact ⟨hc.removals, hc.atMostOne, fun _ => hnone, hc.quiet⟩

theorem step_penalisedOnce (c : Course σ) (operation : Operation σ) (hc : c.PenalisedOnce) :
    (c.step operation).PenalisedOnce := by
  by_cases h : c.participant.status.isSticky = true
  · exact hc.of_sameStanding (c.step_sameStanding operation h)
  rw [Bool.not_eq_true] at h
  cases operation with
  | record event =>
      exact ⟨hc.removals, hc.atMostOne, fun _ => hc.none h, hc.quiet⟩
  | update params services previous block =>
      exact c.step_update_penalisedOnce params services previous block h hc
  | settle epoch before after =>
      rw [step_settle]
      exact ⟨hc.removals, hc.atMostOne, hc.none, hc.quiet⟩

theorem run_penalisedOnce (c : Course σ) (operations : List (Operation σ)) (hc : c.PenalisedOnce) :
    (c.run operations).PenalisedOnce := by
  induction operations generalizing c with
  | nil => exact hc
  | cons operation operations ih => exact ih (c.step operation) (c.step_penalisedOnce operation hc)

-- Over a whole run there is one invalidation at most, with one removal, and no request without it. From
-- the moment on at which the status is sticky, no update asks for anything or changes anything, and no
-- settlement earns an epoch.
theorem penalties_once_in_run (p : Participant) (s : σ) (earlier later : List (Operation σ)) :
    let c := (start p s).run earlier
    let d := c.run later
    d.invalidations ≤ 1 ∧ d.removals = d.invalidations ∧ (d.invalidations = 0 → d.journal = []) ∧
      (c.participant.status.isSticky = true →
        d.participant.status = c.participant.status ∧
          d.participant.epochsCompleted = c.participant.epochsCompleted ∧
          d.services = c.services ∧ d.journal = c.journal ∧
          ∀ params services previous block, ∃ reason,
            d.step (.update params services previous block) =
              { d with outcomes := .ok ⟨d.participant.status, d.participant.status,
                  reason, none⟩ :: d.outcomes }) := by
  intro c d
  have hstart : (start p s).PenalisedOnce := ⟨rfl, Nat.zero_le 1, fun _ => rfl, fun _ => rfl⟩
  have honce := c.run_penalisedOnce later ((start p s).run_penalisedOnce earlier hstart)
  refine ⟨honce.atMostOne, honce.removals, honce.quiet, ?_⟩
  intro hsticky
  have hsame := c.run_sameStanding later hsticky
  refine ⟨hsame.status, hsame.epochs, hsame.services, hsame.journal, ?_⟩
  intro params services previous block
  have hd : d.participant.status.isSticky = true := by
    rw [hsame.status]
    exact hsticky
  exact ⟨_, d.step_update_of_isSticky params services previous block hd⟩

-- The fifth invalidation in a row is penalised, and the parameters lost after it do not undo this.
theorem penalties_once_in_run_after_fifth :
    let p : Participant := { Participant.new "gonka1alice" .active with
      epochsCompleted := 7
      streak := 4 }
    let c := (start p Registry.empty).run [.record .invalidated,
      .update .genesis Registry.services .zero ⟨120, some 7⟩]
    let d := c.run [.record .validated, .settle 7 [] [Participant.new "gonka1bob" .active],
      .update { Params.genesis with validation := .unset } Registry.services .zero ⟨240, some 8⟩]
    c.participant.status.isSticky = true ∧ d.participant.status = c.participant.status ∧
      d.participant.epochsCompleted = c.participant.epochsCompleted ∧ d.journal = c.journal ∧
      d.invalidations ≤ 1 := by
  intro p c d
  have hsticky : c.participant.status.isSticky = true := by decide +kernel
  obtain ⟨hone, -, -, hfinal⟩ := penalties_once_in_run p Registry.empty
    [.record .invalidated, .update .genesis Registry.services .zero ⟨120, some 7⟩]
    [.record .validated, .settle 7 [] [Participant.new "gonka1bob" .active],
      .update { Params.genesis with validation := .unset } Registry.services .zero ⟨240, some 8⟩]
  obtain ⟨hstatus, hepochs, -, hjournal, -⟩ := hfinal hsticky
  exact ⟨hsticky, hstatus, hepochs, hjournal, hone⟩

end Course

end ParticipantTrust
