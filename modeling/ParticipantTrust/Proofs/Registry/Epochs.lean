import ParticipantTrust.Proofs.Registry.Invalidation

namespace ParticipantTrust

-- Records of participants over one registry. Records may share an address.
structure World where
  participants : List Participant
  registry : Registry

-- A record is updated with parameters of its own, or rewritten by whoever keeps it.
inductive Call where
  | update (who : Nat) (params : Params) (previous : EpochStats) (block : Block)
  | rewrite (who : Nat) (p : Participant)
  | deposit (address : String) (amount : Decimal)
  | addMember (group address : String)

namespace World

def step (w : World) : Call → World
  | .update who params previous block =>
    match w.participants[who]? with
    | none => w
    | some p =>
      let after := (p.update params Registry.services previous block).run w.registry
      ⟨w.participants.set who after.1.1, after.2⟩
  | .rewrite who p => { w with participants := w.participants.set who p }
  | .deposit address amount =>
    { w with registry :=
      { w.registry with collateral := w.registry.collateral.deposit address amount } }
  | .addMember group address =>
    { w with registry := { w.registry with groups := w.registry.groups.add group address } }

def run (w : World) (calls : List Call) : World := calls.foldl step w

-- The call is an update of a record of this address while this epoch is in effect.
def Concerns (w : World) (epoch : UInt64) (address : String) (call : Call) (who : Nat)
    (p : Participant) : Prop :=
  w.participants[who]? = some p ∧ p.address = address ∧
    ∃ params previous block, call = .update who params previous block ∧
      block.effectiveEpoch = some epoch

def Slashes (w : World) (epoch : UInt64) (address : String) (call : Call) : Prop :=
  (∃ who p, w.Concerns epoch address call who p) ∧
    w.registry.collateral.slashes.length < (w.step call).registry.collateral.slashes.length

def Invalidates (w : World) (epoch : UInt64) (address : String) (call : Call) : Prop :=
  ∃ who p after, w.Concerns epoch address call who p ∧ p.status ≠ .invalid ∧
    (w.step call).participants[who]? = some after ∧ after.status = .invalid

theorem step_update (w : World) (who : Nat) (params : Params) (previous : EpochStats)
    (block : Block) (p : Participant) (hp : w.participants[who]? = some p) :
    w.step (.update who params previous block) =
      let after := (p.update params Registry.services previous block).run w.registry
      ⟨w.participants.set who after.1.1, after.2⟩ := by
  simp only [step, hp]

theorem step_update_cases (w : World) (who : Nat) (params : Params) (previous : EpochStats)
    (block : Block) (p : Participant) (hp : w.participants[who]? = some p) :
    let v := w.step (.update who params previous block)
    (∃ reason, v.registry = w.registry.invalidated params block reason p.address) ∨
      (v.registry = w.registry ∧ (p.status ≠ .invalid →
        ∀ after, v.participants[who]? = some after → after.status ≠ .invalid)) := by
  rw [step_update w who params previous block p hp]
  have hlength : who < w.participants.length := (List.getElem?_eq_some_iff.mp hp).1
  rcases w.registry.update_cases p params previous block with hafter | ⟨hafter, hstatus⟩
  · exact .inl hafter
  · refine .inr ⟨hafter, ?_⟩
    intro hvalid after hset
    rw [List.getElem?_set_self hlength, Option.some.injEq] at hset
    rw [← hset]
    exact hstatus hvalid

-- The ways that a call can change marks and exclusions.
theorem step_penalties (w : World) (call : Call) :
    (∃ params block reason address,
      (w.step call).registry = w.registry.invalidated params block reason address) ∨
    ((w.step call).registry.slashed = w.registry.slashed ∧
      (w.step call).registry.exclusions = w.registry.exclusions) := by
  cases call with
  | update who params previous block =>
      cases hp : w.participants[who]? with
      | none =>
          simp only [step, hp]
          exact .inr ⟨trivial, trivial⟩
      | some p =>
          rcases w.step_update_cases who params previous block p hp with ⟨reason, hv⟩ | ⟨hv, -⟩
          · exact .inl ⟨params, block, reason, p.address, hv⟩
          · rw [hv]
            exact .inr ⟨rfl, rfl⟩
  | rewrite who p => exact .inr ⟨rfl, rfl⟩
  | deposit address amount => exact .inr ⟨rfl, rfl⟩
  | addMember group address => exact .inr ⟨rfl, rfl⟩

theorem step_slashed (w : World) (call : Call) {mark : UInt64 × String}
    (h : mark ∈ w.registry.slashed) : mark ∈ (w.step call).registry.slashed := by
  rcases w.step_penalties call with ⟨params, block, reason, address, hv⟩ | ⟨hslashed, -⟩
  · rw [hv]
    exact w.registry.mem_slashed_invalidated params block reason address h
  · rw [hslashed]
    exact h

theorem run_slashed (w : World) (calls : List Call) {mark : UInt64 × String}
    (h : mark ∈ w.registry.slashed) : mark ∈ (w.run calls).registry.slashed := by
  induction calls generalizing w with
  | nil => exact h
  | cons call calls ih => exact ih (w.step call) (w.step_slashed call h)

theorem step_get? (w : World) (call : Call) {epoch : UInt64} {address : String} {entry : Exclusion}
    (h : w.registry.exclusions.get? epoch address = some entry) :
    (w.step call).registry.exclusions.get? epoch address = some entry := by
  rcases w.step_penalties call with ⟨params, block, reason, other, hv⟩ | ⟨-, hexclusions⟩
  · rw [hv]
    exact w.registry.get?_invalidated params block reason other h
  · rw [hexclusions]
    exact h

-- A slash comes with its mark.
theorem Slashes.marked {w : World} {epoch : UInt64} {address : String} {call : Call}
    (h : w.Slashes epoch address call) :
    (epoch, address) ∉ w.registry.slashed ∧ (epoch, address) ∈ (w.step call).registry.slashed := by
  obtain ⟨⟨who, p, hp, rfl, params, previous, block, rfl, hepoch⟩, hgrows⟩ := h
  rcases w.step_update_cases who params previous block p hp with ⟨reason, hv⟩ | ⟨hv, -⟩
  · rw [hv] at hgrows ⊢
    exact w.registry.invalidated_grows params block reason p.address hepoch hgrows
  · rw [hv] at hgrows
    exact absurd hgrows (Nat.lt_irrefl _)

theorem Invalidates.excluded {w : World} {epoch : UInt64} {address : String} {call : Call}
    (h : w.Invalidates epoch address call) :
    (w.step call).registry.exclusions.isExcluded epoch address = true ∧
      (w.step call).registry.groups.isMember address = false := by
  obtain ⟨who, p, after, ⟨hp, rfl, params, previous, block, rfl, hepoch⟩, hvalid, hafter,
    hinvalid⟩ := h
  rcases w.step_update_cases who params previous block p hp with ⟨reason, hv⟩ | ⟨-, hstatus⟩
  · rw [hv]
    exact ⟨w.registry.invalidated_isExcluded params block reason p.address hepoch,
      w.registry.invalidated_isMember params block reason p.address⟩
  · exact absurd hinvalid (hstatus hvalid after hafter)

-- Over a whole run, the updates that concern an address in an epoch slash it once at most, and not at
-- all if its mark was set. No call touches an exclusion that stands, and an invalidation leaves one and
-- no membership, whether or not its orders have failed.
theorem penalties_unique_per_epoch (w : World) (before between : List Call) (call later : Call)
    (epoch : UInt64) (address : String) :
    let u := w.run before
    let v := (u.step call).run between
    ((epoch, address) ∈ w.registry.slashed → ¬u.Slashes epoch address call) ∧
      (u.Slashes epoch address call → ¬v.Slashes epoch address later) ∧
      (∀ entry, u.registry.exclusions.get? epoch address = some entry →
        (u.step call).registry.exclusions.get? epoch address = some entry) ∧
      (u.Invalidates epoch address call →
        (∃ entry, (u.step call).registry.exclusions.get? epoch address = some entry ∧
          entry.epochIndex = epoch ∧ entry.address = address) ∧
        (u.step call).registry.groups.isMember address = false) := by
  intro u v
  refine ⟨?_, ?_, ?_, ?_⟩
  · intro hmark hslashes
    exact hslashes.marked.1 (w.run_slashed before hmark)
  · intro hslashes hlater
    exact hlater.marked.1 ((u.step call).run_slashed between hslashes.marked.2)
  · intro entry
    exact u.step_get? call
  · intro hinvalidates
    obtain ⟨hexcluded, hmember⟩ := hinvalidates.excluded
    obtain ⟨entry, hentry⟩ := Option.isSome_iff_exists.mp hexcluded
    obtain ⟨hepoch, haddress⟩ := Exclusions.matches_of_get? hentry
    exact ⟨⟨entry, hentry, hepoch, haddress⟩, hmember⟩

-- Two records of one address are invalidated in one epoch, and the stake is slashed once.
theorem penalties_unique_for_shared_address :
    let p : Participant := { Participant.new "gonka1alice" .active with streak := 20 }
    let w : World := ⟨[p, p], {
      collateral := Collateral.empty.deposit "gonka1alice" (Decimal.ofInt 1003)
      groups := Groups.empty.add "parent" "gonka1alice"
      exclusions := .empty
      slashed := [] }⟩
    let call := Call.update 0 .genesis .zero ⟨120, some 7⟩
    let later := Call.update 1 .genesis .zero ⟨121, some 7⟩
    w.Slashes 7 "gonka1alice" call ∧ ¬(w.step call).Slashes 7 "gonka1alice" later ∧
      (w.step call).Invalidates 7 "gonka1alice" later ∧
      ((w.step call).step later).registry.groups.isMember "gonka1alice" = false := by
  intro p w call later
  have hslashes : w.Slashes 7 "gonka1alice" call :=
    ⟨⟨0, p, rfl, rfl, _, _, _, rfl, rfl⟩, by decide +kernel⟩
  have hinvalidates : (w.step call).Invalidates 7 "gonka1alice" later :=
    ⟨1, p, _, ⟨rfl, rfl, _, _, _, rfl, rfl⟩, by decide, rfl, by decide +kernel⟩
  have honce := (penalties_unique_per_epoch w [] [] call later 7 "gonka1alice").2.1 hslashes
  have hremoved := (penalties_unique_per_epoch w [call] [] later later 7 "gonka1alice").2.2.2
    hinvalidates
  exact ⟨hslashes, honce, hinvalidates, hremoved.2⟩

end World

end ParticipantTrust
