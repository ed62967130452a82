import ParticipantTrust.Services

namespace ParticipantTrust

-- Entries in ascending order of epoch and address, one for each pair.
structure Exclusions where
  entries : List Exclusion

namespace Exclusions

def empty : Exclusions := ⟨[]⟩

-- Whether an entry stands before the place of `epoch` and `address`.
def Before (entry : Exclusion) (epoch : UInt64) (address : String) : Prop :=
  entry.epochIndex < epoch ∨ (entry.epochIndex = epoch ∧ entry.address < address)

instance (entry : Exclusion) (epoch : UInt64) (address : String) :
    Decidable (Before entry epoch address) := by
  unfold Before; infer_instance

def Matches (entry : Exclusion) (epoch : UInt64) (address : String) : Prop :=
  entry.epochIndex = epoch ∧ entry.address = address

instance (entry : Exclusion) (epoch : UInt64) (address : String) :
    Decidable (Matches entry epoch address) := by
  unfold Matches; infer_instance

-- Puts an entry into its place, over the one that is there.
def insertEntry (new : Exclusion) : List Exclusion → List Exclusion
  | [] => [new]
  | entry :: entries =>
    if Before entry new.epochIndex new.address then entry :: insertEntry new entries
    else if Matches entry new.epochIndex new.address then new :: entries
    else new :: entry :: entries

def record (e : Exclusions) (entry : Exclusion) : Exclusions := ⟨insertEntry entry e.entries⟩

def get? (e : Exclusions) (epoch : UInt64) (address : String) : Option Exclusion :=
  e.entries.find? fun entry => Matches entry epoch address

def isExcluded (e : Exclusions) (epoch : UInt64) (address : String) : Bool :=
  (e.get? epoch address).isSome

-- The entries from the place of `epoch` and the empty address on, up to the first one of another epoch.
def forEpoch (e : Exclusions) (epoch : UInt64) : List Exclusion :=
  (e.entries.dropWhile fun entry => Before entry epoch "").takeWhile fun entry =>
    entry.epochIndex = epoch

def size (e : Exclusions) : Nat := e.entries.length

def isEmpty (e : Exclusions) : Bool := e.entries.isEmpty

end Exclusions

end ParticipantTrust
