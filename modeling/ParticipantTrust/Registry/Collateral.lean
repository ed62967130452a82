import ParticipantTrust.Decimal.Basic

namespace ParticipantTrust

-- Locked stakes by address, and the slashes taken from them in order.
structure Collateral where
  balances : List (String × Decimal)
  slashes : List (String × Decimal)

namespace Collateral

def empty : Collateral := ⟨[], []⟩

def balance? (c : Collateral) (address : String) : Option Decimal := c.balances.lookup address

def balance (c : Collateral) (address : String) : Decimal := (c.balance? address).getD Decimal.zero

-- Sets the balance of an address, which goes last if it is new.
def setBalance (address : String) (amount : Decimal) : List (String × Decimal) → List (String × Decimal)
  | [] => [(address, amount)]
  | (name, old) :: others =>
    if name = address then (name, amount) :: others
    else (name, old) :: setBalance address amount others

def deposit (c : Collateral) (address : String) (amount : Decimal) : Collateral :=
  { c with balances := setBalance address (c.balance address + amount) c.balances }

-- Takes the whole units in the share `fraction` of a balance; the rest stays locked. An address
-- without collateral is left alone.
def slash (c : Collateral) (address : String) (fraction : Decimal) : Collateral :=
  match c.balance? address with
  | none => c
  | some balance =>
    let amount := (balance * fraction).roundWith .down 0
    { balances := setBalance address (balance - amount) c.balances
      slashes := c.slashes ++ [(address, amount)] }

end Collateral

end ParticipantTrust
