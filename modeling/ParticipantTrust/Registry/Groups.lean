namespace ParticipantTrust

-- The groups of the current epoch by name, each with its members in ascending order.
structure Groups where
  groups : List (String × List String)

namespace Groups

def empty : Groups := ⟨[]⟩

-- Puts an address into an ascending list, once.
def insertMember (address : String) : List String → List String
  | [] => [address]
  | member :: members =>
    if address < member then address :: member :: members
    else if address = member then member :: members
    else member :: insertMember address members

def addTo (group address : String) : List (String × List String) → List (String × List String)
  | [] => [(group, [address])]
  | (name, members) :: others =>
    if name = group then (name, insertMember address members) :: others
    else (name, members) :: addTo group address others

def add (g : Groups) (group address : String) : Groups := ⟨addTo group address g.groups⟩

def members (g : Groups) (group : String) : List String := (g.groups.lookup group).getD []

def isMember (g : Groups) (address : String) : Bool :=
  g.groups.any fun (_, members) => members.contains address

-- Takes an address out of every group.
def remove (g : Groups) (address : String) : Groups :=
  ⟨g.groups.map fun (name, members) => (name, members.filter (· ≠ address))⟩

end Groups

end ParticipantTrust
