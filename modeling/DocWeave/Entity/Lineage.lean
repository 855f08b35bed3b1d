/-!
Lineages in a class hierarchy.

A class is settled once all of its bases are. Its lineage then joins theirs, without repetition, and ends with
the class. Rounds over all classes settle every class that does not lead into a cycle. A class that stays
unsettled has a base that stays unsettled, so a walk along such bases comes back to where it was.
-/

namespace DocWeave.Entity

/-- Every class with its bases. -/
abbrev Hierarchy := List (String × List String)

namespace Hierarchy

/-- Lineages by class. -/
abbrev Lineages := List (String × List String)

/-- Join lists, leaving out what is there already. -/
def merge (lineages : List (List String)) : List String :=
  lineages.foldl (fun joined lineage => joined ++ lineage.filter (!joined.contains ·)) []

/-- The lineages of several classes, if all are settled. -/
def allSettled (settled : Lineages) : List String → Option (List (List String))
  | [] => some []
  | base :: rest =>
    match settled.lookup base, allSettled settled rest with
    | some lineage, some lineages => some (lineage :: lineages)
    | _, _ => none

/-- Settle a class if its bases are settled. -/
def settleClass (settled : Lineages) (entry : String × List String) : Lineages :=
  if (settled.lookup entry.1).isSome then settled
  else
    match allSettled settled entry.2 with
    | some lineages => settled ++ [(entry.1, merge lineages ++ [entry.1])]
    | none => settled

/-- Settle what can be settled in a number of rounds. -/
def settleRounds (hierarchy : Hierarchy) : Nat → Lineages → Lineages
  | 0, settled => settled
  | rounds + 1, settled =>
    if settled.length = hierarchy.length then settled
    else settleRounds hierarchy rounds (hierarchy.foldl settleClass settled)

/-- The lineages of all classes that do not lead into a cycle. -/
def settle (hierarchy : Hierarchy) : Lineages :=
  settleRounds hierarchy hierarchy.length []

/-- The first base of a class that is not settled. -/
def unsettledBase? (hierarchy : Hierarchy) (settled : Lineages) (name : String) : Option String :=
  ((hierarchy.lookup name).getD []).find? fun base => (settled.lookup base).isNone

/-- Walk along unsettled bases to the first class that is met twice. -/
def walk (hierarchy : Hierarchy) (settled : Lineages) : (steps : Nat) → List String → String → String
  | 0, _, name => name
  | steps + 1, path, name =>
    if path.contains name then name
    else
      match unsettledBase? hierarchy settled name with
      | some base => walk hierarchy settled steps (name :: path) base
      | none => name

/-- The lineage of every class, or a class that is among its own ancestors. -/
def lineages (hierarchy : Hierarchy) : Except String Lineages :=
  let settled := settle hierarchy
  match hierarchy.find? fun entry => (settled.lookup entry.1).isNone with
  | some entry => .error (walk hierarchy settled (hierarchy.length + 1) [] entry.1)
  | none => .ok settled

end Hierarchy

end DocWeave.Entity
