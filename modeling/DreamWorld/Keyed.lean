/-!
# Tables by name

A table lists named values in the strict order of their names.  Writing keeps
the order and replaces an earlier value of the same name, so two tables that
answer every look-up alike are equal.
-/

namespace DreamWorld

universe u v

/-- Named values, in the order of their names. -/
abbrev Keyed (α : Type u) : Type u :=
  List (String × α)

namespace Keyed

variable {α : Type u} {β : Type v}

/-- The value under a name. -/
def find? (table : Keyed α) (name : String) : Option α :=
  (List.find? (fun entry => entry.1 == name) table).map Prod.snd

/-- The name has a value. -/
def has (table : Keyed α) (name : String) : Bool :=
  (find? table name).isSome

/-- Writes a value under a name, in the place that the order of names gives. -/
def insert (name : String) (value : α) : Keyed α → Keyed α
  | [] => [(name, value)]
  | entry :: rest =>
      if name = entry.1 then (name, value) :: rest
      else if name < entry.1 then (name, value) :: entry :: rest
      else entry :: insert name value rest

/-- Forgets the value under a name. -/
def erase (table : Keyed α) (name : String) : Keyed α :=
  List.filter (fun entry => !(entry.1 == name)) table

/-- The names of a table, in order. -/
def names (table : Keyed α) : List String :=
  List.map Prod.fst table

/-- The table of a list of pairs; of two pairs with one name the later counts. -/
def ofPairs (pairs : List (String × α)) : Keyed α :=
  pairs.foldl (fun table pair => insert pair.1 pair.2 table) []

/-- Writes every entry of `upper` over `lower`. -/
def overlay (lower upper : Keyed α) : Keyed α :=
  List.foldl (fun table entry => insert entry.1 entry.2 table) lower upper

end Keyed

end DreamWorld
