import PolyFront.Collection.Table

/-!
# Multimaps

A multimap binds each key to a set of values.  The values of a key keep the order
in which they were inserted, and a key without values is not bound.
-/

namespace PolyFront

structure Multimap (κ ν : Type) where
  table : Table κ (List ν)
deriving DecidableEq, Repr, Inhabited

namespace Multimap

variable {κ ν : Type} [BEq κ] [BEq ν]

def empty : Multimap κ ν := ⟨Table.empty⟩

/-- The values of a key, oldest first. -/
def get (multimap : Multimap κ ν) (key : κ) : List ν := (multimap.table.get? key).getD []

def containsKey (multimap : Multimap κ ν) (key : κ) : Bool := multimap.table.contains key

def contains (multimap : Multimap κ ν) (key : κ) (value : ν) : Bool :=
  (multimap.get key).contains value

/-- The number of keys. -/
def size (multimap : Multimap κ ν) : Nat := multimap.table.size

def isEmpty (multimap : Multimap κ ν) : Bool := multimap.table.entries.isEmpty

/-- Add a pair, unless it is there already. -/
def insert (multimap : Multimap κ ν) (key : κ) (value : ν) : Multimap κ ν :=
  if multimap.contains key value then multimap
  else ⟨multimap.table.insert key (multimap.get key ++ [value])⟩

/-- Remove a pair. -/
def remove (multimap : Multimap κ ν) (key : κ) (value : ν) : Multimap κ ν :=
  if multimap.contains key value then
    match (multimap.get key).erase value with
    | [] => ⟨multimap.table.erase key⟩
    | rest => ⟨multimap.table.insert key rest⟩
  else multimap

/-- Remove every value of a key. -/
def removeAll (multimap : Multimap κ ν) (key : κ) : Multimap κ ν :=
  ⟨multimap.table.erase key⟩

/-- Add a pair, and tell whether it was not there yet. -/
def tryInsert (multimap : Multimap κ ν) (key : κ) (value : ν) : Bool × Multimap κ ν :=
  (!multimap.contains key value, multimap.insert key value)

/-- Remove a pair, and tell whether it was there. -/
def tryRemove (multimap : Multimap κ ν) (key : κ) (value : ν) : Bool × Multimap κ ν :=
  (multimap.contains key value, multimap.remove key value)

/-- Remove every value of a key, and hand them out. -/
def takeAll (multimap : Multimap κ ν) (key : κ) : List ν × Multimap κ ν :=
  (multimap.get key, multimap.removeAll key)

/-- Insert pairs from left to right. -/
def extend (multimap : Multimap κ ν) (pairs : List (κ × ν)) : Multimap κ ν :=
  pairs.foldl (fun acc pair => acc.insert pair.1 pair.2) multimap

def ofList (pairs : List (κ × ν)) : Multimap κ ν := empty.extend pairs

end Multimap

end PolyFront
