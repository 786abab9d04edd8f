/-!
Contract: what the names of a score stand for.

Owns:
- the table from names to definitions, kept in the order of the names' UTF-8 bytes;
- defining a name, where the first definition stays.

Does not own: which definitions a score holds, or what is reported when a name is
defined twice.
-/

namespace Solfege

namespace NameTable

/-- What a name stands for, by place. Places count from one. -/
inductive Entry where
  | macroAt (index : Nat)
  | movementAt (track movement : Nat)
deriving DecidableEq, Repr

/-- The bytes of a name in UTF-8, by which names are ordered. -/
def bytes (name : String) : List UInt8 :=
  name.toUTF8.data.toList

/-- Puts a new name into a list of names that is in order. -/
def place (name : String) (entry : Entry) :
    List (String × Entry) → List (String × Entry)
  | [] => [(name, entry)]
  | (other, existing) :: rest =>
      if bytes name < bytes other then
        (name, entry) :: (other, existing) :: rest
      else
        (other, existing) :: place name entry rest

end NameTable

/-- The names of a score and what each stands for, in the order of the names. -/
structure NameTable where
  entries : List (String × NameTable.Entry)
deriving DecidableEq, Repr

namespace NameTable

def empty : NameTable := ⟨[]⟩

def get? (table : NameTable) (name : String) : Option Entry :=
  table.entries.lookup name

def contains (table : NameTable) (name : String) : Bool :=
  (table.get? name).isSome

/-- The place of the macro that a name stands for. -/
def macroIndex? (table : NameTable) (name : String) : Option Nat :=
  match table.get? name with
  | some (.macroAt index) => some index
  | _ => none

/-- Gives a name its meaning. A name that has one keeps it, and that one is answered. -/
def define (table : NameTable) (name : String) (entry : Entry) : Except Entry NameTable :=
  match table.get? name with
  | some existing => .error existing
  | none => .ok ⟨place name entry table.entries⟩

def size (table : NameTable) : Nat :=
  table.entries.length

def isEmpty (table : NameTable) : Bool :=
  table.entries.isEmpty

/-- The names with what they stand for, in the order of the names. -/
def toList (table : NameTable) : List (String × Entry) :=
  table.entries

end NameTable

end Solfege
