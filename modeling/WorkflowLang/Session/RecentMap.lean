/-!
# Bounded maps that forget what was used least recently

A recent map keeps its entries in the order of their last use, the most recent
first.  Looking an entry up or writing it is a use.  Writing a new key into a
full map drops the entry at the end.
-/

namespace WorkflowLang

/-- A map from texts that holds at most `capacity` entries. -/
structure RecentMap (α : Type) where
  capacity : Nat
  /-- The entries, most recently used first. -/
  entries : List (String × α)
  deriving DecidableEq, Inhabited, Repr

namespace RecentMap

variable {α : Type}

def empty (capacity : Nat) : RecentMap α := ⟨capacity, []⟩

def size (recent : RecentMap α) : Nat := recent.entries.length

def get? (recent : RecentMap α) (key : String) : Option α :=
  recent.entries.lookup key

def others (recent : RecentMap α) (key : String) : List (String × α) :=
  recent.entries.filter fun entry => entry.1 != key

/-- Makes a key the most recently used one, if the map has it. -/
def touch (recent : RecentMap α) (key : String) : RecentMap α :=
  match recent.get? key with
  | none => recent
  | some value =>
      { recent with entries := (key, value) :: recent.others key }

/-- Gives a key a value and makes it the most recently used one. -/
def insert (recent : RecentMap α) (key : String) (value : α) :
    RecentMap α :=
  let kept :=
    if (recent.get? key).isNone && recent.capacity ≤ recent.size then
      recent.entries.dropLast
    else recent.others key
  { recent with entries := (key, value) :: kept }

def erase (recent : RecentMap α) (key : String) : RecentMap α :=
  { recent with entries := recent.others key }

end RecentMap
end WorkflowLang
