/-! A map of bounded size that forgets the key used longest ago. Its entries stand in the order of
their last use; to look a key up and find it, and to insert it, is to use it. -/

namespace XPathSyntax

structure RecencyMap (κ ν : Type) where
  capacity : Nat
  /-- The least recently used entry stands first. -/
  entries : List (κ × ν) := []

namespace RecencyMap

variable {κ ν : Type} [BEq κ]

def empty (capacity : Nat) : RecencyMap κ ν :=
  { capacity }

def size (m : RecencyMap κ ν) : Nat :=
  m.entries.length

def isEmpty (m : RecencyMap κ ν) : Bool :=
  m.entries.isEmpty

def find? (m : RecencyMap κ ν) (key : κ) : Option ν :=
  m.entries.lookup key

def contains (m : RecencyMap κ ν) (key : κ) : Bool :=
  (m.find? key).isSome

def others (m : RecencyMap κ ν) (key : κ) : List (κ × ν) :=
  m.entries.filter fun entry => !(entry.1 == key)

def place (m : RecencyMap κ ν) (key : κ) (value : ν) : RecencyMap κ ν :=
  { m with entries := m.others key ++ [(key, value)] }

def get (m : RecencyMap κ ν) (key : κ) : Option ν × RecencyMap κ ν :=
  match m.find? key with
  | some value => (some value, m.place key value)
  | none => (none, m)

/-- Inserts an entry or replaces its value. A new key pushes out the least recently used entry if
the map is full. -/
def insert (m : RecencyMap κ ν) (key : κ) (value : ν) : Option (κ × ν) × RecencyMap κ ν :=
  if m.capacity = 0 then (none, m)
  else if m.contains key then (none, m.place key value)
  else if m.size < m.capacity then (none, m.place key value)
  else (m.entries.head?, { m with entries := m.entries.tail ++ [(key, value)] })

def clear (m : RecencyMap κ ν) : RecencyMap κ ν :=
  { m with entries := [] }

end RecencyMap
end XPathSyntax
