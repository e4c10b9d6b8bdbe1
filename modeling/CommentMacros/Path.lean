import CommentMacros.Utf8

namespace CommentMacros

/-- A file path as the system knows it: bytes, with names separated by slashes. -/
abbrev Path := Bytes

namespace Path

def slash : UInt8 := 0x2F

def here : Bytes := [0x2E]

def above : Bytes := [0x2E, 0x2E]

def isAbsolute (p : Path) : Bool := p.head? == some slash

/-- The names on the way, without those that lead nowhere: empty ones and `.`. -/
def steps (p : Path) : List Bytes := (p.splitOn slash).filter fun s => s ≠ [] ∧ s ≠ here

/-- The name of the file that the path ends in. A path without steps and one that ends in `..`
have none. -/
def fileName? (p : Path) : Option Bytes := p.steps.getLast?.filter (· ≠ above)

def display (p : Path) : Text := Utf8.lossy p

/-- Continues `p` with `q`; an absolute `q` stands for itself. -/
def join (p q : Path) : Path :=
  if q.isAbsolute then q
  else if p = [] ∨ p.getLast? = some slash then p ++ q
  else p ++ slash :: q

end Path

end CommentMacros
