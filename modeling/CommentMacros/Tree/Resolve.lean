import CommentMacros.Tree.Basic

namespace CommentMacros

inductive Refusal where
  | noEntry
  | exists
  | notDirectory
  | isDirectory
  | tooManyLinks
  | tooLong
  | zeroByte
  deriving DecidableEq, Repr

def Refusal.message : Refusal → Text
  | .noEntry => "No such file or directory (os error 2)".toList
  | .exists => "File exists (os error 17)".toList
  | .notDirectory => "Not a directory (os error 20)".toList
  | .isDirectory => "Is a directory (os error 21)".toList
  | .tooManyLinks => "Too many levels of symbolic links (os error 40)".toList
  | .tooLong => "File name too long (os error 36)".toList
  | .zeroByte => "file name contained an unexpected NUL byte".toList

/-- The steps of a path on its way through a tree. A slash at the end asks for a directory, as
one more step to itself does. -/
def Path.trail (p : Path) : List Bytes :=
  p.steps ++ if (p.splitOn slash).getLast?.any fun s => s = [] ∨ s = here then [here] else []

def Path.limit : Nat := 4095

def Path.refusal? (p : Path) : Option Refusal :=
  if 0 ∈ p then some .zeroByte else if limit < p.length then some .tooLong else none

namespace Tree

def nameLimit : Nat := 255

inductive Lookup where
  | found (r : Route)
  | vacant (r : Route)
  | refused (why : Refusal)
  deriving DecidableEq, Repr

/-- Goes through the steps of a path from a directory; `onLink` takes over at the first link. So
`..` behind a link leads above the place that the link points to. -/
def follow (t : Tree) (onLink : Route → Path → List Bytes → Lookup) :
    Route → List Bytes → Lookup
  | r, [] => .found r
  | r, s :: rest =>
    if s = Path.here then follow t onLink r rest
    else if s = Path.above then follow t onLink r.dropLast rest
    else if nameLimit < s.length then .refused .tooLong
    else
      match t.node? (r ++ [s]) with
      | some .directory => follow t onLink (r ++ [s]) rest
      | some (.file _) => if rest = [] then .found (r ++ [s]) else .refused .notDirectory
      | some (.link target) => onLink r target rest
      | none => if rest = [] then .vacant (r ++ [s]) else .refused .noEntry

def origin (r : Route) (p : Path) : Route := if p.isAbsolute then [] else r

/-- Goes through the steps of a path, following at most `links` links. -/
def lookupFrom (t : Tree) : Nat → Route → List Bytes → Lookup
  | 0, r, trail => t.follow (fun _ _ _ => .refused .tooManyLinks) r trail
  | links + 1, r, trail =>
    t.follow (fun r target rest => t.lookupFrom links (origin r target) (target.trail ++ rest))
      r trail

def linkLimit : Nat := 40

/-- Where a path leads to. The empty path leads nowhere. -/
def lookup (t : Tree) (p : Path) : Lookup :=
  match p.refusal? with
  | some why => .refused why
  | none =>
    if p = [] then .refused .noEntry else t.lookupFrom linkLimit (origin t.home p) p.trail

def directory? (t : Tree) (p : Path) : Option Route :=
  match t.lookup p with
  | .found r => if t.isDirectoryAt r then some r else none
  | _ => none

end Tree

end CommentMacros
