import CommentMacros.Tree.Resolve

namespace CommentMacros.Tree

/-- Makes the directory at the end of a trail. The last step is not followed if it is a link. -/
def makeDirectory (t : Tree) (start : Route) (trail : List Bytes) : Except Refusal Tree :=
  match trail.getLast? with
  | none => .error .exists
  | some name =>
    match t.lookupFrom linkLimit start trail.dropLast with
    | .refused why => .error why
    | .vacant _ => .error .noEntry
    | .found r =>
      if !t.isDirectoryAt r then .error .notDirectory
      else if name = Path.here ∨ name = Path.above then .error .exists
      else if nameLimit < name.length then .error .tooLong
      else if (t.node? (r ++ [name])).isSome then .error .exists
      else .ok (t.put (r ++ [name]) .directory)

def leadsToDirectory (t : Tree) (start : Route) (trail : List Bytes) : Bool :=
  match t.lookupFrom linkLimit start trail with
  | .found r => t.isDirectoryAt r
  | _ => false

/-- Makes a directory with those above it. The trail is given backwards. -/
def makeDirectories (t : Tree) (start : Route) : List Bytes → Except Refusal Tree
  | [] => .ok t
  | name :: above =>
    let trail := (name :: above).reverse
    match t.makeDirectory start trail with
    | .ok t => .ok t
    | .error .noEntry =>
      match t.makeDirectories start above with
      | .error why => .error why
      | .ok t =>
        match t.makeDirectory start trail with
        | .ok t => .ok t
        | .error why => if t.leadsToDirectory start trail then .ok t else .error why
    | .error why => if t.leadsToDirectory start trail then .ok t else .error why

def ensureDirectory (t : Tree) (p : Path) : Except Refusal Tree :=
  match p.refusal? with
  | some why => .error why
  | none => t.makeDirectories (origin t.home p) p.trail.reverse

/-- Makes an empty file, or empties the one that the path leads to, and tells its route. -/
def createFile (t : Tree) (p : Path) : Except Refusal (Tree × Route) :=
  match t.lookup p with
  | .refused why => .error why
  | .vacant r => .ok (t.write r [], r)
  | .found r => if t.isDirectoryAt r then .error .isDirectory else .ok (t.write r [], r)

end CommentMacros.Tree
