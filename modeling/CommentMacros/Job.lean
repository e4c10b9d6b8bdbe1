import CommentMacros.Failure
import CommentMacros.Comment
import CommentMacros.Mask.Parser
import CommentMacros.Tree.Resolve

namespace CommentMacros

structure Job where
  directories : List Path
  mask : Text
  style : CommentStyle
  dryRun : Bool
  deriving DecidableEq, Repr

/-- A file to work on: the path it is called by and the place where it lies. -/
structure SourceFile where
  path : Path
  route : Route
  deriving DecidableEq, Repr

/-- The file of an entry that lies below the directory `dir` on the route `base`, if the pattern
admits its name. Links are not files. -/
def SourceFile.listed? (p : Pattern) (dir : Path) (base : Route) :
    Route × Node → Option SourceFile
  | (r, .file _) =>
    match afterLead? base r with
    | none => none
    | some below =>
      if below.getLast?.any p.admits then some ⟨below.foldl Path.join dir, r⟩ else none
  | _ => none

namespace Tree

def filesBelow (t : Tree) (p : Pattern) (dir : Path) (base : Route) : List SourceFile :=
  t.entries.filterMap (SourceFile.listed? p dir base)

/-- The directories of a job with their routes, up to the first that is none. -/
def directories (t : Tree) : List Path → Except Failure (List (Path × Route))
  | [] => .ok []
  | dir :: dirs =>
    match t.directory? dir with
    | none => .error (.notADirectory dir)
    | some r => (t.directories dirs).map ((dir, r) :: ·)

end Tree

/-- The files of a job, directory by directory as they are named, and below each in the order of
the tree. The directories are looked at before the mask. -/
def Job.files (job : Job) (t : Tree) : Except Failure (List SourceFile) :=
  if job.directories = [] then .error .noDirectory
  else
    match t.directories job.directories with
    | .error f => .error f
    | .ok dirs =>
      match Mask.parse job.mask with
      | .error fault => .error (.badMask job.mask fault)
      | .ok mask =>
        if mask.isManageable then .ok (dirs.flatMap fun d => t.filesBelow mask.pattern d.1 d.2)
        else .error .maskTooComplex

end CommentMacros
