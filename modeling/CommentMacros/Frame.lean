import CommentMacros.Session

namespace CommentMacros

/-- When a run began: the day as `2025-01-31`, the time of day as `23-59-59`, and the two together
as `2025-01-31 23:59:59`. -/
structure Moment where
  date : Text
  time : Text
  stamp : Text
  deriving DecidableEq, Repr

structure Ending where
  stamp : Text
  elapsed : Text
  deriving DecidableEq, Repr

namespace Session

def logDirectory (root : Path) (tool : Text) (began : Moment) : Path :=
  (root.join (Utf8.encode tool)).join (Utf8.encode began.date)

def logPath (root : Path) (tool : Text) (began : Moment) : Path :=
  (logDirectory root tool began).join
    (Utf8.encode ("run-".toList ++ began.time ++ ".log".toList))

/-- Begins a log. If the file cannot be made, the run goes on without. -/
def openLog (s : Session) (root : Path) (tool : Text) (began : Moment) : Session :=
  let path := logPath root tool began
  match (s.tree.ensureDirectory (logDirectory root tool began)).bind (·.createFile path) with
  | .ok (tree, route) => { s with tree := tree, log := some ⟨path, route, 0, []⟩ }
  | .error why =>
    (s.tell .errorOnly ("Warning: Could not create log file: ".toList ++ why.message)).tell
      .errorOnly "Continuing without logging...".toList

def closeLog (s : Session) (began : Moment) (ended : Ending) (summary : Text) : Session :=
  let s := s.postAll <| [
    [], "=== Run Summary ===".toList, summary,
    "Started: ".toList ++ began.stamp,
    "Ended: ".toList ++ ended.stamp,
    "Duration: ".toList ++ ended.elapsed ++ "ms".toList].map (Notice.other .log)
  match s.log with
  | none => s
  | some l => s.tell .screen ("Log saved to: ".toList ++ l.path.display)

end Session

/-- What goes around a run: a banner before it, its summary and its time behind it, and a log file
if one is wanted. -/
structure Frame where
  tool : Text
  banner : Text
  logs : Option Path
  deriving DecidableEq, Repr

namespace Frame

def prepare (frame : Frame) (began : Moment) (s : Session) : Session :=
  let s := (s.tell .screenOnly frame.banner).tell .screenOnly []
  let s := match frame.logs with
    | some root => s.openLog root frame.tool began
    | none => s
  s.tell .log frame.banner

def conclude (frame : Frame) (began : Moment) (ended : Ending) (summary : Text) (s : Session) :
    Session :=
  let s := ((s.tell .screenOnly []).tell .screenOnly summary).tell .screenOnly
    ("Completed in ".toList ++ ended.elapsed ++ "ms".toList)
  if frame.logs.isSome then s.closeLog began ended summary else s

end Frame

end CommentMacros
