import CommentMacros.Program
import Std.Time.Format

namespace CommentMacros.Program

def systemPath (r : Route) : Path := if r = [] then [Path.slash] else r.flatMap (Path.slash :: ·)

def systemName (r : Route) : String := String.ofList (systemPath r).display

def routeOf (path : String) : Route := Path.steps (Utf8.encode path.toList)

def realRoute? (r : Route) : IO (Option Route) := do
  try return some (routeOf (← IO.FS.realPath (systemName r)).toString)
  catch _ => return none

def loadRoute (t : Tree) (r : Route) : IO Tree := do
  let t := (List.range' 1 (r.length - 1)).foldl (fun t n => t.put (r.take n) .directory) t
  match (← (← IO.FS.realPath (systemName r)).metadata).type with
  | .dir => return if r = [] then t else t.put r .directory
  | .file => return t.put r (.file (← IO.FS.readBinFile (systemName r)).toList)
  | _ => return t

/-- Adds what a trail leads through, with the links on its way, and tells where it ends. -/
def loadTrail : List Bytes → Route → Tree → IO (Tree × Option Route)
  | [], r, t => return (t, some r)
  | s :: rest, r, t => do
    if s = Path.here then loadTrail rest r t
    else if s = Path.above then loadTrail rest r.dropLast t
    else
      match ← realRoute? (r ++ [s]) with
      | none => return (t, none)
      | some real =>
        let t ← loadRoute t real
        let t := if real = r ++ [s] then t else t.put (r ++ [s]) (.link (systemPath real))
        loadTrail rest real t

/-- Adds everything below a directory. Files of other names than wanted stay unread. -/
partial def loadBelow (wanted : Bytes → Bool) (t : Tree) (r : Route) : IO Tree := do
  let entries ← (← IO.FS.realPath (systemName r)).readDir
  entries.foldlM (fun t entry => do
    let name := Utf8.encode entry.fileName.toList
    let place := r ++ [name]
    match (← entry.path.symlinkMetadata).type with
    | .dir => loadBelow wanted (t.put place .directory) place
    | .file =>
      let content ← if wanted name then pure (← IO.FS.readBinFile entry.path).toList else pure []
      return t.put place (.file content)
    | .symlink =>
      match ← realRoute? place with
      | some real => return t.put place (.link (systemPath real))
      | none => return t
    | .other => return t) t

/-- Adds what a path leads to, and everything below it if there are files to look for. -/
def loadPath (wanted : Option (Bytes → Bool)) (t : Tree) (p : Path) : IO Tree := do
  if p = [] then return t
  let (t, place) ← loadTrail p.trail (Tree.origin t.home p) t
  match place, wanted with
  | some r, some wanted => if t.isDirectoryAt r then loadBelow wanted t r else return t
  | _, _ => return t

def Plan.load (p : Plan) (began : Moment) : IO Tree := do
  let home := routeOf (← IO.currentDir).toString
  let wanted := (Mask.parse p.job.mask).toOption.map (·.pattern.admits)
  let t ← loadRoute { Tree.empty with home := home } home
  let t ← p.job.directories.foldlM (loadPath wanted) t
  if p.log then
    return (← loadTrail (Session.logPath logsRoot Usage.program began).trail home t).1
  else return t

def store (before after : Tree) : IO Unit :=
  after.entries.forM fun (r, node) => do
    match node with
    | .directory => if (before.node? r).isNone then IO.FS.createDirAll (systemName r)
    | .file content =>
      if before.read? r ≠ some content then
        IO.FS.writeBinFile (systemName r) ⟨content.toArray⟩
    | .link _ => pure ()

def now : IO Moment := do
  let t ← Std.Time.PlainDateTime.now
  return ⟨(t.format "uuuu-MM-dd").toList, (t.format "HH-mm-ss").toList,
    (t.format "uuuu-MM-dd HH:mm:ss").toList⟩

def Report.print (r : Report) : IO UInt32 := do
  IO.print (String.ofList r.screen)
  IO.eprint (String.ofList r.errors)
  return r.exitCode.toUInt32

end CommentMacros.Program

open CommentMacros

/-- What the arguments name is read into a tree, the run works on that tree, and the files that it
changed or made are written back. -/
def main (args : List String) : IO UInt32 := do
  let words := Usage.program :: args.map String.toList
  match Program.plan (words.map Utf8.encode) Tree.empty with
  | .error report => report.print
  | .ok plan =>
    let start ← IO.monoMsNow
    let began ← Program.now
    let before ← plan.load began
    let run := plan.run began before
    let ended ← Program.now
    let elapsed := (← IO.monoMsNow) - start
    let report := run.report ⟨ended.stamp, Text.decimal elapsed⟩
    Program.store before report.tree
    report.print
