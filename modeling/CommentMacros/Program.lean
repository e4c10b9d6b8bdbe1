import CommentMacros.Sweep
import CommentMacros.Options.Parser
import CommentMacros.Frame

namespace CommentMacros.Program

structure Report where
  exitCode : Nat
  screen : Text
  errors : Text
  tree : Tree

def explain (message : Text) : Text := message ++ "\n\n".toList ++ Usage.help ++ "\n".toList

structure Plan where
  job : Job
  log : Bool
  deriving DecidableEq, Repr

/-- What a command line asks for: a run, or an answer at once. -/
def plan (args : List Bytes) (tree : Tree) : Except Report Plan :=
  match Options.parse args with
  | .error .helpWanted => .error ⟨0, UsageError.helpWanted.message, [], tree⟩
  | .error e => .error ⟨e.exitCode, [], e.message, tree⟩
  | .ok options =>
    match options.job with
    | .error f => .error ⟨1, Usage.banner ++ "\n\n".toList ++ explain f.message, [], tree⟩
    | .ok job => .ok ⟨job, options.log⟩

def logsRoot : Path := Utf8.encode "logs".toList

def Plan.frame (p : Plan) : Frame :=
  ⟨Usage.program, Usage.banner, if p.log then some logsRoot else none⟩

structure Run where
  plan : Plan
  began : Moment
  session : Session
  outcome : Except Failure Summary

def Plan.run (p : Plan) (began : Moment) (tree : Tree) : Run :=
  let done := Sweep.run p.job (p.frame.prepare began (Session.start tree))
  ⟨p, began, done.1, done.2⟩

/-- The report on a run. Even a run that failed exits with zero, unless it could not match files at
all: then it breaks off, and nothing is explained. -/
def Run.report (r : Run) (ended : Ending) : Report :=
  match r.outcome with
  | .ok summary =>
    let s := (r.plan.frame.conclude r.began ended summary.text r.session).settle
    ⟨0, s.screen, s.errors, s.tree⟩
  | .error .maskTooComplex =>
    let s := r.session.settle
    ⟨101, s.screen, s.errors ++ Failure.maskTooComplex.message ++ "\n".toList, s.tree⟩
  | .error f =>
    let s := r.session.settle
    ⟨0, s.screen ++ explain f.message, s.errors, s.tree⟩

end CommentMacros.Program
