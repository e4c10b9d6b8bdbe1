import CommentMacros.Job
import CommentMacros.Expansion
import CommentMacros.Session

namespace CommentMacros

structure Summary where
  files : Nat
  changedFiles : Nat
  changedLines : Nat
  nextIndex : Nat
  deriving DecidableEq, Repr

def Summary.text (s : Summary) : Text :=
  "Summary: ".toList ++ Text.grouped s.files ++ " files checked, ".toList ++
    Text.grouped s.changedFiles ++ " files rewritten, ".toList ++
    Text.grouped s.changedLines ++ " lines rewritten, next index ".toList ++
    Text.decimal s.nextIndex

namespace Sweep

structure State where
  session : Session
  counter : Nat
  changedFiles : Nat
  changedLines : Nat
  percent : Nat

def State.start (s : Session) : State := ⟨s, 0, 0, 0, 0⟩

def State.post (st : State) (n : Notice) : State := { st with session := st.session.post n }

def State.keep (st : State) (job : Job) (file : SourceFile) (e : Expanded) : State :=
  let session :=
    if job.dryRun then st.session else st.session.write file.route (Utf8.encode e.text)
  { st with
    session := (session.post (.processed file.path)).post (.replaced file.path e.linesHit)
    changedFiles := st.changedFiles + 1
    changedLines := st.changedLines + e.linesHit }

/-- Works on one file. Files that are not UTF-8 are passed over. -/
def workOn (job : Job) (st : State) (file : SourceFile) : State × Option Failure :=
  let st := { st with session := st.session.settleFor file.route }
  match st.session.tree.read? file.route with
  | none => (st, some (.inaccessible file.path Refusal.noEntry.message))
  | some content =>
    match Utf8.decode? content with
    | none => (st.post (.skipping file.path), none)
    | some source =>
      let attempt := Attempt.ofSource job.style file.path source st.counter
      let st :=
        { st with
          session := st.session.postAll (attempt.added.map Notice.adding)
          counter := attempt.result.counter }
      match attempt.result.outcome with
      | .error f => (st, some f)
      | .ok e => (if e.isChanged then st.keep job file e else st, none)

def reportingSize : Nat := 1000

/-- The percentage to report before the file with the given index. -/
def percentAt (total index : Nat) : Nat := index * 100 / total + 1

def State.report (st : State) (total index : Nat) : State :=
  let percent := percentAt total index
  if total < reportingSize ∨ percent = st.percent then st
  else { st.post (.progress percent) with percent := percent }

/-- Works on files up to the first failure. The first of them has the given index. -/
def workThrough (job : Job) (total : Nat) : Nat → List SourceFile → State → State × Option Failure
  | _, [], st => (st, none)
  | index, file :: files, st =>
    match workOn job (st.report total index) file with
    | (st, some f) => (st, some f)
    | (st, none) => workThrough job total (index + 1) files st

def run (job : Job) (s : Session) : Session × Except Failure Summary :=
  match job.files s.tree with
  | .error f => (s, .error f)
  | .ok files =>
    let st := State.start (s.post (.processing files.length))
    match workThrough job files.length 0 files st with
    | (st, some f) => (st.session, .error f)
    | (st, none) =>
      (st.session, .ok ⟨files.length, st.changedFiles, st.changedLines, st.counter⟩)

end Sweep

end CommentMacros
