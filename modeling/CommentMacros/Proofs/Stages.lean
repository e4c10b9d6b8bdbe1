import CommentMacros.Proofs.JobFiles
import Mathlib.Algebra.Ring.Nat

namespace CommentMacros

/-- The tree and the counter between two files of a job. -/
structure Stage where
  tree : Tree
  counter : Nat

namespace Stage

def source? (g : Stage) (file : SourceFile) : Option Text :=
  (g.tree.read? file.route).bind Utf8.decode?

def result? (job : Job) (g : Stage) (file : SourceFile) : Option (Counted Expanded) :=
  (g.source? file).map fun source =>
    (Attempt.ofSource job.style file.path source g.counter).result

def failure? (job : Job) (g : Stage) (file : SourceFile) : Option Failure :=
  match (g.result? job file).map Counted.outcome with
  | some (.error f) => some f
  | _ => none

/-- The expansion of the file, if it has a rewritten line. -/
def change? (job : Job) (g : Stage) (file : SourceFile) : Option Expanded :=
  match (g.result? job file).map Counted.outcome with
  | some (.ok e) => if e.isChanged then some e else none
  | _ => none

/-- The stage behind a file. A dry run leaves the tree as it is. -/
def next (job : Job) (g : Stage) (file : SourceFile) : Stage where
  tree :=
    match g.change? job file with
    | some e => if job.dryRun then g.tree else g.tree.write file.route (Utf8.encode e.text)
    | none => g.tree
  counter := ((g.result? job file).map (·.counter)).getD g.counter

def after (job : Job) (g : Stage) (files : List SourceFile) : Stage := files.foldl (next job) g

def changes (job : Job) : Stage → List SourceFile → List Expanded
  | _, [] => []
  | g, file :: files => (g.change? job file).toList ++ changes job (g.next job file) files

variable (job : Job) (g : Stage) (file : SourceFile)

theorem result?_of_none (h : g.source? file = none) : g.result? job file = none := by
  rw [result?, h]
  rfl

theorem result?_of_some (source : Text) (h : g.source? file = some source) :
    g.result? job file = some (Attempt.ofSource job.style file.path source g.counter).result := by
  rw [result?, h]
  rfl

theorem failure?_eq_some (f : Failure) (h : g.failure? job file = some f) :
    ∃ source, g.source? file = some source ∧
      (Attempt.ofSource job.style file.path source g.counter).result.outcome = .error f := by
  unfold failure? at h
  cases hsource : g.source? file with
  | none =>
    rw [g.result?_of_none job file hsource] at h
    cases h
  | some source =>
    rw [g.result?_of_some job file source hsource, Option.map_some] at h
    refine ⟨source, rfl, ?_⟩
    cases houtcome : (Attempt.ofSource job.style file.path source g.counter).result.outcome with
    | error f' =>
      rw [houtcome] at h
      rw [Option.some.inj h]
    | ok e =>
      rw [houtcome] at h
      cases h

theorem failure?_of_error (source : Text) (f : Failure) (hsource : g.source? file = some source)
    (h : (Attempt.ofSource job.style file.path source g.counter).result.outcome = .error f) :
    g.failure? job file = some f := by
  rw [failure?, g.result?_of_some job file source hsource, Option.map_some, h]

theorem next_of_none (h : g.source? file = none) :
    g.change? job file = none ∧ g.next job file = g := by
  have hchange : g.change? job file = none := by
    rw [change?, g.result?_of_none job file h]
    rfl
  refine ⟨hchange, ?_⟩
  rw [next, hchange, g.result?_of_none job file h]
  rfl

theorem change?_of_ok (source : Text) (e : Expanded) (hsource : g.source? file = some source)
    (h : (Attempt.ofSource job.style file.path source g.counter).result.outcome = .ok e) :
    g.change? job file = if e.isChanged then some e else none := by
  rw [change?, g.result?_of_some job file source hsource, Option.map_some, h]

theorem change?_eq_some (e : Expanded) (h : g.change? job file = some e) :
    ∃ source, g.source? file = some source ∧ e.isChanged = true ∧
      (Attempt.ofSource job.style file.path source g.counter).result.outcome = .ok e := by
  cases hsource : g.source? file with
  | none =>
    rw [(g.next_of_none job file hsource).1] at h
    cases h
  | some source =>
    rw [change?, g.result?_of_some job file source hsource, Option.map_some] at h
    refine ⟨source, rfl, ?_⟩
    cases houtcome : (Attempt.ofSource job.style file.path source g.counter).result.outcome with
    | error f =>
      rw [houtcome] at h
      cases h
    | ok e' =>
      rw [houtcome] at h
      dsimp only at h
      split_ifs at h with hchanged
      obtain rfl := Option.some.inj h
      exact ⟨hchanged, rfl⟩

theorem next_of_changed (source : Text) (e : Expanded) (hsource : g.source? file = some source)
    (h : g.change? job file = some e) :
    g.next job file =
      ⟨if job.dryRun then g.tree else g.tree.write file.route (Utf8.encode e.text),
        (Attempt.ofSource job.style file.path source g.counter).result.counter⟩ := by
  rw [next, h, g.result?_of_some job file source hsource]
  rfl

theorem next_of_unchanged (source : Text) (hsource : g.source? file = some source)
    (h : g.change? job file = none) :
    g.next job file =
      ⟨g.tree, (Attempt.ofSource job.style file.path source g.counter).result.counter⟩ := by
  rw [next, h, g.result?_of_some job file source hsource]
  rfl

end Stage

namespace Sweep

def State.stage (st : State) (file : SourceFile) : Stage :=
  ⟨(st.session.settleFor file.route).tree, st.counter⟩

def State.facing (st : State) (file : SourceFile) : State :=
  { st with session := st.session.settleFor file.route }

def State.tried (st : State) (attempt : Attempt) : State :=
  { st with
    session := st.session.postAll (attempt.added.map Notice.adding)
    counter := attempt.result.counter }

/-- A file is missing, is passed over, fails or is expanded. -/
theorem workOn_cases (job : Job) (st : State) (file : SourceFile) :
    ((st.stage file).tree.read? file.route = none ∧
      workOn job st file =
        (st.facing file, some (.inaccessible file.path Refusal.noEntry.message))) ∨
    ((st.stage file).source? file = none ∧
      workOn job st file = ((st.facing file).post (.skipping file.path), none)) ∨
    ∃ source, (st.stage file).source? file = some source ∧
      ((∃ f, (Attempt.ofSource job.style file.path source st.counter).result.outcome = .error f ∧
        workOn job st file =
          ((st.facing file).tried (Attempt.ofSource job.style file.path source st.counter),
            some f)) ∨
      ∃ e, (Attempt.ofSource job.style file.path source st.counter).result.outcome = .ok e ∧
        workOn job st file =
          (let st' :=
            (st.facing file).tried (Attempt.ofSource job.style file.path source st.counter)
           if e.isChanged then st'.keep job file e else st', none)) := by
  unfold Stage.source? workOn
  dsimp only [State.stage]
  cases hread : (st.session.settleFor file.route).tree.read? file.route with
  | none => exact Or.inl ⟨rfl, rfl⟩
  | some content =>
    rw [Option.bind_some]
    dsimp only
    cases hdecode : Utf8.decode? content with
    | none => exact Or.inr (Or.inl ⟨rfl, rfl⟩)
    | some source =>
      refine Or.inr (Or.inr ⟨source, rfl, ?_⟩)
      dsimp only
      cases houtcome : (Attempt.ofSource job.style file.path source st.counter).result.outcome with
      | error f => exact Or.inl ⟨f, rfl, rfl⟩
      | ok e => exact Or.inr ⟨e, rfl, rfl⟩

def State.base (st : State) : Stage := ⟨st.session.tree, st.counter⟩

/-- One state leads to another by way of these changes. -/
structure Reaches (st : State) (es : List Expanded) (g : Stage) (st' : State) : Prop where
  base : st'.base = g
  log : st'.session.log.map Log.route = st.session.log.map Log.route
  files : st'.changedFiles = st.changedFiles + es.length
  lines : st'.changedLines = st.changedLines + (es.map (·.linesHit)).sum

theorem Reaches.trans {st mid st' : State} {es fs : List Expanded} {g g' : Stage}
    (h : Reaches st es g mid) (h' : Reaches mid fs g' st') : Reaches st (es ++ fs) g' st' where
  base := h'.base
  log := h'.log.trans h.log
  files := by
    rw [h'.files, h.files, List.length_append, Nat.add_assoc]
  lines := by
    rw [h'.lines, h.lines, List.map_append, List.sum_append, Nat.add_assoc]

theorem reaches_report (st : State) (total index : Nat) :
    Reaches st [] st.base (st.report total index) := by
  unfold State.report
  dsimp only
  split_ifs
  · exact ⟨rfl, rfl, rfl, rfl⟩
  · exact ⟨rfl, st.session.log_post _, rfl, rfl⟩

theorem reaches_tried (st : State) (attempt : Attempt) :
    Reaches st [] ⟨st.session.tree, attempt.result.counter⟩ (st.tried attempt) :=
  ⟨by rw [State.base, State.tried, Session.tree_postAll], st.session.log_postAll _, rfl, rfl⟩

section File

variable (job : Job) (st : State) (file : SourceFile)
  (hlog : st.session.log.map Log.route ≠ some file.route)

include hlog

theorem facing_of_apart : st.facing file = st := by
  rw [State.facing, st.session.settleFor_of_ne file.route hlog]

theorem stage_of_apart : st.stage file = st.base := by
  rw [State.stage, st.session.settleFor_of_ne file.route hlog]
  rfl

theorem workOn_of_failure (f : Failure) (hf : st.base.failure? job file = some f) :
    (workOn job st file).2 = some f ∧ (workOn job st file).1.session.tree = st.session.tree := by
  obtain ⟨source, hsource, houtcome⟩ := st.base.failure?_eq_some job file f hf
  have hcases := workOn_cases job st file
  rw [stage_of_apart st file hlog, facing_of_apart st file hlog] at hcases
  rcases hcases with ⟨hread, -⟩ | ⟨hnone, -⟩ |
    ⟨source', hsource', ⟨f', houtcome', hwork⟩ | ⟨e, houtcome', -⟩⟩
  · rw [Stage.source?, hread] at hsource
    cases hsource
  · rw [hnone] at hsource
    cases hsource
  · obtain rfl : source = source' := Option.some.inj (hsource.symm.trans hsource')
    obtain rfl : f = f' := Except.error.inj (houtcome.symm.trans houtcome')
    rw [hwork]
    exact ⟨rfl, st.session.tree_postAll _⟩
  · obtain rfl : source = source' := Option.some.inj (hsource.symm.trans hsource')
    cases houtcome.symm.trans houtcome'

theorem reaches_keep (e : Expanded) :
    Reaches st [e]
      ⟨if job.dryRun then st.session.tree
        else st.session.tree.write file.route (Utf8.encode e.text), st.counter⟩ (st.keep job file e) := by
  unfold State.keep
  by_cases hdry : job.dryRun
  · simp only [hdry, if_true]
    refine ⟨rfl, ?_, rfl, rfl⟩
    exact (Session.log_post _ _).trans (Session.log_post _ _)
  · simp only [hdry, Session.write, st.session.settleFor_of_ne file.route hlog]
    refine ⟨rfl, ?_, rfl, rfl⟩
    exact (Session.log_post _ _).trans (Session.log_post _ _)

/-- A file that does not fail is gone through as its stage says. -/
theorem workOn_of_success (hin : file.In st.session.tree)
    (hf : st.base.failure? job file = none) :
    ∃ st', workOn job st file = (st', none) ∧
      Reaches st (st.base.change? job file).toList (st.base.next job file) st' := by
  have hcases := workOn_cases job st file
  rw [stage_of_apart st file hlog, facing_of_apart st file hlog] at hcases
  rcases hcases with ⟨hread, -⟩ | ⟨hnone, hwork⟩ |
    ⟨source, hsource, ⟨f, houtcome, -⟩ | ⟨e, houtcome, hwork⟩⟩
  · have hsome : (st.base.tree.read? file.route).isSome := hin.readable
    rw [hread] at hsome
    cases hsome
  · obtain ⟨hchange, hnext⟩ := st.base.next_of_none job file hnone
    rw [hchange, hnext]
    exact ⟨_, hwork, rfl, st.session.log_post _, rfl, rfl⟩
  · rw [st.base.failure?_of_error job file source f hsource houtcome] at hf
    cases hf
  · have hchange := st.base.change?_of_ok job file source e hsource houtcome
    have htried := reaches_tried st (Attempt.ofSource job.style file.path source st.counter)
    refine ⟨_, hwork, ?_⟩
    dsimp only
    split_ifs at hchange ⊢ with hchanged
    · have hkeep := reaches_keep job
        (st.tried (Attempt.ofSource job.style file.path source st.counter)) file
        (htried.log ▸ hlog) e
      rw [hchange, st.base.next_of_changed job file source e hsource hchange]
      have hboth := htried.trans hkeep
      have htree : (st.tried (Attempt.ofSource job.style file.path source
          st.counter)).session.tree = st.session.tree := congrArg Stage.tree htried.base
      rw [htree] at hboth
      exact hboth
    · rw [hchange, st.base.next_of_unchanged job file source hsource hchange]
      exact htried

end File

def State.first (s : Session) (total : Nat) : State := .start (s.post (.processing total))

theorem first_apart (s : Session) (files : List SourceFile)
    (hlog : ∀ l ∈ s.log, ∀ file ∈ files, l.route ≠ file.route) :
    ∀ file ∈ files,
      (State.first s files.length).session.log.map Log.route ≠ some file.route := by
  intro file hfile hroute
  have hkept := (s.log_post (.processing files.length)).symm.trans hroute
  obtain ⟨l, hl, hsame⟩ := Option.map_eq_some_iff.mp hkept
  exact hlog l hl file hfile hsame

theorem run_of_files (job : Job) (s : Session) (files : List SourceFile)
    (h : job.files s.tree = .ok files) :
    (run job s).1 = (workThrough job files.length 0 files (.first s files.length)).1.session ∧
    (∀ f, (workThrough job files.length 0 files (.first s files.length)).2 = some f →
      (run job s).2 = .error f) ∧
    ((workThrough job files.length 0 files (.first s files.length)).2 = none →
      (run job s).2 = .ok ⟨files.length,
        (workThrough job files.length 0 files (.first s files.length)).1.changedFiles,
        (workThrough job files.length 0 files (.first s files.length)).1.changedLines,
        (workThrough job files.length 0 files (.first s files.length)).1.counter⟩) := by
  rw [run, h]
  dsimp only
  rcases hwork : workThrough job files.length 0 files (.first s files.length) with ⟨st, _ | f⟩
  · rw [State.first] at hwork
    rw [hwork]
    exact ⟨rfl, by simp, fun _ => rfl⟩
  · rw [State.first] at hwork
    rw [hwork]
    refine ⟨rfl, ?_, by simp⟩
    intro f' hf'
    rw [Option.some.inj hf']

end Sweep

end CommentMacros
