import CommentMacros.Proofs.NoRollback

namespace CommentMacros

namespace Tree

def AgreeOn (files : List SourceFile) (t t' : Tree) : Prop :=
  ∀ file ∈ files, t'.read? file.route = t.read? file.route

theorem AgreeOn.write {files : List SourceFile} {t t' : Tree} (h : AgreeOn files t t') (r : Route)
    (content : Bytes) (hr : r ≠ []) (hapart : ∀ file ∈ files, file.route ≠ r) :
    AgreeOn files t (t'.write r content) := by
  intro file hfile
  rw [read?_write hr, if_neg (hapart file hfile)]
  exact h file hfile

end Tree

namespace Session

/-- The session with another tree. -/
def onto (s : Session) (t : Tree) : Session := { s with tree := t }

theorem postAll_onto (s : Session) (t : Tree) (ns : List Notice) :
    (s.onto t).postAll ns = (s.postAll ns).onto t := by
  induction ns generalizing s with
  | nil => rfl
  | cons n ns ih => exact ih (s.post n)

end Session

namespace Sweep

def State.onto (st : State) (t : Tree) : State := { st with session := st.session.onto t }

theorem report_onto (st : State) (t : Tree) (total index : Nat) :
    (st.onto t).report total index = (st.report total index).onto t := by
  unfold State.report
  dsimp only
  split_ifs with hquiet hquiet' hquiet'
  · rfl
  · exact absurd hquiet hquiet'
  · exact absurd hquiet' hquiet
  · rfl

theorem tried_onto (st : State) (t : Tree) (attempt : Attempt) :
    (st.onto t).tried attempt = (st.tried attempt).onto t := by
  have hpost := st.session.postAll_onto t (attempt.added.map Notice.adding)
  unfold State.tried
  dsimp only [State.onto]
  rw [hpost]

section File

variable (job : Job) (st : State) (file : SourceFile)
  (hlog : st.session.log.map Log.route ≠ some file.route)

include hlog

theorem tree_workOn_dry :
    (workOn { job with dryRun := true } st file).1.session.tree = st.session.tree ∧
    (workOn { job with dryRun := true } st file).1.session.log.map Log.route =
      st.session.log.map Log.route := by
  have hcases := workOn_cases { job with dryRun := true } st file
  rw [stage_of_apart st file hlog, facing_of_apart st file hlog] at hcases
  rcases hcases with ⟨-, hwork⟩ | ⟨-, hwork⟩ | ⟨source, -, ⟨f, -, hwork⟩ | ⟨e, -, hwork⟩⟩
  · rw [hwork]
    exact ⟨rfl, rfl⟩
  · rw [hwork]
    exact ⟨rfl, st.session.log_post _⟩
  · rw [hwork]
    exact ⟨st.session.tree_postAll _, st.session.log_postAll _⟩
  · rw [hwork]
    have htried := reaches_tried st (Attempt.ofSource job.style file.path source st.counter)
    have htree := congrArg Stage.tree htried.base
    dsimp only
    split_ifs
    · have hkeep := reaches_keep { job with dryRun := true }
        (st.tried (Attempt.ofSource job.style file.path source st.counter)) file
        (htried.log ▸ hlog) e
      exact ⟨(congrArg Stage.tree hkeep.base).trans htree, hkeep.log.trans htried.log⟩
    · exact ⟨htree, htried.log⟩

theorem keep_onto (t : Tree) (e : Expanded) :
    (st.onto t).keep { job with dryRun := false } file e =
      (st.keep { job with dryRun := true } file e).onto
        (t.write file.route (Utf8.encode e.text)) := by
  have hsettle : (st.onto t).session.settleFor file.route = (st.onto t).session :=
    (st.onto t).session.settleFor_of_ne file.route hlog
  unfold State.keep
  simp only [Session.write, hsettle]
  rfl

/-- Working on a file for real does what the dry run says, and writes to that file at most. -/
theorem workOn_onto (t : Tree) (hread : t.read? file.route = st.session.tree.read? file.route) :
    ∃ t', workOn { job with dryRun := false } (st.onto t) file =
        ((workOn { job with dryRun := true } st file).1.onto t',
          (workOn { job with dryRun := true } st file).2) ∧
      (t' = t ∨ ∃ content, t' = t.write file.route content) := by
  have hdry : st.session.settleFor file.route = st.session :=
    st.session.settleFor_of_ne file.route hlog
  have hreal : (st.onto t).session.settleFor file.route = (st.onto t).session :=
    (st.onto t).session.settleFor_of_ne file.route hlog
  have hcontent : (st.onto t).session.tree.read? file.route =
      st.session.tree.read? file.route := hread
  have hcounter : (st.onto t).counter = st.counter := rfl
  unfold workOn
  dsimp only
  rw [hdry, hreal, hcontent, hcounter]
  cases st.session.tree.read? file.route with
  | none => exact ⟨t, rfl, Or.inl rfl⟩
  | some content =>
    dsimp only
    cases Utf8.decode? content with
    | none => exact ⟨t, rfl, Or.inl rfl⟩
    | some source =>
      dsimp only
      have htried := tried_onto st t (Attempt.ofSource job.style file.path source st.counter)
      have htriedlog := (reaches_tried st
        (Attempt.ofSource job.style file.path source st.counter)).log
      cases houtcome : (Attempt.ofSource job.style file.path source st.counter).result.outcome with
      | error f => exact ⟨t, congrArg (·, some f) htried, Or.inl rfl⟩
      | ok e =>
        dsimp only
        split_ifs
        · have hkeep := keep_onto job
            (st.tried (Attempt.ofSource job.style file.path source st.counter)) file
            (htriedlog ▸ hlog) t e
          rw [← htried] at hkeep
          exact ⟨_, congrArg (·, none) hkeep, Or.inr ⟨_, rfl⟩⟩
        · exact ⟨t, congrArg (·, none) htried, Or.inl rfl⟩

end File

/-- The rest of a real run goes as the rest of a dry run, if the files to come have not been
written to. -/
theorem workThrough_onto (job : Job) (total index : Nat) (files : List SourceFile) (st : State)
    (t : Tree) (hdistinct : (files.map (·.route)).Nodup)
    (hroute : ∀ file ∈ files, file.route ≠ [])
    (hlog : ∀ file ∈ files, st.session.log.map Log.route ≠ some file.route)
    (hagree : Tree.AgreeOn files st.session.tree t) :
    (∃ t', workThrough { job with dryRun := false } total index files (st.onto t) =
      ((workThrough { job with dryRun := true } total index files st).1.onto t',
        (workThrough { job with dryRun := true } total index files st).2)) ∧
    (workThrough { job with dryRun := true } total index files st).1.session.tree =
      st.session.tree := by
  induction files generalizing index st t with
  | nil => exact ⟨⟨t, rfl⟩, rfl⟩
  | cons file files ih =>
    rw [List.map_cons, List.nodup_cons] at hdistinct
    obtain ⟨hnew, hdistinct⟩ := hdistinct
    obtain ⟨hroutefile, hroutefiles⟩ := List.forall_mem_cons.mp hroute
    obtain ⟨hlogfile, hlogfiles⟩ := List.forall_mem_cons.mp hlog
    have hreport := reaches_report st total index
    have htreereport : (st.report total index).session.tree = st.session.tree :=
      congrArg Stage.tree hreport.base
    have hlogreport : (st.report total index).session.log.map Log.route ≠ some file.route := by
      rw [hreport.log]
      exact hlogfile
    have hread : t.read? file.route = (st.report total index).session.tree.read? file.route := by
      rw [htreereport]
      exact hagree file List.mem_cons_self
    obtain ⟨t', hreal, hwritten⟩ := workOn_onto job (st.report total index) file hlogreport t hread
    obtain ⟨htree, hlogwork⟩ := tree_workOn_dry job (st.report total index) file hlogreport
    rw [workThrough, workThrough, report_onto, hreal]
    rcases hdry : workOn { job with dryRun := true } (st.report total index) file with ⟨st', _ | f⟩
    · rw [hdry] at htree hlogwork
      have htree' : st'.session.tree = st.session.tree := htree.trans htreereport
      have hlog' : ∀ other ∈ files, st'.session.log.map Log.route ≠ some other.route := by
        intro other hother
        rw [hlogwork, hreport.log]
        exact hlogfiles other hother
      have hagree' : Tree.AgreeOn files st'.session.tree t' := by
        rw [htree']
        have hrest : Tree.AgreeOn files st.session.tree t :=
          fun other hother => hagree other (List.mem_cons_of_mem file hother)
        -- what has been written now is none of the files to come
        have hapart : ∀ other ∈ files, other.route ≠ file.route := by
          intro other hother heq
          exact hnew (heq ▸ List.mem_map_of_mem hother)
        rcases hwritten with rfl | ⟨content, rfl⟩
        · exact hrest
        · exact hrest.write file.route content hroutefile hapart
      obtain ⟨hrun, hfinal⟩ := ih (index + 1) st' t' hdistinct hroutefiles hlog' hagree'
      exact ⟨hrun, hfinal.trans htree'⟩
    · rw [hdry] at htree
      exact ⟨⟨t', rfl⟩, htree.trans htreereport⟩

theorem run_onto (job : Job) (s : Session) (files : List SourceFile)
    (hfiles : job.files s.tree = .ok files) (hdistinct : (files.map (·.route)).Nodup)
    (hlog : ∀ l ∈ s.log, ∀ file ∈ files, l.route ≠ file.route) :
    (∃ t', run { job with dryRun := false } s =
      ((run { job with dryRun := true } s).1.onto t', (run { job with dryRun := true } s).2)) ∧
    (run { job with dryRun := true } s).1.tree = s.tree := by
  have hin := job.files_in s.tree files hfiles
  have hapart := first_apart s files hlog
  have hfirst : (State.first s files.length).onto s.tree = State.first s files.length := rfl
  obtain ⟨⟨t', hthrough⟩, htree⟩ := workThrough_onto job files.length 0 files
    (State.first s files.length) s.tree hdistinct (fun file hfile => (hin file hfile).route_ne_nil)
    hapart (fun _ _ => rfl)
  rw [hfirst] at hthrough
  have hdryfiles : Job.files { job with dryRun := true } s.tree = .ok files := hfiles
  have hrealfiles : Job.files { job with dryRun := false } s.tree = .ok files := hfiles
  rw [State.first] at hthrough htree
  rw [run, run, hdryfiles, hrealfiles]
  dsimp only
  rw [hthrough]
  rcases hdry : workThrough { job with dryRun := true } files.length 0 files
      (.start (s.post (.processing files.length))) with ⟨st, _ | f⟩
  · rw [hdry] at htree
    exact ⟨⟨t', rfl⟩, htree⟩
  · rw [hdry] at htree
    exact ⟨⟨t', rfl⟩, htree⟩

end Sweep

/-- A dry run ends as a real one does, with the same summary or the same failure, says the same on
the way, and leaves the tree as it is. This takes a job that collects no file twice and a log that
is none of its files. -/
theorem dry_run_reports_real_run (job : Job) (s : Session)
    (hdistinct : ∀ files, job.files s.tree = .ok files → (files.map (·.route)).Nodup)
    (hlog : ∀ files, job.files s.tree = .ok files →
      ∀ l ∈ s.log, ∀ file ∈ files, l.route ≠ file.route) :
    (Sweep.run { job with dryRun := true } s).2 = (Sweep.run { job with dryRun := false } s).2 ∧
    (Sweep.run { job with dryRun := true } s).1.notices =
      (Sweep.run { job with dryRun := false } s).1.notices ∧
    (Sweep.run { job with dryRun := true } s).1.screen =
      (Sweep.run { job with dryRun := false } s).1.screen ∧
    (Sweep.run { job with dryRun := true } s).1.errors =
      (Sweep.run { job with dryRun := false } s).1.errors ∧
    (Sweep.run { job with dryRun := true } s).1.tree = s.tree := by
  cases hfiles : job.files s.tree with
  | error f =>
    have hrun : ∀ dry, Sweep.run { job with dryRun := dry } s = (s, .error f) := by
      intro dry
      have hfailed : Job.files { job with dryRun := dry } s.tree = .error f := hfiles
      rw [Sweep.run, hfailed]
    rw [hrun true, hrun false]
    exact ⟨rfl, rfl, rfl, rfl, rfl⟩
  | ok files =>
    obtain ⟨⟨t', hrun⟩, htree⟩ :=
      Sweep.run_onto job s files hfiles (hdistinct files hfiles) (hlog files hfiles)
    rw [hrun]
    exact ⟨rfl, rfl, rfl, rfl, htree⟩

/-- The real run writes the first file and breaks off at the second; the dry run says so. -/
theorem dry_run_reports_broken_off_run :
    (Sweep.run { brokenJob with dryRun := false } (.start brokenTree)).1.tree.read?
        [[100], [97]] ≠ brokenTree.read? [[100], [97]] ∧
    (Sweep.run { brokenJob with dryRun := true } (.start brokenTree)).1.tree = brokenTree ∧
    (Sweep.run { brokenJob with dryRun := true } (.start brokenTree)).2 =
      .error (.atLine "E(1);".toList [100, 47, 98] (.tooManyArguments "E".toList 1 0)) ∧
    (Sweep.run { brokenJob with dryRun := true } (.start brokenTree)).1.screen =
      ("Processing 2 files\nAdding symbol 'E'\nProcessed 'a'\nAdding symbol 'E'\n").toList ∧
    (Sweep.run { brokenJob with dryRun := true } (.start brokenTree)).1.errors = [] := by
  have hfiles : brokenJob.files (Session.start brokenTree).tree = .ok brokenFiles := by
    decide +kernel
  obtain ⟨hsame, -, hscreen, herrors, htree⟩ :=
    dry_run_reports_real_run brokenJob (.start brokenTree)
      (by
        intro files h
        obtain rfl := Except.ok.inj (hfiles.symm.trans h)
        decide)
      (by simp [Session.start])
  rw [hsame, hscreen, herrors]
  exact ⟨by decide +kernel, htree, by decide +kernel, by decide +kernel, by decide +kernel⟩

end CommentMacros
