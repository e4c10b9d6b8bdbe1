import CommentMacros.Proofs.Stages

namespace CommentMacros

namespace Stage

variable (job : Job)

theorem node?_next (g : Stage) (file : SourceFile) (r : Route) (hroute : file.route ≠ [])
    (hr : file.route ≠ r) : (g.next job file).tree.node? r = g.tree.node? r := by
  unfold next
  dsimp only
  cases g.change? job file with
  | none => rfl
  | some e =>
    dsimp only
    split_ifs
    · rfl
    · rw [Tree.node?_write _ _ _ _ hroute, if_neg (Ne.symm hr)]

/-- The file is to be written: the job is no dry run, the file is UTF-8, and its expansion, which is
this text, has a rewritten line. -/
def Writes (g : Stage) (file : SourceFile) (text : Text) : Prop :=
  job.dryRun = false ∧ ∃ content source e, g.tree.read? file.route = some content ∧
    Utf8.decode? content = some source ∧
    (Attempt.ofSource job.style file.path source g.counter).result.outcome = .ok e ∧
    0 < e.linesHit ∧ e.text = text

/-- What working on a file comes to. No other content changes, and the counter keeps its value if
the file is passed over. -/
structure Step (g : Stage) (file : SourceFile) (g' : Stage) : Prop where
  written : ∀ text, g.Writes job file text →
    g'.tree.node? file.route = some (.file (Utf8.encode text))
  kept : (¬∃ text, g.Writes job file text) →
    g'.tree.node? file.route = g.tree.node? file.route
  others : ∀ r, file.route ≠ r → g'.tree.node? r = g.tree.node? r
  counter : ∀ source, g.source? file = some source →
    g'.counter = (Attempt.ofSource job.style file.path source g.counter).result.counter
  skipped : g.source? file = none → g'.counter = g.counter

theorem writes_of_change (g : Stage) (file : SourceFile) (e : Expanded)
    (hdry : job.dryRun = false) (h : g.change? job file = some e) : g.Writes job file e.text := by
  obtain ⟨source, hsource, hchanged, houtcome⟩ := g.change?_eq_some job file e h
  obtain ⟨content, hread, hdecode⟩ := Option.bind_eq_some_iff.mp hsource
  exact ⟨hdry, content, source, e, hread, hdecode, houtcome, of_decide_eq_true hchanged, rfl⟩

theorem change_of_writes (g : Stage) (file : SourceFile) (text : Text)
    (h : g.Writes job file text) :
    job.dryRun = false ∧ ∃ e, g.change? job file = some e ∧ e.text = text := by
  obtain ⟨hdry, content, source, e, hread, hdecode, houtcome, hhit, rfl⟩ := h
  have hsource : g.source? file = some source := by
    rw [source?, hread]
    exact hdecode
  have hchange := g.change?_of_ok job file source e hsource houtcome
  rw [Expanded.isChanged, decide_eq_true hhit, if_pos rfl] at hchange
  exact ⟨hdry, e, hchange, rfl⟩

theorem step_next (g : Stage) (file : SourceFile) (hroute : file.route ≠ []) :
    g.Step job file (g.next job file) where
  written := by
    intro text hwrites
    obtain ⟨hdry, e, hchange, rfl⟩ := g.change_of_writes job file text hwrites
    have htree : (g.next job file).tree = g.tree.write file.route (Utf8.encode e.text) := by
      simp only [next, hchange, hdry, Bool.false_eq_true, if_false]
    rw [htree, Tree.node?_write _ _ _ _ hroute, if_pos rfl]
  kept := by
    intro hnot
    have htree : (g.next job file).tree = g.tree := by
      cases hchange : g.change? job file with
      | none => simp only [next, hchange]
      | some e =>
        cases hdry : job.dryRun with
        | true => simp only [next, hchange, hdry, if_true]
        | false => exact absurd ⟨_, g.writes_of_change job file e hdry hchange⟩ hnot
    rw [htree]
  others := fun r hr => g.node?_next job file r hroute hr
  counter := by
    intro source hsource
    rw [next, g.result?_of_some job file source hsource]
    rfl
  skipped := by
    intro hnone
    rw [(g.next_of_none job file hnone).2]

theorem after_take_succ (g : Stage) (files : List SourceFile) (i : Nat) (file : SourceFile)
    (h : files[i]? = some file) :
    g.after job (files.take (i + 1)) = (g.after job (files.take i)).next job file := by
  rw [after, List.take_add_one, h, List.foldl_append]
  rfl

theorem node?_after (g : Stage) (files : List SourceFile) (r : Route)
    (hroute : ∀ file ∈ files, file.route ≠ []) (hr : ∀ file ∈ files, file.route ≠ r) :
    (g.after job files).tree.node? r = g.tree.node? r := by
  induction files generalizing g with
  | nil => rfl
  | cons file files ih =>
    obtain ⟨hfile, hfiles⟩ := List.forall_mem_cons.mp hroute
    obtain ⟨hrfile, hrfiles⟩ := List.forall_mem_cons.mp hr
    exact (ih (g.next job file) hfiles hrfiles).trans (g.node?_next job file r hfile hrfile)

theorem in_next (g : Stage) (file other : SourceFile) (hroute : file.route ≠ [])
    (h : other.In g.tree) : other.In (g.next job file).tree := by
  refine ⟨h.route_ne_nil, ?_⟩
  unfold next
  dsimp only
  cases g.change? job file with
  | none => exact h.readable
  | some e =>
    dsimp only
    split_ifs
    · exact h.readable
    · exact Tree.isSome_read?_write _ _ _ _ hroute h.readable

end Stage

namespace Sweep

/-- A sweep goes through its stages up to the first failure. -/
theorem workThrough_stages (job : Job) (total index : Nat) (files : List SourceFile) (st : State)
    (hlog : ∀ file ∈ files, st.session.log.map Log.route ≠ some file.route)
    (hin : ∀ file ∈ files, file.In st.session.tree) :
    ∃ k ≤ files.length,
      (∀ i < k, ∀ file, files[i]? = some file →
        (st.base.after job (files.take i)).failure? job file = none) ∧
      (workThrough job total index files st).1.session.tree =
        (st.base.after job (files.take k)).tree ∧
      ((k = files.length ∧ (workThrough job total index files st).2 = none ∧
          Reaches st (st.base.changes job files) (st.base.after job files)
            (workThrough job total index files st).1) ∨
        ∃ file f, files[k]? = some file ∧
          (st.base.after job (files.take k)).failure? job file = some f ∧
          (workThrough job total index files st).2 = some f) := by
  induction files generalizing index st with
  | nil => exact ⟨0, Nat.le_refl 0, by simp, rfl, Or.inl ⟨rfl, rfl, rfl, rfl, rfl, rfl⟩⟩
  | cons file files ih =>
    obtain ⟨hlogfile, hlogfiles⟩ := List.forall_mem_cons.mp hlog
    obtain ⟨hinfile, hinfiles⟩ := List.forall_mem_cons.mp hin
    have hreport := reaches_report st total index
    have hbase := hreport.base
    have htree : (st.report total index).session.tree = st.session.tree :=
      congrArg Stage.tree hbase
    have hlogreport : (st.report total index).session.log.map Log.route ≠ some file.route := by
      rw [hreport.log]
      exact hlogfile
    rw [workThrough]
    cases hf : st.base.failure? job file with
    | some f =>
      obtain ⟨hfailed, hsame⟩ := workOn_of_failure job (st.report total index) file hlogreport f
        (by rw [hbase]; exact hf)
      rcases hwork : workOn job (st.report total index) file with ⟨st', outcome⟩
      rw [hwork] at hfailed hsame
      obtain rfl : outcome = some f := hfailed
      refine ⟨0, Nat.zero_le _, by simp, hsame.trans htree, Or.inr ⟨file, f, rfl, hf, rfl⟩⟩
    | none =>
      obtain ⟨st', hwork, hreach⟩ := workOn_of_success job (st.report total index) file hlogreport
        (by rw [htree]; exact hinfile) (by rw [hbase]; exact hf)
      rw [hwork]
      dsimp only
      rw [hbase] at hreach
      have hstep : Reaches st (st.base.change? job file).toList (st.base.next job file) st' :=
        hreport.trans hreach
      have hlog' : ∀ other ∈ files, st'.session.log.map Log.route ≠ some other.route := by
        intro other hother
        rw [hstep.log]
        exact hlogfiles other hother
      have hin' : ∀ other ∈ files, other.In st'.session.tree := by
        intro other hother
        have hnext := st.base.in_next job file other hinfile.route_ne_nil (hinfiles other hother)
        rw [← hstep.base] at hnext
        exact hnext
      obtain ⟨k, hk, hbefore, hfinal, hend⟩ := ih (index + 1) st' hlog' hin'
      rw [hstep.base] at hbefore hfinal hend
      refine ⟨k + 1, Nat.succ_le_succ hk, ?_, hfinal, ?_⟩
      · intro i hi other hother
        cases i with
        | zero =>
          obtain rfl := Option.some.inj hother
          exact hf
        | succ i => exact hbefore i (Nat.lt_of_succ_lt_succ hi) other hother
      · rcases hend with ⟨rfl, hnone, hreaches⟩ | hfailed
        · exact Or.inl ⟨rfl, hnone, hstep.trans hreaches⟩
        · exact Or.inr hfailed

/-- A sweep ends behind its last stage with what the stages have brought, or at the first stage that
fails. -/
theorem run_stages (job : Job) (s : Session) (files : List SourceFile)
    (hfiles : job.files s.tree = .ok files)
    (hlog : ∀ l ∈ s.log, ∀ file ∈ files, l.route ≠ file.route) :
    ∃ k ≤ files.length,
      (∀ i < k, ∀ file, files[i]? = some file →
        (Stage.after job ⟨s.tree, 0⟩ (files.take i)).failure? job file = none) ∧
      (run job s).1.tree = (Stage.after job ⟨s.tree, 0⟩ (files.take k)).tree ∧
      ((k = files.length ∧
          (run job s).2 = .ok ⟨files.length, (Stage.changes job ⟨s.tree, 0⟩ files).length,
            ((Stage.changes job ⟨s.tree, 0⟩ files).map (·.linesHit)).sum,
            (Stage.after job ⟨s.tree, 0⟩ files).counter⟩) ∨
        ∃ file f, files[k]? = some file ∧
          (Stage.after job ⟨s.tree, 0⟩ (files.take k)).failure? job file = some f ∧
          (run job s).2 = .error f) := by
  obtain ⟨k, hk, hbefore, htree, hend⟩ := workThrough_stages job files.length 0 files
    (State.first s files.length) (first_apart s files hlog) (job.files_in s.tree files hfiles)
  have hbase : (State.first s files.length).base = ⟨s.tree, 0⟩ := rfl
  rw [hbase] at hbefore htree hend
  obtain ⟨hsession, hfailed, hdone⟩ := run_of_files job s files hfiles
  refine ⟨k, hk, hbefore, by rw [hsession, htree], ?_⟩
  rcases hend with ⟨hkn, hnone, hreach⟩ | ⟨file, f, hfile, hf, hsome⟩
  · refine Or.inl ⟨hkn, ?_⟩
    have hcounter := congrArg Stage.counter hreach.base
    have hchanged := hreach.files.trans (Nat.zero_add _)
    have hlines := hreach.lines.trans (Nat.zero_add _)
    rw [hdone hnone, hchanged, hlines, ← hcounter]
    rfl
  · exact Or.inr ⟨file, f, hfile, hf, hfailed f hsome⟩

end Sweep

/-- A job whose files cannot be collected does nothing. Otherwise its stages are gone through up to
the first file that cannot be expanded. Each replaces the content of its file by the expansion, if
there is something to write, and touches nothing else; what they wrote stays. -/
theorem sweep_stops_without_rollback (job : Job) (s : Session) :
    (∀ f, job.files s.tree = .error f → Sweep.run job s = (s, .error f)) ∧
    ∀ files, job.files s.tree = .ok files →
      (∀ l ∈ s.log, ∀ file ∈ files, l.route ≠ file.route) →
      ∃ k ≤ files.length,
        (∀ i < k, ∀ file, files[i]? = some file →
          (Stage.after job ⟨s.tree, 0⟩ (files.take i)).failure? job file = none ∧
          Stage.Step job (Stage.after job ⟨s.tree, 0⟩ (files.take i)) file
            (Stage.after job ⟨s.tree, 0⟩ (files.take (i + 1)))) ∧
        (Sweep.run job s).1.tree = (Stage.after job ⟨s.tree, 0⟩ (files.take k)).tree ∧
        (∀ r, (∀ file ∈ files.take k, file.route ≠ r) →
          (Sweep.run job s).1.tree.node? r = s.tree.node? r) ∧
        ((k = files.length ∧
            (Sweep.run job s).2 = .ok
              ⟨files.length, (Stage.changes job ⟨s.tree, 0⟩ files).length,
                ((Stage.changes job ⟨s.tree, 0⟩ files).map (·.linesHit)).sum,
                (Stage.after job ⟨s.tree, 0⟩ files).counter⟩) ∨
          ∃ file source f, files[k]? = some file ∧
            (Stage.after job ⟨s.tree, 0⟩ (files.take k)).source? file = some source ∧
            (Attempt.ofSource job.style file.path source
              (Stage.after job ⟨s.tree, 0⟩ (files.take k)).counter).result.outcome = .error f ∧
            (Sweep.run job s).2 = .error f) := by
  refine ⟨?_, ?_⟩
  · intro f hf
    rw [Sweep.run, hf]
  · intro files hfiles hlog
    have hin := job.files_in s.tree files hfiles
    obtain ⟨k, hk, hbefore, htree, hend⟩ := Sweep.run_stages job s files hfiles hlog
    refine ⟨k, hk, ?_, htree, ?_, ?_⟩
    · intro i hi file hfile
      refine ⟨hbefore i hi file hfile, ?_⟩
      rw [Stage.after_take_succ job ⟨s.tree, 0⟩ files i file hfile]
      exact Stage.step_next job _ file (hin file (List.mem_of_getElem? hfile)).route_ne_nil
    · intro r hr
      rw [htree]
      exact Stage.node?_after job ⟨s.tree, 0⟩ (files.take k) r
        (fun file hfile => (hin file (List.mem_of_mem_take hfile)).route_ne_nil) hr
    · rcases hend with hdone | ⟨file, f, hfile, hf, hfailed⟩
      · exact Or.inl hdone
      · obtain ⟨source, hsource, houtcome⟩ := Stage.failure?_eq_some job _ file f hf
        exact Or.inr ⟨file, source, f, hfile, hsource, houtcome, hfailed⟩

def brokenSource : Text := "//#DEFINE E() f(__INDEX__)\nE();\n".toList

def brokenText : Text := "//#DEFINE E() f(__INDEX__)\nf(0);\n".toList

def brokenTree : Tree :=
  ((Tree.empty.put [[100]] .directory).put [[100], [97]] (.file (Utf8.encode brokenSource))).put
    [[100], [98]] (.file (Utf8.encode "//#DEFINE E() f()\nE(1);\n".toList))

def brokenJob : Job := ⟨[[100]], "*".toList, .standard, false⟩

def brokenFiles : List SourceFile :=
  [⟨[100, 47, 97], [[100], [97]]⟩, ⟨[100, 47, 98], [[100], [98]]⟩]

theorem sweep_stops_at_second_file :
    Sweep.run ⟨[], "*".toList, .standard, false⟩ (.start brokenTree) =
      (.start brokenTree, .error .noDirectory) ∧
    (Sweep.run brokenJob (.start brokenTree)).1.tree.node? [[100], [97]] =
      some (.file (Utf8.encode brokenText)) ∧
    (∀ r, r ≠ [[100], [97]] →
      (Sweep.run brokenJob (.start brokenTree)).1.tree.node? r = brokenTree.node? r) ∧
    (Sweep.run brokenJob (.start brokenTree)).2 = .error (.atLine "E(1);".toList
      [100, 47, 98] (.tooManyArguments "E".toList 1 0)) := by
  have hfiles : brokenJob.files brokenTree = .ok brokenFiles := by
    decide +kernel
  have hfailed : (Sweep.run brokenJob (.start brokenTree)).2 = .error (.atLine "E(1);".toList
      [100, 47, 98] (.tooManyArguments "E".toList 1 0)) := by
    decide +kernel
  have hread : brokenTree.read? [[100], [97]] = some (Utf8.encode brokenSource) := by
    decide +kernel
  have hdecode : Utf8.decode? (Utf8.encode brokenSource) = some brokenSource := by
    decide +kernel
  have hexpand : (Attempt.ofSource .standard [100, 47, 97] brokenSource 0).result.outcome =
      .ok ⟨brokenText, 1, ["E".toList]⟩ := by
    decide +kernel
  have hwrites : Stage.Writes brokenJob ⟨brokenTree, 0⟩ ⟨[100, 47, 97], [[100], [97]]⟩
      brokenText :=
    ⟨rfl, _, _, _, hread, hdecode, hexpand, by decide, rfl⟩
  refine ⟨(sweep_stops_without_rollback _ _).1 .noDirectory rfl, ?_⟩
  obtain ⟨k, -, hsteps, htree, helse, ⟨-, hok⟩ |
      ⟨file, source, f, hfile, hsource, houtcome, -⟩⟩ :=
    (sweep_stops_without_rollback brokenJob (.start brokenTree)).2 brokenFiles hfiles
      (by simp [Session.start])
  · cases hfailed.symm.trans hok
  · have hstage : Stage.after brokenJob ⟨(Session.start brokenTree).tree, 0⟩
        (brokenFiles.take 0) = ⟨brokenTree, 0⟩ := rfl
    have hpos : k ≠ 0 := by
      rintro rfl
      obtain rfl := Option.some.inj hfile
      rw [hstage] at hsource houtcome
      rw [Stage.source?, hread, Option.bind_some, hdecode] at hsource
      obtain rfl := Option.some.inj hsource
      cases hexpand.symm.trans houtcome
    obtain ⟨hk, -⟩ := List.getElem?_eq_some_iff.mp hfile
    obtain rfl : k = 1 := by
      change k < 2 at hk
      omega
    have hstep := (hsteps 0 (by decide) _ rfl).2
    rw [hstage] at hstep
    have hwritten := hstep.written brokenText hwrites
    refine ⟨?_, ?_, hfailed⟩
    · rw [htree]
      exact hwritten
    · intro r hr
      apply helse r
      intro other hother
      obtain rfl := List.mem_singleton.mp hother
      exact Ne.symm hr

end CommentMacros
