import CommentMacros.Proofs.Rewrites
import CommentMacros.Proofs.Stages

namespace CommentMacros

namespace Sweep

/-- A file in its turn: the counter before and behind it, its source unless the file is passed over,
and its lines with the calls replaced in them. -/
structure Pass where
  file : SourceFile
  before : Nat
  behind : Nat
  source? : Option Text
  lines : List (Line × List Rewrite)

def Pass.rewrites (p : Pass) : List Rewrite := p.lines.flatMap (·.2)

/-- A pass takes the values from its counter on, in the order of the lines and of the calls in them.
A file that is passed over or has no rewritten line takes none. -/
structure Pass.Accounted (job : Job) (p : Pass) : Prop where
  values : Runs p.before (p.rewrites.flatMap Rewrite.indices) p.behind
  skipped : p.source? = none → p.lines = [] ∧ p.behind = p.before
  expanded : ∀ source, p.source? = some source → ∃ table e,
    MacroTable.ofLines job.style p.file.path ((Line.split source).map (·.body)) = .ok table ∧
    (Attempt.ofSource job.style p.file.path source p.before).result = ⟨.ok e, p.behind⟩ ∧
    p.lines.map (·.1) = Line.split source ∧
    e.text = Line.join (p.lines.map fun t =>
      (leftBy t).1.withTerminator (Line.newline (Line.split source))) ∧
    (e.isChanged = false → p.rewrites = [] ∧ p.behind = p.before) ∧
    ∀ i t, p.lines[i]? = some t →
      Replaces job.style ⟨i + 1, p.file.path⟩ table.macros t.1.body t.2

def State.pass (job : Job) (st : State) (file : SourceFile) : Pass where
  file := file
  before := st.counter
  behind := (workOn job st file).1.counter
  source? := (st.stage file).source? file
  lines :=
    match (st.stage file).source? file with
    | none => []
    | some source => traceSource job.style file.path source st.counter

def passesThrough (job : Job) (total : Nat) : Nat → List SourceFile → State → List Pass
  | _, [], _ => []
  | index, file :: files, st =>
    (st.report total index).pass job file ::
      passesThrough job total (index + 1) files (workOn job (st.report total index) file).1

def passes (job : Job) (s : Session) : List Pass :=
  match job.files s.tree with
  | .error _ => []
  | .ok files => passesThrough job files.length 0 files (.first s files.length)

theorem counter_report (st : State) (total index : Nat) :
    (st.report total index).counter = st.counter :=
  congrArg Stage.counter (reaches_report st total index).base

section File

variable (job : Job) (st : State) (file : SourceFile)

theorem accounted_of_skipped (hsource : (st.stage file).source? file = none)
    (hcounter : (workOn job st file).1.counter = st.counter) :
    (st.pass job file).Accounted job := by
  have hlines : (st.pass job file).lines = [] := by
    rw [State.pass]
    dsimp only
    rw [hsource]
  refine ⟨?_, fun _ => ⟨hlines, hcounter⟩, ?_⟩
  · rw [Pass.rewrites, hlines]
    change Runs st.counter [] (workOn job st file).1.counter
    rw [hcounter]
    exact Runs.nil st.counter
  · intro source hsome
    cases hsource.symm.trans hsome

theorem accounted_of_expanded (source : Text) (e : Expanded)
    (hsource : (st.stage file).source? file = some source)
    (houtcome :
      (Attempt.ofSource job.style file.path source st.counter).result.outcome = .ok e)
    (hcounter : (workOn job st file).1.counter =
      (Attempt.ofSource job.style file.path source st.counter).result.counter) :
    (st.pass job file).Accounted job := by
  have hlines : (st.pass job file).lines =
      traceSource job.style file.path source st.counter := by
    rw [State.pass]
    dsimp only
    rw [hsource]
  have hbehind : (st.pass job file).behind =
      (Attempt.ofSource job.style file.path source st.counter).result.counter := hcounter
  obtain ⟨table, htable, htext, -, hruns, hsplit, hreplaces⟩ :=
    ofSource_trace job.style file.path source st.counter e houtcome
  refine ⟨?_, fun hnone => ?_, ?_⟩
  · rw [Pass.rewrites, hlines, hbehind]
    exact hruns
  · cases hsource.symm.trans hnone
  · intro source' hsource'
    obtain rfl : source = source' := Option.some.inj (hsource.symm.trans hsource')
    rw [Pass.rewrites, hlines, hbehind]
    refine ⟨table, e, htable, ?_, hsplit, htext, ?_, hreplaces⟩
    · rw [← houtcome]
      rfl
    · exact rewrites_of_unchanged job.style file.path source st.counter e houtcome

end File

theorem workOn_pass (job : Job) (st st' : State) (file : SourceFile)
    (h : workOn job st file = (st', none)) : (st.pass job file).Accounted job := by
  rcases workOn_cases job st file with ⟨-, hwork⟩ | ⟨hsource, hwork⟩ |
    ⟨source, hsource, ⟨f, -, hwork⟩ | ⟨e, houtcome, hwork⟩⟩
  · cases (Prod.mk.inj (hwork.symm.trans h)).2
  · apply accounted_of_skipped job st file hsource
    rw [hwork]
    rfl
  · cases (Prod.mk.inj (hwork.symm.trans h)).2
  · apply accounted_of_expanded job st file source e hsource houtcome
    rw [hwork]
    dsimp only
    split_ifs
    · rfl
    · rfl

theorem workThrough_passes (job : Job) (total index : Nat) (files : List SourceFile)
    (st st' : State) (h : workThrough job total index files st = (st', none)) :
    (passesThrough job total index files st).map (·.file) = files ∧
    Runs st.counter
      (((passesThrough job total index files st).flatMap Pass.rewrites).flatMap Rewrite.indices)
      st'.counter ∧
    ∀ p ∈ passesThrough job total index files st, p.Accounted job := by
  induction files generalizing index st with
  | nil =>
    obtain ⟨rfl, -⟩ := Prod.mk.inj h
    exact ⟨rfl, Runs.nil _, by simp [passesThrough]⟩
  | cons file files ih =>
    rw [workThrough] at h
    rcases hwork : workOn job (st.report total index) file with ⟨mid, _ | f⟩
    · rw [hwork] at h
      have hpass := workOn_pass job (st.report total index) mid file hwork
      obtain ⟨hfiles, hrest, hpasses⟩ := ih (index + 1) mid h
      have hfirst := hpass.values
      change Runs (st.report total index).counter _ (workOn job _ file).1.counter at hfirst
      rw [counter_report, hwork] at hfirst
      rw [passesThrough, hwork, List.flatMap_cons, List.flatMap_append, List.map_cons, hfiles]
      exact ⟨rfl, hfirst.append hrest, List.forall_mem_cons.mpr ⟨hpass, hpasses⟩⟩
    · rw [hwork] at h
      cases (Prod.mk.inj h).2

theorem run_passes (job : Job) (s : Session) (summary : Summary)
    (h : (run job s).2 = .ok summary) :
    job.files s.tree = .ok ((passes job s).map (·.file)) ∧
    Runs 0 (((passes job s).flatMap Pass.rewrites).flatMap Rewrite.indices) summary.nextIndex ∧
    ∀ p ∈ passes job s, p.Accounted job := by
  cases hfiles : job.files s.tree with
  | error f =>
    rw [run, hfiles] at h
    cases h
  | ok files =>
    obtain ⟨-, hfailed, hdone⟩ := run_of_files job s files hfiles
    rw [passes, hfiles]
    rcases hwork : workThrough job files.length 0 files (.first s files.length) with ⟨st, _ | f⟩
    · rw [hwork] at hdone
      obtain rfl := Except.ok.inj ((hdone rfl).symm.trans h)
      obtain ⟨hall, hruns, hpasses⟩ :=
        workThrough_passes job files.length 0 files (.first s files.length) st hwork
      exact ⟨congrArg Except.ok hall.symm, hruns, hpasses⟩
    · rw [hwork] at hfailed
      cases (hfailed f rfl).symm.trans h

end Sweep

/-- The values put into counter holes are all numbers below the counter at the end, in the order of
the files, of their lines, and of the calls replaced in a line. -/
theorem index_values_in_order (job : Job) (s : Session) (summary : Summary)
    (h : (Sweep.run job s).2 = .ok summary) :
    job.files s.tree = .ok ((Sweep.passes job s).map (·.file)) ∧
    ((Sweep.passes job s).flatMap Sweep.Pass.rewrites).flatMap Rewrite.indices =
      List.range summary.nextIndex ∧
    ∀ p ∈ Sweep.passes job s, p.Accounted job := by
  obtain ⟨hfiles, hruns, hpasses⟩ := Sweep.run_passes job s summary h
  refine ⟨hfiles, ?_, hpasses⟩
  have hcounter := hruns.counter
  rw [Nat.zero_add] at hcounter
  rw [hruns.consecutive, hcounter, List.range_eq_range']

def indexedTree : Tree :=
  (((Tree.empty.put [[100]] .directory).put [[100], [97]]
    (.file (Utf8.encode "//#DEFINE E(x) f(__INDEX__,__INDEX__)\nE();\n".toList))).put
    [[100], [98]] (.file [255])).put [[100], [99]]
    (.file (Utf8.encode "//#DEFINE E(x,y) f(x,__INDEX__)\n// E\nE(1);".toList))

def indexedJob : Job := ⟨[[100]], "*".toList, .standard, true⟩

theorem index_values_three_files :
    ((Sweep.passes indexedJob (.start indexedTree)).flatMap
      Sweep.Pass.rewrites).flatMap Rewrite.indices = [0, 1, 2] ∧
    (Sweep.passes indexedJob (.start indexedTree)).map (fun p => (p.before, p.behind)) =
      [(0, 2), (2, 2), (2, 3)] ∧
    (Sweep.passes indexedJob (.start indexedTree)).map (fun p => p.rewrites.map Rewrite.text) =
      [["f(0,1);".toList], [], ["f(1,2);".toList]] ∧
    ∀ p ∈ Sweep.passes indexedJob (.start indexedTree), p.Accounted indexedJob := by
  have hrun : (Sweep.run indexedJob (.start indexedTree)).2 = .ok ⟨3, 2, 2, 3⟩ := by
    decide +kernel
  obtain ⟨-, hvalues, hpasses⟩ :=
    index_values_in_order indexedJob (.start indexedTree) ⟨3, 2, 2, 3⟩ hrun
  exact ⟨hvalues, by decide +kernel, by decide +kernel, hpasses⟩

end CommentMacros
