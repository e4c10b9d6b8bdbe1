import CommentMacros.Proofs.AloofMacros
import CommentMacros.Proofs.LineStructure
import CommentMacros.Proofs.NoRollback

namespace CommentMacros

def holdsAny (style : CommentStyle) (names : List Text) (line : Text) : Bool :=
  names.any fun name => (Occurrence.find? style name line).isSome

theorem holdsAny_eq_false_iff (style : CommentStyle) (ms : List Macro) (line : Text) :
    holdsAny style (ms.map (·.name)) line = false ↔
      ∀ m ∈ ms, Occurrence.find? style m.name line = none := by
  simp [holdsAny]

theorem hit_eq_holdsAny (style : CommentStyle) (place : Place) (ms : List Macro)
    (line line' : Text) (n n' : Nat) (hit : Bool)
    (h : expandLine style place ms line n = ⟨.ok (line', hit), n'⟩) :
    hit = holdsAny style (ms.map (·.name)) line := by
  cases hit with
  | false =>
    obtain ⟨-, -, habsent⟩ := absent_of_expandLine style place ms line line' n n' h
    exact ((holdsAny_eq_false_iff style ms line).mpr habsent).symm
  | true =>
    cases hholds : holdsAny style (ms.map (·.name)) line with
    | true => rfl
    | false =>
      have habsent := (holdsAny_eq_false_iff style ms line).mp hholds
      cases (unhit_of_absent style place ms line line' n n' true habsent h).1

/-- The lines of a source beside the lines of a text, as far as both go. -/
def linePairs (source text : Text) : List (Text × Text) :=
  ((Line.split source).map (·.body)).zip ((Line.split text).map (·.body))

def changedLines (source text : Text) : Nat :=
  (linePairs source text).countP fun p => p.1 ≠ p.2

theorem countP_eq_countP_iff {α : Type} (p q : α → Bool) (as : List α)
    (h : ∀ a ∈ as, p a = true → q a = true) :
    as.countP p = as.countP q ↔ ∀ a ∈ as, q a = true → p a = true := by
  induction as with
  | nil => simp
  | cons a as ih =>
    obtain ⟨ha, has⟩ := List.forall_mem_cons.mp h
    have hle : as.countP p ≤ as.countP q := List.countP_mono_left has
    rw [List.forall_mem_cons, ← ih has, List.countP_cons, List.countP_cons]
    cases hq : q a with
    | false =>
      have hp : p a = false := Bool.eq_false_iff.mpr fun hp => by simp [ha hp] at hq
      simp [hp]
    | true =>
      cases hp : p a with
      | true => simp
      | false =>
        simp only [if_true, Bool.false_eq_true, if_false, forall_const, false_and, iff_false]
        omega

section Expanded

variable (style : CommentStyle) (file : Path) (source : Text) (n : Nat) (e : Expanded)
  (hpath : '\n' ∉ file.display)
  (h : (Attempt.ofSource style file source n).result.outcome = .ok e)

include hpath h

/-- What happens to each line: one that holds no macro is not changed, and one that holds a macro of
an aloof table is. -/
theorem expanded_line_by_line (table : MacroTable)
    (htable : MacroTable.ofLines style file ((Line.split source).map (·.body)) = .ok table) :
    (Line.split e.text).length = (Line.split source).length ∧
    e.linesHit = (Line.split source).countP (fun l => holdsAny style e.symbols l.body) ∧
    ∀ p ∈ linePairs source e.text,
      (holdsAny style e.symbols p.1 = false → p.1 = p.2) ∧
      (table.Aloof → holdsAny style e.symbols p.1 = true → p.1 ≠ p.2) := by
  obtain ⟨table', done, htable', hlines, he, hsplit, -⟩ :=
    split_expanded style file source n e hpath h
  obtain rfl : table' = table := Except.ok.inj (htable'.symm.trans htable)
  have hwell : ∀ m ∈ table'.macros, m.WellFormed :=
    MacroTable.ofLines_wellFormed style file _ table' htable
  have heach : List.Forall₂ (fun l d => d.2 = holdsAny style table'.names l.body ∧
      (d.2 = false → l.body = d.1.body) ∧ (table'.Aloof → d.2 = true → l.body ≠ d.1.body))
      (Line.split source) done := by
    apply expandLines_forall₂ style file _ table'.macros 1 (Line.split source) n _ done _ hlines
    intro l _ place c body hit c' _ hexpand
    refine ⟨hit_eq_holdsAny style place table'.macros l.body body c c' hit hexpand, ?_, ?_⟩
    · rintro rfl
      exact (absent_of_expandLine style place table'.macros l.body body c c' hexpand).1.symm
    · rintro haloof rfl
      exact (expandLine_ne style place table' l.body body c c' hwell haloof hexpand).symm
  have hhits : (Line.split source).map (fun l => holdsAny style table'.names l.body) =
      done.map (·.2) := by
    rw [← List.forall₂_eq_eq_eq, List.forall₂_map_left_iff, List.forall₂_map_right_iff]
    exact heach.imp fun l d hl => hl.1.symm
  have hbodies : (Line.split e.text).map (·.body) = done.map (·.1.body) := by
    rw [hsplit, Line.map_body_withTerminator, List.map_map]
    rfl
  have hpairs : List.Forall₂ (fun a b => (holdsAny style table'.names a = false → a = b) ∧
      (table'.Aloof → holdsAny style table'.names a = true → a ≠ b))
      ((Line.split source).map (·.body)) ((Line.split e.text).map (·.body)) := by
    rw [hbodies, List.forall₂_map_left_iff, List.forall₂_map_right_iff]
    apply heach.imp
    rintro l d ⟨hd, hsame, hdiffer⟩
    rw [← hd]
    exact ⟨hsame, hdiffer⟩
  refine ⟨by simpa using hpairs.length_eq.symm, ?_, ?_⟩
  · have hcount := congrArg (List.countP id) hhits
    rw [List.countP_map, List.countP_map] at hcount
    rw [he]
    exact hcount.symm
  · rintro ⟨a, b⟩ hp
    rw [he]
    exact List.forall₂_zip hpairs hp

/-- There are no more changed lines than hit ones, and as many if and only if each line that holds a
macro comes out different. -/
theorem changedLines_expanded :
    changedLines source e.text ≤ e.linesHit ∧
    (changedLines source e.text = e.linesHit ↔
      ∀ p ∈ linePairs source e.text, holdsAny style e.symbols p.1 = true → p.1 ≠ p.2) := by
  obtain ⟨table, -, htable, -, -⟩ := Attempt.ofSource_eq_ok style file source n e h
  obtain ⟨hlength, hhit, hlines⟩ := expanded_line_by_line style file source n e hpath h table htable
  have hcount : e.linesHit =
      (linePairs source e.text).countP (fun p => holdsAny style e.symbols p.1) := by
    have hfst : (linePairs source e.text).map Prod.fst = (Line.split source).map (·.body) :=
      List.map_fst_zip (by simp [hlength])
    have hbodies := congrArg (List.countP (holdsAny style e.symbols)) hfst
    rw [List.countP_map, List.countP_map] at hbodies
    exact hhit.trans hbodies.symm
  have hchanged : ∀ p ∈ linePairs source e.text,
      decide (p.1 ≠ p.2) = true → holdsAny style e.symbols p.1 = true := by
    intro p hp hne
    by_contra hholds
    exact of_decide_eq_true hne ((hlines p hp).1 (Bool.eq_false_iff.mpr hholds))
  rw [hcount, changedLines, countP_eq_countP_iff _ _ _ hchanged]
  refine ⟨List.countP_mono_left hchanged, ?_⟩
  simp only [decide_eq_true_eq]

theorem changedLines_of_aloof (table : MacroTable)
    (htable : MacroTable.ofLines style file ((Line.split source).map (·.body)) = .ok table)
    (haloof : table.Aloof) : changedLines source e.text = e.linesHit := by
  obtain ⟨-, -, hlines⟩ := expanded_line_by_line style file source n e hpath h table htable
  refine (changedLines_expanded style file source n e hpath h).2.mpr ?_
  intro p hp
  exact (hlines p hp).2 haloof

end Expanded

namespace Stage

variable (job : Job) (g : Stage) (file : SourceFile)

def differences : Nat :=
  match g.source? file, (g.result? job file).map Counted.outcome with
  | some source, some (.ok e) => changedLines source e.text
  | _, _ => 0

/-- The macros that the file declares are aloof, and its path is written in one line. -/
structure Aloof : Prop where
  path : '\n' ∉ file.path.display
  table : ∀ source table, g.source? file = some source →
    MacroTable.ofLines job.style file.path ((Line.split source).map (·.body)) = .ok table →
      table.Aloof

def allDifferences : Stage → List SourceFile → List Nat
  | _, [] => []
  | g, file :: files => g.differences job file :: allDifferences (g.next job file) files

theorem differences_of_ok (source : Text) (e : Expanded) (hsource : g.source? file = some source)
    (h : (Attempt.ofSource job.style file.path source g.counter).result.outcome = .ok e) :
    g.differences job file = changedLines source e.text := by
  rw [differences, g.result?_of_some job file source hsource, hsource, Option.map_some, h]

theorem change?_of_aloof (h : g.Aloof job file) :
    (g.change? job file = none ∧ g.differences job file = 0) ∨
      ∃ e, g.change? job file = some e ∧ e.linesHit = g.differences job file ∧
        0 < g.differences job file := by
  cases hsource : g.source? file with
  | none =>
    left
    refine ⟨(g.next_of_none job file hsource).1, ?_⟩
    rw [differences, hsource]
  | some source =>
    cases houtcome : (Attempt.ofSource job.style file.path source g.counter).result.outcome with
    | error f =>
      left
      rw [change?, differences, g.result?_of_some job file source hsource, hsource,
        Option.map_some, houtcome]
      exact ⟨rfl, rfl⟩
    | ok e =>
      have hchange := g.change?_of_ok job file source e hsource houtcome
      obtain ⟨table, -, htable, -, -⟩ :=
        Attempt.ofSource_eq_ok job.style file.path source g.counter e houtcome
      have hsame := changedLines_of_aloof job.style file.path source g.counter e h.path houtcome
        table htable (h.table source table hsource htable)
      rw [g.differences_of_ok job file source e hsource houtcome, hsame]
      by_cases hhit : 0 < e.linesHit
      · refine Or.inr ⟨e, ?_, rfl, hhit⟩
        rw [hchange, Expanded.isChanged, decide_eq_true hhit, if_pos rfl]
      · refine Or.inl ⟨?_, Nat.eq_zero_of_not_pos hhit⟩
        rw [hchange, Expanded.isChanged, decide_eq_false hhit, if_neg Bool.false_ne_true]

/-- Over all files, what is reported is what comes out different. -/
theorem changes_of_aloof (files : List SourceFile)
    (h : ∀ i file, files[i]? = some file → (g.after job (files.take i)).Aloof job file) :
    (g.changes job files).length = (allDifferences job g files).countP (0 < ·) ∧
    ((g.changes job files).map (·.linesHit)).sum = (allDifferences job g files).sum := by
  induction files generalizing g with
  | nil => exact ⟨rfl, rfl⟩
  | cons file files ih =>
    obtain ⟨hlength, hsum⟩ := ih (g.next job file) fun i other hother => h (i + 1) other hother
    rw [changes, allDifferences, List.length_append, List.map_append, List.sum_append, hlength,
      hsum, List.countP_cons, List.sum_cons]
    rcases g.change?_of_aloof job file (h 0 file rfl) with ⟨hnone, hzero⟩ | ⟨e, hsome, hhit, hpos⟩
    · rw [hnone, hzero]
      simp
    · rw [hsome, ← hhit]
      rw [← hhit] at hpos
      simp [hpos, Nat.add_comm]

theorem node?_after_of_aloof (files : List SourceFile) (r : Route)
    (hroute : ∀ file ∈ files, file.route ≠ [])
    (h : ∀ i file, files[i]? = some file → (g.after job (files.take i)).Aloof job file)
    (hr : ∀ i file, files[i]? = some file → file.route = r →
      (g.after job (files.take i)).differences job file = 0) :
    (g.after job files).tree.node? r = g.tree.node? r := by
  induction files generalizing g with
  | nil => rfl
  | cons file files ih =>
    obtain ⟨hfile, hfiles⟩ := List.forall_mem_cons.mp hroute
    have hrest : ((g.next job file).after job files).tree.node? r =
        (g.next job file).tree.node? r :=
      ih (g.next job file) hfiles (fun i other hother => h (i + 1) other hother)
        fun i other hother => hr (i + 1) other hother
    refine hrest.trans ?_
    by_cases heq : file.route = r
    · rcases g.change?_of_aloof job file (h 0 file rfl) with ⟨hnone, -⟩ | ⟨e, -, -, hpos⟩
      · rw [next, hnone]
      · exact absurd (hr 0 file rfl heq) (Nat.pos_iff_ne_zero.mp hpos)
    · exact g.node?_next job file r hfile heq

end Stage

namespace Sweep

/-- A job over files with aloof macros writes and reports what comes out different. -/
theorem run_of_aloof (job : Job) (s : Session) (files : List SourceFile)
    (hfiles : job.files s.tree = .ok files)
    (hlog : ∀ l ∈ s.log, ∀ file ∈ files, l.route ≠ file.route)
    (haloof : ∀ i file, files[i]? = some file →
      (Stage.after job ⟨s.tree, 0⟩ (files.take i)).Aloof job file) :
    (∀ r, (∀ i file, files[i]? = some file → file.route = r →
        (Stage.after job ⟨s.tree, 0⟩ (files.take i)).differences job file = 0) →
      (run job s).1.tree.node? r = s.tree.node? r) ∧
    ∀ summary, (run job s).2 = .ok summary →
      summary.changedFiles = (Stage.allDifferences job ⟨s.tree, 0⟩ files).countP (0 < ·) ∧
      summary.changedLines = (Stage.allDifferences job ⟨s.tree, 0⟩ files).sum := by
  have hin := job.files_in s.tree files hfiles
  obtain ⟨k, -, -, htree, hend⟩ := run_stages job s files hfiles hlog
  have hbefore : ∀ i file, (files.take k)[i]? = some file →
      files[i]? = some file ∧ (files.take k).take i = files.take i := by
    intro i file hfile
    rw [List.getElem?_take] at hfile
    split_ifs at hfile with hi
    exact ⟨hfile, by rw [List.take_take, Nat.min_eq_left hi.le]⟩
  refine ⟨?_, ?_⟩
  · intro r hr
    rw [htree]
    apply Stage.node?_after_of_aloof job ⟨s.tree, 0⟩ (files.take k) r
    · exact fun file hfile => (hin file (List.mem_of_mem_take hfile)).route_ne_nil
    · intro i file hfile
      obtain ⟨hfile, htake⟩ := hbefore i file hfile
      rw [htake]
      exact haloof i file hfile
    · intro i file hfile
      obtain ⟨hfile, htake⟩ := hbefore i file hfile
      rw [htake]
      exact hr i file hfile
  · intro summary hok
    rcases hend with ⟨-, hdone⟩ | ⟨-, f, -, -, hfailed⟩
    · obtain rfl := Except.ok.inj (hdone.symm.trans hok)
      exact Stage.changes_of_aloof job ⟨s.tree, 0⟩ files haloof
    · cases hfailed.symm.trans hok

end Sweep

/-- The lines counted for a source are those that hold a macro. The changed ones are among them, and
there are no others if and only if each of them comes out different; so it is if the macros are
aloof. A job over files with aloof macros reports the lines and the files that come out different,
and it does not touch the others. -/
theorem lines_counted_as_changed (job : Job) :
    (∀ (file : Path) (source : Text) (n : Nat) (e : Expanded), '\n' ∉ file.display →
      (Attempt.ofSource job.style file source n).result.outcome = .ok e →
      (Line.split e.text).length = (Line.split source).length ∧
      e.linesHit = (Line.split source).countP (fun l => holdsAny job.style e.symbols l.body) ∧
      changedLines source e.text ≤ e.linesHit ∧
      (changedLines source e.text = e.linesHit ↔
        ∀ p ∈ linePairs source e.text, holdsAny job.style e.symbols p.1 = true → p.1 ≠ p.2) ∧
      ∃ table, MacroTable.ofLines job.style file ((Line.split source).map (·.body)) = .ok table ∧
        (table.Aloof → changedLines source e.text = e.linesHit ∧
          (e.isChanged = true ↔ ∃ p ∈ linePairs source e.text, p.1 ≠ p.2))) ∧
    ∀ (s : Session) (files : List SourceFile), job.files s.tree = .ok files →
      (∀ l ∈ s.log, ∀ file ∈ files, l.route ≠ file.route) →
      (∀ i file, files[i]? = some file →
        (Stage.after job ⟨s.tree, 0⟩ (files.take i)).Aloof job file) →
      (∀ r, (∀ i file, files[i]? = some file → file.route = r →
          (Stage.after job ⟨s.tree, 0⟩ (files.take i)).differences job file = 0) →
        (Sweep.run job s).1.tree.node? r = s.tree.node? r) ∧
      ∀ summary, (Sweep.run job s).2 = .ok summary →
        summary.changedFiles = (Stage.allDifferences job ⟨s.tree, 0⟩ files).countP (0 < ·) ∧
        summary.changedLines = (Stage.allDifferences job ⟨s.tree, 0⟩ files).sum := by
  refine ⟨?_, Sweep.run_of_aloof job⟩
  intro file source n e hpath h
  obtain ⟨table, -, htable, -, -⟩ := Attempt.ofSource_eq_ok job.style file source n e h
  obtain ⟨hlength, hhit, -⟩ := expanded_line_by_line job.style file source n e hpath h table htable
  obtain ⟨hle, hiff⟩ := changedLines_expanded job.style file source n e hpath h
  refine ⟨hlength, hhit, hle, hiff, table, htable, ?_⟩
  intro haloof
  have heq := changedLines_of_aloof job.style file source n e hpath h table htable haloof
  refine ⟨heq, ?_⟩
  rw [Expanded.isChanged, ← heq, decide_eq_true_eq, changedLines, List.countP_pos_iff]
  simp only [decide_eq_true_eq]

def soleTree (source : Text) : Tree :=
  (Tree.empty.put [[100]] .directory).put [[100], [97]] (.file (Utf8.encode source))

def soleJob : Job := ⟨[[100]], "*".toList, .standard, false⟩

def soleFile : SourceFile := ⟨[100, 47, 97], [[100], [97]]⟩

theorem lines_counted_as_changed_longer_name :
    let source := "//#DEFINE LOG(x) myLOG(x)\nLOG(1);\nmyLOG(2);\n".toList
    let text := "//#DEFINE LOG(x) myLOG(x)\nmyLOG(1);\nmyLOG(2);\n".toList
    (Attempt.ofSource .standard soleFile.path source 0).result.outcome =
      .ok ⟨text, 1, ["LOG".toList]⟩ ∧
    changedLines source text = 1 ∧
    (Sweep.run soleJob (.start (soleTree source))).2 = .ok ⟨1, 1, 1, 0⟩ ∧
    (Stage.allDifferences soleJob ⟨soleTree source, 0⟩ [soleFile]).sum = 1 ∧
    (Sweep.run soleJob (.start (soleTree source))).1.tree.node? [[100]] =
      (soleTree source).node? [[100]] := by
  intro source text
  have hok : (Attempt.ofSource .standard soleFile.path source 0).result.outcome =
      .ok ⟨text, 1, ["LOG".toList]⟩ := by
    decide +kernel
  have hrun : (Sweep.run soleJob (.start (soleTree source))).2 = .ok ⟨1, 1, 1, 0⟩ := by
    decide +kernel
  have hsource : Stage.source? ⟨soleTree source, 0⟩ soleFile = some source := by
    decide +kernel
  have htable : MacroTable.ofLines .standard soleFile.path ((Line.split source).map (·.body)) =
      .ok ⟨[⟨"LOG".toList, ⟨"myLOG".toList, ["x".toList]⟩⟩]⟩ := by
    decide +kernel
  have haloof : ∀ table,
      MacroTable.ofLines .standard soleFile.path ((Line.split source).map (·.body)) = .ok table →
        table.Aloof := by
    intro table h
    obtain rfl := Except.ok.inj (htable.symm.trans h)
    decide +kernel
  obtain ⟨hsources, hruns⟩ := lines_counted_as_changed soleJob
  obtain ⟨-, -, -, -, table, htable', hchanged⟩ :=
    hsources soleFile.path source 0 _ (by decide) hok
  have hsole : ∀ (i : Nat) (file : SourceFile), [soleFile][i]? = some file →
      i = 0 ∧ soleFile = file := by
    intro i file hfile
    rw [List.getElem?_singleton] at hfile
    split_ifs at hfile with hi
    exact ⟨hi, Option.some.inj hfile⟩
  have hstages : ∀ i file, [soleFile][i]? = some file →
      (Stage.after soleJob ⟨soleTree source, 0⟩ ([soleFile].take i)).Aloof soleJob file := by
    intro i file hfile
    obtain ⟨rfl, rfl⟩ := hsole i file hfile
    refine ⟨by decide, ?_⟩
    intro source' table hsource' h
    obtain rfl := Option.some.inj (hsource.symm.trans hsource')
    exact haloof table h
  obtain ⟨htree, hsummary⟩ := hruns (.start (soleTree source)) [soleFile] (by decide +kernel)
    (by simp [Session.start]) hstages
  refine ⟨hok, (hchanged (haloof table htable')).1, hrun, (hsummary _ hrun).2.symm, ?_⟩
  apply htree
  intro i file hfile hroute
  obtain ⟨rfl, rfl⟩ := hsole i file hfile
  cases hroute

/-- A macro that puts its own name back, and two that put back each other's: nothing comes out
different, and yet the line is counted and the file is reported. -/
theorem own_name_counted_as_change :
    let own := "//#DEFINE LOG(x) LOG(x)\nLOG(1);\n".toList
    let back := "//#DEFINE A(x) B(x)\n//#DEFINE B(x) A(x)\nA(1);\n".toList
    (Attempt.ofSource .standard [97] own 0).result.outcome = .ok ⟨own, 1, ["LOG".toList]⟩ ∧
    changedLines own own = 0 ∧
    (Attempt.ofSource .standard [97] back 0).result.outcome =
      .ok ⟨back, 1, ["A".toList, "B".toList]⟩ ∧
    changedLines back back = 0 ∧
    (Sweep.run soleJob (.start (soleTree own))).2 = .ok ⟨1, 1, 1, 0⟩ ∧
    Notice.processed soleFile.path ∈ (Sweep.run soleJob (.start (soleTree own))).1.notices := by
  decide +kernel

end CommentMacros
