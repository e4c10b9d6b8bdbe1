import CommentMacros.Proofs.Turns
import Mathlib.Order.Bounds.Basic

namespace CommentMacros

namespace Sweep

section Percent

variable (total index : Nat)

def reached (total : Nat) : Nat → Nat
  | 0 => 0
  | index + 1 => percentAt total index

/-- The percentage that a file is the first to reach, if there is one. -/
def milestone : List Nat :=
  if percentAt total index = reached total index then [] else [percentAt total index]

theorem le_percentAt_iff (p : Nat) (htotal : 0 < total) (hp : 1 ≤ p) :
    (p - 1) * total ≤ index * 100 ↔ p ≤ percentAt total index := by
  rw [percentAt, ← Nat.le_div_iff_mul_le htotal]
  omega

theorem percentAt_le_succ : percentAt total index ≤ percentAt total (index + 1) := by
  have hle : index * 100 ≤ (index + 1) * 100 := by omega
  have hdiv := Nat.div_le_div_right hle (c := total)
  unfold percentAt
  omega

theorem percentAt_mono (i j : Nat) (h : i ≤ j) : percentAt total i ≤ percentAt total j := by
  induction j, h using Nat.le_induction with
  | base => exact Nat.le_refl _
  | succ j _ ih => exact ih.trans (percentAt_le_succ total j)

variable (htotal : 100 ≤ total)

include htotal

theorem percentAt_succ_le : percentAt total (index + 1) ≤ percentAt total index + 1 := by
  have hle : (index + 1) * 100 ≤ index * 100 + total := by omega
  have hdiv := Nat.div_le_div_right hle (c := total)
  rw [Nat.add_div_right _ (by omega)] at hdiv
  unfold percentAt
  omega

theorem percentAt_reached :
    reached total index ≤ percentAt total index ∧
      percentAt total index ≤ reached total index + 1 := by
  cases index with
  | zero => simp [reached, percentAt]
  | succ index => exact ⟨percentAt_le_succ total index, percentAt_succ_le total index htotal⟩

theorem percentAt_le_hundred (h : index < total) : percentAt total index ≤ 100 := by
  by_contra hgt
  have hover := (le_percentAt_iff total index 101 (by omega) (by omega)).mpr (by omega)
  omega

theorem reached_total : reached total total = 100 := by
  have hle := percentAt_le_hundred total (total - 1) htotal (by omega)
  have hge := (le_percentAt_iff total (total - 1) 100 (by omega) (by omega)).mp (by omega)
  cases total with
  | zero => omega
  | succ total => exact Nat.le_antisymm hle hge

theorem milestone_eq_singleton_iff (p : Nat) :
    milestone total index = [p] ↔
      1 ≤ p ∧ IsLeast {i | (p - 1) * total ≤ i * 100} index := by
  obtain ⟨hle, hsucc⟩ := percentAt_reached total index htotal
  have hfirst (i : Nat) (hp : 1 ≤ p) := le_percentAt_iff total i p (by omega) hp
  have hmilestone : milestone total index = [p] ↔
      p ≤ percentAt total index ∧ reached total index < p := by
    unfold milestone
    split_ifs with hsame
    · constructor
      · intro h
        cases h
      · omega
    · rw [List.singleton_inj]
      omega
  rw [hmilestone]
  constructor
  · rintro ⟨hreach, hnew⟩
    have hp : 1 ≤ p := by omega
    refine ⟨hp, (hfirst index hp).mpr hreach, ?_⟩
    intro j hj
    have hj' := (hfirst j hp).mp hj
    cases index with
    | zero => exact Nat.zero_le j
    | succ index =>
      by_contra hlt
      have hmono := percentAt_mono total j index (by omega)
      simp only [reached] at hnew
      omega
  · rintro ⟨hp, hmem, hleast⟩
    refine ⟨(hfirst index hp).mp hmem, ?_⟩
    cases index with
    | zero => exact hp
    | succ index =>
      by_contra hnot
      have hearlier := hleast ((hfirst index hp).mpr (by simpa [reached] using hnot))
      omega

/-- The files up to an index bring all percentages up to there, one after the other. -/
theorem flatMap_milestone :
    (List.range index).flatMap (milestone total) = List.range' 1 (reached total index) := by
  induction index with
  | zero => rfl
  | succ index ih =>
    obtain ⟨hle, hsucc⟩ := percentAt_reached total index htotal
    have hreached : reached total (index + 1) = percentAt total index := rfl
    rw [List.range_succ, List.flatMap_append, ih, List.flatMap_singleton, hreached]
    unfold milestone
    split_ifs with hsame
    · rw [List.append_nil, hsame]
    · have hnext : percentAt total index = reached total index + 1 := by omega
      rw [hnext, List.range'_1_concat, Nat.add_comm]

/-- The percentages that have come up, described without a division. -/
theorem range'_percentAt (h : index < total) :
    List.range' 1 (percentAt total index) =
      (List.range' 1 100).filter fun p => (p - 1) * total ≤ index * 100 := by
  have hle := percentAt_le_hundred total index htotal h
  have hsplit : List.range' 1 100 = List.range' 1 (percentAt total index) ++
      List.range' (1 + percentAt total index) (100 - percentAt total index) := by
    rw [List.range'_append_1]
    congr 1
    omega
  have hcame (p : Nat) (hp : 1 ≤ p) := le_percentAt_iff total index p (by omega) hp
  rw [hsplit, List.filter_append, List.filter_eq_self.mpr, List.filter_eq_nil_iff.mpr,
    List.append_nil]
  · intro p hp
    have hbounds := List.mem_range'_1.mp hp
    have hiff := hcame p (by omega)
    simp only [decide_eq_true_eq]
    omega
  · intro p hp
    have hbounds := List.mem_range'_1.mp hp
    have hiff := hcame p (by omega)
    simp only [decide_eq_true_eq]
    omega

end Percent

section Report

variable (total index : Nat) (st : State)

theorem report_of_small (h : total < reportingSize) : st.report total index = st :=
  if_pos (Or.inl h)

theorem report_of_large (h : reportingSize ≤ total) (hpercent : st.percent = reached total index) :
    (st.report total index).percent = reached total (index + 1) ∧
    (st.report total index).session.notices =
      st.session.notices ++ (milestone total index).map Notice.progress := by
  unfold State.report milestone
  dsimp only
  rw [hpercent]
  by_cases hsame : percentAt total index = reached total index
  · rw [if_pos (Or.inr hsame), if_pos hsame]
    exact ⟨hpercent.trans hsame.symm, (List.append_nil _).symm⟩
  · have hnot : ¬(total < reportingSize ∨ percentAt total index = reached total index) := by
      omega
    rw [if_neg hnot, if_neg hsame]
    exact ⟨rfl, st.session.notices_post _⟩

end Report

section Through

variable (job : Job) (total index : Nat) (files : List SourceFile) (st : State)

theorem before_turnsFrom_of_small (h : total < reportingSize) :
    ∀ t ∈ turnsFrom job total index files st, t.before = [] := by
  induction files generalizing index st with
  | nil => simp [turnsFrom]
  | cons file files ih =>
    have hbefore : (st.turn job total index file).before = [] := by
      rw [State.turn, report_of_small total index st h]
      exact st.session.since_of_notices _ [] (List.append_nil _).symm
    rw [turnsFrom]
    rcases workOn job (st.report total index) file with ⟨mid, _ | f⟩
    · exact List.forall_mem_cons.mpr ⟨hbefore, ih (index + 1) mid⟩
    · simpa using hbefore

theorem map_before_turnsFrom (h : reportingSize ≤ total)
    (hpercent : st.percent = reached total index) :
    (turnsFrom job total index files st).map Turn.before =
      (List.range' index (turnsFrom job total index files st).length).map
        fun i => (milestone total i).map Notice.progress := by
  induction files generalizing index st with
  | nil => rfl
  | cons file files ih =>
    obtain ⟨hreached, hnotices⟩ := report_of_large total index st h hpercent
    have hbefore : (st.turn job total index file).before =
        (milestone total index).map Notice.progress :=
      st.session.since_of_notices _ _ hnotices
    have hkept := (says_turn job total index st file).percent
    rw [turnsFrom]
    rcases hwork : workOn job (st.report total index) file with ⟨mid, _ | f⟩
    · rw [hwork] at hkept
      have hrest := ih (index + 1) mid (hkept.trans hreached)
      dsimp only
      rw [List.map_cons, hbefore, hrest, List.length_cons, List.range'_succ, List.map_cons]
    · dsimp only
      rw [List.map_singleton, hbefore]
      rfl

end Through

/-- A turn begins with a report exactly if its file is the first to come as far. -/
theorem before_turn_of_large (job : Job) (files : List SourceFile) (st : State) (i : Nat) (t : Turn)
    (h : reportingSize ≤ files.length) (hpercent : st.percent = 0)
    (ht : (turnsFrom job files.length 0 files st)[i]? = some t) :
    (t.before = [] ∨ ∃ p, t.before = [.progress p]) ∧
    ∀ p, t.before = [.progress p] ↔
      (1 ≤ p ∧ p ≤ 100) ∧ IsLeast {j | (p - 1) * files.length ≤ j * 100} i := by
  have hsize : 100 ≤ files.length := Nat.le_trans (by decide) h
  obtain ⟨hi, hget⟩ := List.getElem?_eq_some_iff.mp ht
  have hindex : i < files.length :=
    Nat.lt_of_lt_of_le hi (workThrough_turns job files.length 0 files st).1.length_le
  have hbefore : t.before = (milestone files.length i).map Notice.progress := by
    have hmap := congrArg (·[i]?) (map_before_turnsFrom job files.length 0 files st h hpercent)
    simpa [hget, hi] using hmap
  have hsingle (p : Nat) : t.before = [.progress p] ↔ milestone files.length i = [p] := by
    rw [hbefore, List.map_eq_singleton_iff]
    simp
  refine ⟨?_, ?_⟩
  · rw [hbefore]
    unfold milestone
    split_ifs
    · exact Or.inl rfl
    · exact Or.inr ⟨_, rfl⟩
  · intro p
    rw [hsingle p, milestone_eq_singleton_iff files.length i hsize p]
    constructor
    · rintro ⟨hp, hleast⟩
      have hle := (le_percentAt_iff files.length i p (by omega) hp).mp hleast.1
      have hhundred := percentAt_le_hundred files.length i hsize hindex
      exact ⟨⟨hp, by omega⟩, hleast⟩
    · rintro ⟨⟨hp, -⟩, hleast⟩
      exact ⟨hp, hleast⟩

theorem flatMap_before_of_large (job : Job) (files : List SourceFile) (st : State)
    (h : reportingSize ≤ files.length) (hpercent : st.percent = 0) :
    (turnsFrom job files.length 0 files st).flatMap Turn.before =
      (List.range' 1 (reached files.length
        (turnsFrom job files.length 0 files st).length)).map Notice.progress := by
  have hsize : 100 ≤ files.length := Nat.le_trans (by decide) h
  rw [List.flatMap_def, map_before_turnsFrom job files.length 0 files st h hpercent,
    ← List.range_eq_range', ← List.flatMap_def, ← List.map_flatMap,
    flatMap_milestone files.length _ hsize]

end Sweep

/-- A sweep of a thousand files or more reports every percentage from 1 to 100 once and in order,
each right before the first file that has come as far; one that breaks off has reported what was
due up to the file that fails. A smaller sweep reports nothing. -/
theorem progress_reported_once_per_percent (job : Job) (s : Session) (files : List SourceFile)
    (hfiles : job.files s.tree = .ok files) :
    s.since (Sweep.run job s).1 =
      .processing files.length :: (Sweep.turns job s).flatMap Sweep.Turn.said ∧
    (files.length < 1000 → Notice.progressWords (s.since (Sweep.run job s).1) = []) ∧
    (1000 ≤ files.length →
      (∀ i t, (Sweep.turns job s)[i]? = some t →
        (t.before = [] ∨ ∃ p, t.before = [.progress p]) ∧
        ∀ p, t.before = [.progress p] ↔
          (1 ≤ p ∧ p ≤ 100) ∧ IsLeast {j | (p - 1) * files.length ≤ j * 100} i) ∧
      (∀ summary, (Sweep.run job s).2 = .ok summary →
        (Sweep.turns job s).map (·.file) = files ∧
        Notice.progressWords (s.since (Sweep.run job s).1) =
          (List.range' 1 100).map fun p => Text.decimal p ++ "% done".toList) ∧
      ∀ f, (Sweep.run job s).2 = .error f →
        ∃ done last rest, Sweep.turns job s = done ++ [last] ∧
          files = done.map (·.file) ++ last.file :: rest ∧ last.failure = some f ∧
          Notice.progressWords (s.since (Sweep.run job s).1) =
            ((List.range' 1 100).filter fun p => (p - 1) * files.length ≤ done.length * 100).map
              fun p => Text.decimal p ++ "% done".toList) := by
  obtain ⟨hsince, hquiet, hdone, hbroken⟩ := Sweep.run_turns job s files hfiles
  have hturns : Sweep.turns job s =
      Sweep.turnsFrom job files.length 0 files (.first s files.length) := by
    rw [Sweep.turns, hfiles]
  refine ⟨hsince, ?_, ?_⟩
  · intro hsmall
    have hbefore : (Sweep.turns job s).flatMap Sweep.Turn.before = ([] : List Nat).map .progress := by
      rw [hturns]
      exact List.flatMap_eq_nil_iff.mpr
        (Sweep.before_turnsFrom_of_small job files.length 0 files _ hsmall)
    rw [hsince, Sweep.progressWords_said _ _ [] hquiet hbefore]
    rfl
  · intro hlarge
    have hsize : 100 ≤ files.length := by omega
    have hbefore := Sweep.flatMap_before_of_large job files (.first s files.length) hlarge rfl
    rw [← hturns] at hbefore
    have hwords := Sweep.progressWords_said files.length _ _ hquiet hbefore
    rw [← hsince] at hwords
    refine ⟨?_, ?_, ?_⟩
    · intro i t ht
      rw [hturns] at ht
      exact Sweep.before_turn_of_large job files _ i t hlarge rfl ht
    · intro summary hok
      obtain ⟨hall, -⟩ := hdone summary hok
      have hlength : (Sweep.turns job s).length = files.length := by
        rw [← hall, List.length_map]
      refine ⟨hall, ?_⟩
      rw [hwords, hlength, Sweep.reached_total files.length hsize]
    · intro f hf
      obtain ⟨done, last, rest, hts, hsplit, -, hlast⟩ := hbroken f hf
      refine ⟨done, last, rest, hts, hsplit, hlast, ?_⟩
      have hindex : done.length < files.length := by
        rw [hsplit]
        simp
      have hlength : (Sweep.turns job s).length = done.length + 1 := by
        rw [hts, List.length_append, List.length_singleton]
      rw [hwords, hlength, Sweep.reached, Sweep.range'_percentAt files.length done.length hsize hindex]

def passedTree : Tree :=
  (((Tree.empty.put [[100]] .directory).put [[100], [97]] (.file [0xFF])).put [[101]]
    .directory).put [[101], [98]] (.file (Utf8.encode "//#DEFINE E() f()\nE(1);\n".toList))

def namingJob (dirs : List Path) : Job := ⟨dirs, "*".toList, .standard, false⟩

def passedFile : SourceFile := ⟨[100, 47, 97], [[100], [97]]⟩

def failingFile : SourceFile := ⟨[101, 47, 98], [[101], [98]]⟩

/-- Naming a directory often makes a large sweep: here one of 1009 files that goes through, one of
1101 files that breaks off behind 300 of them, and one of 999 files. -/
theorem progress_reported_large_sweeps :
    Notice.progressWords ((Session.start passedTree).since
        (Sweep.run (namingJob (List.replicate 1009 [100])) (.start passedTree)).1) =
      ((List.range' 1 100).map fun p => Text.decimal p ++ "% done".toList) ∧
    Notice.progressWords ((Session.start passedTree).since
        (Sweep.run (namingJob (List.replicate 300 [100] ++ [101] :: List.replicate 800 [100]))
          (.start passedTree)).1) =
      ((List.range' 1 28).map fun p => Text.decimal p ++ "% done".toList) ∧
    Notice.progressWords ((Session.start passedTree).since
        (Sweep.run (namingJob (List.replicate 999 [100])) (.start passedTree)).1) = [] := by
  refine ⟨?_, ?_, ?_⟩
  · have hfiles : (namingJob (List.replicate 1009 [100])).files (Session.start passedTree).tree =
        .ok (List.replicate 1009 passedFile) := by
      decide +kernel
    have hok : (Sweep.run (namingJob (List.replicate 1009 [100])) (.start passedTree)).2 =
        .ok ⟨1009, 0, 0, 0⟩ := by
      decide +kernel
    have hreport := progress_reported_once_per_percent _ _ _ hfiles
    rw [List.length_replicate] at hreport
    exact ((hreport.2.2 (by decide)).2.1 _ hok).2
  · have hfiles : (namingJob (List.replicate 300 [100] ++ [101] :: List.replicate 800 [100])).files
        (Session.start passedTree).tree =
        .ok (List.replicate 300 passedFile ++ failingFile :: List.replicate 800 passedFile) := by
      decide +kernel
    have herror : (Sweep.run (namingJob (List.replicate 300 [100] ++ [101] ::
        List.replicate 800 [100])) (.start passedTree)).2 =
        .error (.atLine "E(1);".toList [101, 47, 98] (.tooManyArguments "E".toList 1 0)) := by
      decide +kernel
    have hturns : (Sweep.turns (namingJob (List.replicate 300 [100] ++ [101] ::
        List.replicate 800 [100])) (.start passedTree)).length = 301 := by
      decide +kernel
    have hlength : (List.replicate 300 passedFile ++
        failingFile :: List.replicate 800 passedFile).length = 1101 := by
      rw [List.length_append, List.length_cons, List.length_replicate, List.length_replicate]
    have hreport := progress_reported_once_per_percent _ _ _ hfiles
    rw [hlength] at hreport
    obtain ⟨done, last, rest, hts, -, -, hwords⟩ := (hreport.2.2 (by decide)).2.2 _ herror
    have hdone : done.length = 300 := by
      rw [hts, List.length_append, List.length_singleton] at hturns
      omega
    have hdue : (List.range' 1 100).filter (fun p => (p - 1) * 1101 ≤ 300 * 100) =
        List.range' 1 28 := by
      decide
    rw [hwords, hdone, hdue]
  · have hfiles : (namingJob (List.replicate 999 [100])).files (Session.start passedTree).tree =
        .ok (List.replicate 999 passedFile) := by
      decide +kernel
    have hreport := progress_reported_once_per_percent _ _ _ hfiles
    rw [List.length_replicate] at hreport
    exact hreport.2.1 (by decide)

end CommentMacros
