import CommentMacros.Proofs.Stages

namespace CommentMacros

namespace Notice

/-- The notice reads as a report of progress. -/
def tellsProgress (n : Notice) : Bool := "% done".toList.isSuffixOf n.words

def progressWords (ns : List Notice) : List Text := (ns.filter tellsProgress).map words

theorem tellsProgress_progress (p : Nat) : (progress p).tellsProgress = true :=
  List.isSuffixOf_iff_suffix.mpr (List.suffix_append (Text.decimal p) "% done".toList)

theorem tellsProgress_of_last (n : Notice) (front : Text) (c : Char)
    (hwords : n.words = front ++ [c]) (hc : c ≠ 'e') : n.tellsProgress = false := by
  rw [tellsProgress, hwords, Bool.eq_false_iff]
  intro h
  obtain ⟨t, ht⟩ := List.isSuffixOf_iff_suffix.mp h
  have hlast := congrArg List.getLast? ht
  rw [List.getLast?_append, List.getLast?_append] at hlast
  exact hc (Option.some.inj hlast).symm

theorem tellsProgress_eq_false (n : Notice) (hprogress : ∀ p, n ≠ .progress p)
    (hother : ∀ channel text, n ≠ .other channel text) : n.tellsProgress = false := by
  cases n with
  | processing k =>
    exact tellsProgress_of_last _ ("Processing ".toList ++ Text.grouped k ++ " file".toList) 's'
      (List.append_assoc _ " file".toList ['s']).symm (by decide)
  | progress p => exact absurd rfl (hprogress p)
  | adding symbol =>
    exact tellsProgress_of_last _ ("Adding symbol '".toList ++ symbol) '\'' rfl (by decide)
  | skipping file =>
    exact tellsProgress_of_last _ ("Skipping non UTF-8 file '".toList ++ file.display) '\'' rfl
      (by decide)
  | processed file =>
    exact tellsProgress_of_last _
      ("Processed '".toList ++ (file.fileName?.map Path.display).getD []) '\'' rfl (by decide)
  | replaced file k =>
    exact tellsProgress_of_last _
      (file.display ++ ": ".toList ++ Text.decimal k ++ " lines rewritte".toList) 'n'
      (List.append_assoc _ " lines rewritte".toList ['n']).symm (by decide)
  | other channel text => exact absurd rfl (hother channel text)

end Notice

namespace Session

variable (s : Session)

def since (later : Session) : List Notice := later.notices.drop s.notices.length

theorem since_of_notices (later : Session) (ns : List Notice)
    (h : later.notices = s.notices ++ ns) : s.since later = ns := by
  rw [since, h, List.drop_left]

theorem notices_post (n : Notice) : (s.post n).notices = s.notices ++ [n] := by
  rw [notices, post, List.reverse_cons]
  rfl

theorem notices_postAll (ns : List Notice) : (s.postAll ns).notices = s.notices ++ ns := by
  induction ns generalizing s with
  | nil => exact (List.append_nil _).symm
  | cons n ns ih =>
    change ((s.post n).postAll ns).notices = _
    rw [ih, notices_post, List.append_assoc, List.singleton_append]

theorem notices_settleFor (r : Route) : (s.settleFor r).notices = s.notices := by
  unfold settleFor settle
  split_ifs
  · cases s.log <;> rfl
  · rfl

theorem notices_write (r : Route) (content : Bytes) : (s.write r content).notices = s.notices :=
  s.notices_settleFor r

end Session

namespace Sweep

/-- One state leads to another, saying these things and reporting no progress. -/
structure Says (st : State) (ns : List Notice) (st' : State) : Prop where
  notices : st'.session.notices = st.session.notices ++ ns
  percent : st'.percent = st.percent
  quiet : ∀ n ∈ ns, n.tellsProgress = false

theorem Says.trans {st mid st' : State} {ns ms : List Notice} (h : Says st ns mid)
    (h' : Says mid ms st') : Says st (ns ++ ms) st' where
  notices := by
    rw [h'.notices, h.notices, List.append_assoc]
  percent := h'.percent.trans h.percent
  quiet := List.forall_mem_append.mpr ⟨h.quiet, h'.quiet⟩

theorem says_post (st : State) (n : Notice) (h : n.tellsProgress = false) :
    Says st [n] (st.post n) :=
  ⟨st.session.notices_post n, rfl, by simpa using h⟩

theorem says_facing (st : State) (file : SourceFile) : Says st [] (st.facing file) :=
  ⟨by rw [List.append_nil]; exact st.session.notices_settleFor file.route, rfl, by simp⟩

theorem says_tried (st : State) (attempt : Attempt) :
    Says st (attempt.added.map Notice.adding) (st.tried attempt) := by
  refine ⟨st.session.notices_postAll _, rfl, ?_⟩
  intro n hn
  obtain ⟨name, -, rfl⟩ := List.mem_map.mp hn
  exact Notice.tellsProgress_eq_false _ (by simp) (by simp)

theorem says_keep (job : Job) (st : State) (file : SourceFile) (e : Expanded) :
    Says st [.processed file.path, .replaced file.path e.linesHit] (st.keep job file e) := by
  refine ⟨?_, rfl, ?_⟩
  · unfold State.keep
    dsimp only
    rw [Session.notices_post, Session.notices_post, List.append_assoc]
    split_ifs
    · rfl
    · rw [Session.notices_write]
      rfl
  · intro n hn
    apply Notice.tellsProgress_eq_false n
    · rintro p rfl
      simp at hn
    · rintro channel text rfl
      simp at hn

theorem says_workOn (job : Job) (st : State) (file : SourceFile) :
    ∃ ns, Says st ns (workOn job st file).1 := by
  have hfacing := says_facing st file
  rcases workOn_cases job st file with ⟨-, hwork⟩ | ⟨-, hwork⟩ |
    ⟨source, -, ⟨f, -, hwork⟩ | ⟨e, -, hwork⟩⟩
  · rw [hwork]
    exact ⟨_, hfacing⟩
  · rw [hwork]
    have hskipping := Notice.tellsProgress_eq_false (.skipping file.path) (by simp) (by simp)
    exact ⟨_, hfacing.trans (says_post _ _ hskipping)⟩
  · rw [hwork]
    exact ⟨_, hfacing.trans (says_tried _ _)⟩
  · rw [hwork]
    dsimp only
    split_ifs
    · exact ⟨_, (hfacing.trans (says_tried _ _)).trans (says_keep job _ file e)⟩
    · exact ⟨_, hfacing.trans (says_tried _ _)⟩

/-- The turn of a file: what is said before it is opened and while it is worked on, and how it
fails if it does. -/
structure Turn where
  file : SourceFile
  before : List Notice
  during : List Notice
  failure : Option Failure

def Turn.said (t : Turn) : List Notice := t.before ++ t.during

def State.turn (job : Job) (total index : Nat) (st : State) (file : SourceFile) : Turn where
  file := file
  before := st.session.since (st.report total index).session
  during := (st.report total index).session.since
    (workOn job (st.report total index) file).1.session
  failure := (workOn job (st.report total index) file).2

def turnsFrom (job : Job) (total : Nat) : Nat → List SourceFile → State → List Turn
  | _, [], _ => []
  | index, file :: files, st =>
    st.turn job total index file ::
      match workOn job (st.report total index) file with
      | (_, some _) => []
      | (st, none) => turnsFrom job total (index + 1) files st

def turns (job : Job) (s : Session) : List Turn :=
  match job.files s.tree with
  | .error _ => []
  | .ok files => turnsFrom job files.length 0 files (.first s files.length)

section Turn

variable (job : Job) (total index : Nat) (st : State) (file : SourceFile)

theorem notices_report :
    (st.report total index).session.notices =
      st.session.notices ++ (st.turn job total index file).before := by
  have hextends : ∃ ns, (st.report total index).session.notices = st.session.notices ++ ns := by
    unfold State.report
    dsimp only
    split_ifs
    · exact ⟨[], (List.append_nil _).symm⟩
    · exact ⟨_, st.session.notices_post _⟩
  obtain ⟨ns, hns⟩ := hextends
  rw [State.turn, st.session.since_of_notices _ ns hns, hns]

theorem says_turn :
    Says (st.report total index) (st.turn job total index file).during
      (workOn job (st.report total index) file).1 := by
  obtain ⟨ns, hsays⟩ := says_workOn job (st.report total index) file
  have hduring : (st.turn job total index file).during = ns :=
    (st.report total index).session.since_of_notices _ ns hsays.notices
  rw [hduring]
  exact hsays

theorem notices_turn :
    (workOn job (st.report total index) file).1.session.notices =
      st.session.notices ++ (st.turn job total index file).said := by
  rw [(says_turn job total index st file).notices, notices_report job total index st file,
    Turn.said, List.append_assoc]

end Turn

/-- The files have had their turns in order, all of them or up to the one that fails. -/
structure InTurn (files : List SourceFile) (outcome : Option Failure) (ts : List Turn) : Prop where
  all : outcome = none → ts.map (·.file) = files ∧ ∀ t ∈ ts, t.failure = none
  broken : ∀ f, outcome = some f → ∃ done last rest, ts = done ++ [last] ∧
    files = done.map (·.file) ++ last.file :: rest ∧ (∀ t ∈ done, t.failure = none) ∧
    last.failure = some f

theorem InTurn.length_le {files : List SourceFile} {outcome : Option Failure} {ts : List Turn}
    (h : InTurn files outcome ts) : ts.length ≤ files.length := by
  cases outcome with
  | none =>
    obtain ⟨hfiles, -⟩ := h.all rfl
    rw [← hfiles, List.length_map]
  | some f =>
    obtain ⟨done, last, rest, rfl, rfl, -, -⟩ := h.broken f rfl
    simp

theorem workThrough_turns (job : Job) (total index : Nat) (files : List SourceFile) (st : State) :
    InTurn files (workThrough job total index files st).2 (turnsFrom job total index files st) ∧
    (workThrough job total index files st).1.session.notices =
      st.session.notices ++ (turnsFrom job total index files st).flatMap Turn.said ∧
    ∀ t ∈ turnsFrom job total index files st, ∀ n ∈ t.during, n.tellsProgress = false := by
  induction files generalizing index st with
  | nil =>
    refine ⟨⟨fun _ => ⟨rfl, by simp [turnsFrom]⟩, fun f hf => by cases hf⟩, ?_,
      by simp [turnsFrom]⟩
    exact (List.append_nil _).symm
  | cons file files ih =>
    have hnotices := notices_turn job total index st file
    have hquiet := (says_turn job total index st file).quiet
    rw [workThrough, turnsFrom]
    rcases hwork : workOn job (st.report total index) file with ⟨mid, _ | f⟩
    · have hfailure : (st.turn job total index file).failure = none := congrArg Prod.snd hwork
      rw [hwork] at hnotices
      obtain ⟨hturn, hrest, hquietrest⟩ := ih (index + 1) mid
      dsimp only
      refine ⟨⟨?_, ?_⟩, ?_, List.forall_mem_cons.mpr ⟨hquiet, hquietrest⟩⟩
      · intro hnone
        obtain ⟨hfiles, hfine⟩ := hturn.all hnone
        refine ⟨?_, List.forall_mem_cons.mpr ⟨hfailure, hfine⟩⟩
        rw [List.map_cons, hfiles]
        rfl
      · intro f hf
        obtain ⟨done, last, rest, hts, hfiles, hfine, hlast⟩ := hturn.broken f hf
        refine ⟨st.turn job total index file :: done, last, rest, ?_, ?_, ?_, hlast⟩
        · rw [hts, List.cons_append]
        · rw [hfiles, List.map_cons, List.cons_append]
          rfl
        · exact List.forall_mem_cons.mpr ⟨hfailure, hfine⟩
      · rw [hrest, hnotices, List.flatMap_cons, List.append_assoc]
    · have hfailure : (st.turn job total index file).failure = some f := congrArg Prod.snd hwork
      rw [hwork] at hnotices
      dsimp only
      refine ⟨⟨?_, ?_⟩, ?_, by simpa using hquiet⟩
      · intro hnone
        cases hnone
      · intro f' hf'
        obtain rfl := Option.some.inj hf'
        exact ⟨[], st.turn job total index file, files, rfl, rfl, by simp, hfailure⟩
      · rw [hnotices, List.flatMap_singleton]

theorem filter_flatMap_said (ts : List Turn)
    (hquiet : ∀ t ∈ ts, ∀ n ∈ t.during, n.tellsProgress = false) :
    (ts.flatMap Turn.said).filter Notice.tellsProgress =
      (ts.flatMap Turn.before).filter Notice.tellsProgress := by
  induction ts with
  | nil => rfl
  | cons t ts ih =>
    obtain ⟨ht, hts⟩ := List.forall_mem_cons.mp hquiet
    have hduring : t.during.filter Notice.tellsProgress = [] :=
      List.filter_eq_nil_iff.mpr fun n hn => by simp [ht n hn]
    rw [List.flatMap_cons, List.flatMap_cons, List.filter_append, List.filter_append, ih hts,
      Turn.said, List.filter_append, hduring, List.append_nil]

/-- The reports of a sweep are what is said before its files. -/
theorem progressWords_said (k : Nat) (ts : List Turn) (ps : List Nat)
    (hquiet : ∀ t ∈ ts, ∀ n ∈ t.during, n.tellsProgress = false)
    (hbefore : ts.flatMap Turn.before = ps.map Notice.progress) :
    Notice.progressWords (.processing k :: ts.flatMap Turn.said) =
      ps.map fun p => Text.decimal p ++ "% done".toList := by
  have hall : (ps.map Notice.progress).filter Notice.tellsProgress = ps.map Notice.progress := by
    apply List.filter_eq_self.mpr
    intro n hn
    obtain ⟨p, -, rfl⟩ := List.mem_map.mp hn
    exact Notice.tellsProgress_progress p
  have hprocessing := Notice.tellsProgress_eq_false (.processing k) (by simp) (by simp)
  rw [Notice.progressWords, List.filter_cons_of_neg (by simp [hprocessing]),
    filter_flatMap_said ts hquiet, hbefore, hall, List.map_map]
  rfl

/-- The turns of a sweep tell all that it says and how it ends. -/
theorem run_turns (job : Job) (s : Session) (files : List SourceFile)
    (hfiles : job.files s.tree = .ok files) :
    s.since (run job s).1 = .processing files.length :: (turns job s).flatMap Turn.said ∧
    (∀ t ∈ turns job s, ∀ n ∈ t.during, n.tellsProgress = false) ∧
    (∀ summary, (run job s).2 = .ok summary →
      (turns job s).map (·.file) = files ∧ ∀ t ∈ turns job s, t.failure = none) ∧
    ∀ f, (run job s).2 = .error f → ∃ done last rest, turns job s = done ++ [last] ∧
      files = done.map (·.file) ++ last.file :: rest ∧ (∀ t ∈ done, t.failure = none) ∧
      last.failure = some f := by
  obtain ⟨hsession, hfailed, hdone⟩ := run_of_files job s files hfiles
  obtain ⟨hturn, hnotices, hquiet⟩ :=
    workThrough_turns job files.length 0 files (.first s files.length)
  have hturns : turns job s = turnsFrom job files.length 0 files (.first s files.length) := by
    rw [turns, hfiles]
  rw [hturns]
  refine ⟨?_, hquiet, ?_, ?_⟩
  · apply s.since_of_notices
    have hfirst : (State.first s files.length).session.notices =
        s.notices ++ [.processing files.length] := s.notices_post _
    rw [hsession, hnotices, hfirst, List.append_assoc, List.singleton_append]
  · intro summary hok
    apply hturn.all
    rcases houtcome : (workThrough job files.length 0 files (.first s files.length)).2 with _ | f
    · rfl
    · cases (hfailed f houtcome).symm.trans hok
  · intro f herror
    apply hturn.broken
    rcases houtcome : (workThrough job files.length 0 files (.first s files.length)).2 with _ | f'
    · cases (hdone houtcome).symm.trans herror
    · rw [Except.error.inj ((hfailed f' houtcome).symm.trans herror)]

end Sweep

end CommentMacros
