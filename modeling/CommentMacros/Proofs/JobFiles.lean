import CommentMacros.Sweep
import Mathlib.Data.List.Basic
import Mathlib.Tactic.SplitIfs

namespace CommentMacros

namespace Tree

theorem node?_write (t : Tree) (r s : Route) (content : Bytes) (hr : r ≠ []) :
    (t.write r content).node? s = if s = r then some (.file content) else t.node? s := by
  by_cases hs : s = []
  · have hne : s ≠ r := fun h => hr (h ▸ hs)
    rw [if_neg hne, hs]
    rfl
  · simp only [write, put, node?, hs, if_false]
    exact find?_putEntry t.ordered

theorem node?_of_mem (t : Tree) (r : Route) (x : Node) (hr : r ≠ []) (h : (r, x) ∈ t.entries) :
    t.node? r = some x := by
  have hfind (es : List (Route × Node)) (ho : es.Pairwise fun a b => a.1 < b.1)
      (hmem : (r, x) ∈ es) : es.find? (·.1 == r) = some (r, x) := by
    induction es with
    | nil => cases hmem
    | cons e es ih =>
      obtain ⟨he, hes⟩ := List.pairwise_cons.mp ho
      rcases List.mem_cons.mp hmem with rfl | hmem
      · simp
      · have hne : e.1 ≠ r := by
          intro heq
          exact List.lt_irrefl r (heq ▸ he (r, x) hmem)
        rw [List.find?_cons, beq_eq_false_iff_ne.mpr hne]
        exact ih hes hmem
  rw [node?, if_neg hr, hfind t.entries t.ordered h]
  rfl

theorem isSome_read?_write (t : Tree) (r s : Route) (content : Bytes) (hr : r ≠ [])
    (h : (t.read? s).isSome) : ((t.write r content).read? s).isSome := by
  rw [read?_write hr]
  split_ifs with hs
  · rfl
  · exact h

end Tree

structure SourceFile.In (file : SourceFile) (t : Tree) : Prop where
  route_ne_nil : file.route ≠ []
  readable : (t.read? file.route).isSome

theorem SourceFile.listed?_eq_some_iff (p : Pattern) (dir : Path) (base r : Route) (x : Node)
    (file : SourceFile) :
    SourceFile.listed? p dir base (r, x) = some file ↔
      ∃ content below, x = .file content ∧ r = base ++ below ∧
        below.getLast?.any p.admits = true ∧ file = ⟨below.foldl Path.join dir, r⟩ := by
  cases x with
  | directory => simp [listed?]
  | link target => simp [listed?]
  | file content =>
    rw [listed?]
    cases hbelow : afterLead? base r with
    | none =>
      have hnone : ∀ below, r ≠ base ++ below := by
        intro below hr
        rw [afterLead?_eq_some_iff.mpr hr] at hbelow
        cases hbelow
      simp [hnone]
    | some below =>
      have hr := afterLead?_eq_some_iff.mp hbelow
      dsimp only
      constructor
      · intro h
        split_ifs at h with hname
        exact ⟨content, below, rfl, hr, hname, (Option.some.inj h).symm⟩
      · rintro ⟨-, below', -, hr', hname, rfl⟩
        obtain rfl : below = below' := List.append_cancel_left (hr.symm.trans hr')
        rw [if_pos hname]

theorem SourceFile.listed?_eq_some (p : Pattern) (dir : Path) (base : Route) (t : Tree)
    (entry : Route × Node) (file : SourceFile) (hentry : entry ∈ t.entries)
    (h : SourceFile.listed? p dir base entry = some file) : file.In t := by
  obtain ⟨r, x⟩ := entry
  obtain ⟨content, below, rfl, rfl, hname, rfl⟩ :=
    (SourceFile.listed?_eq_some_iff p dir base r x file).mp h
  have hne : below ≠ [] := by
    rintro rfl
    simp at hname
  have hroute : base ++ below ≠ [] := List.append_ne_nil_of_right_ne_nil base hne
  refine ⟨hroute, ?_⟩
  rw [Tree.read?, t.node?_of_mem _ _ hroute hentry]
  rfl

/-- The files of a job can be read. -/
theorem Job.files_in (job : Job) (t : Tree) (files : List SourceFile)
    (h : job.files t = .ok files) : ∀ file ∈ files, file.In t := by
  rw [Job.files] at h
  intro file hfile
  split_ifs at h
  cases hdirs : t.directories job.directories with
  | error f =>
    rw [hdirs] at h
    cases h
  | ok dirs =>
    rw [hdirs] at h
    dsimp only at h
    cases hmask : Mask.parse job.mask with
    | error fault =>
      rw [hmask] at h
      cases h
    | ok mask =>
      rw [hmask] at h
      dsimp only at h
      split_ifs at h
      obtain rfl := Except.ok.inj h
      obtain ⟨d, -, hbelow⟩ := List.mem_flatMap.mp hfile
      obtain ⟨entry, hentry, hof⟩ := List.mem_filterMap.mp hbelow
      exact SourceFile.listed?_eq_some mask.pattern d.1 d.2 t entry file hentry hof

namespace Session

theorem tree_postAll (s : Session) (ns : List Notice) : (s.postAll ns).tree = s.tree := by
  induction ns generalizing s with
  | nil => rfl
  | cons n ns ih => exact ih (s.post n)

/-- The route of the log stays the same for a whole session. -/
theorem log_post (s : Session) (n : Notice) :
    (s.post n).log.map Log.route = s.log.map Log.route := by
  rw [post]
  dsimp only
  split_ifs
  · rw [Option.map_map]
    rfl
  · rfl

theorem log_postAll (s : Session) (ns : List Notice) :
    (s.postAll ns).log.map Log.route = s.log.map Log.route := by
  induction ns generalizing s with
  | nil => rfl
  | cons n ns ih => exact (ih (s.post n)).trans (s.log_post n)

theorem settleFor_of_ne (s : Session) (r : Route) (h : s.log.map Log.route ≠ some r) :
    s.settleFor r = s := by
  rw [settleFor]
  split_ifs with hlog
  · obtain ⟨l, hl, hroute⟩ := (Option.any_eq_true _ _).mp hlog
    refine absurd ?_ h
    rw [hl, Option.map_some, eq_of_beq hroute]
  · rfl

end Session

end CommentMacros
