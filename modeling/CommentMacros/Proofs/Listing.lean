import CommentMacros.Proofs.JobFiles
import Mathlib.Data.List.Nodup

namespace CommentMacros

def Below (base r : Route) : Prop := base <+: r ∧ base ≠ r

instance (base r : Route) : Decidable (Below base r) :=
  inferInstanceAs (Decidable (base <+: r ∧ base ≠ r))

namespace Tree

def admits (t : Tree) (p : Pattern) (r : Route) : Bool :=
  (t.read? r).isSome && r.getLast?.any p.admits

def encloses (t : Tree) (dir : Path) (r : Route) : Bool :=
  (t.directory? dir).any fun base => decide (Below base r)

theorem mem_of_read? (t : Tree) (r : Route) (content : Bytes) (h : t.read? r = some content) :
    (r, .file content) ∈ t.entries := by
  unfold read? node? at h
  split_ifs at h with hr
  cases hfind : t.entries.find? (·.1 == r) with
  | none => simp [hfind] at h
  | some entry =>
    obtain ⟨s, x⟩ := entry
    have hs : s = r := eq_of_beq (List.find?_some hfind :)
    subst hs
    rw [hfind] at h
    cases x with
    | file c =>
      obtain rfl : c = content := Option.some.inj h
      exact List.mem_of_find?_eq_some hfind
    | directory => cases h
    | link target => cases h

theorem nodup_routes (t : Tree) : (t.entries.map (·.1)).Nodup := by
  have hordered : (t.entries.map (·.1)).Pairwise (· < ·) := List.pairwise_map.mpr t.ordered
  refine hordered.imp ?_
  rintro a b hlt rfl
  exact List.lt_irrefl a hlt

section Below

variable (t : Tree) (p : Pattern) (dir : Path) (base : Route)

theorem routes_filesBelow :
    (t.filesBelow p dir base).map (·.route) = t.entries.filterMap fun entry =>
      (SourceFile.listed? p dir base entry).map (·.route) :=
  List.map_filterMap

theorem route_listed (entry : Route × Node) (r : Route)
    (h : (SourceFile.listed? p dir base entry).map (·.route) = some r) : entry.1 = r := by
  obtain ⟨file, hfile, rfl⟩ := Option.map_eq_some_iff.mp h
  obtain ⟨-, -, -, -, -, rfl⟩ :=
    (SourceFile.listed?_eq_some_iff p dir base entry.1 entry.2 file).mp hfile
  rfl

theorem nodup_filesBelow : ((t.filesBelow p dir base).map (·.route)).Nodup := by
  have hdistinct : t.entries.Pairwise fun a b => a.1 ≠ b.1 := List.pairwise_map.mp t.nodup_routes
  rw [routes_filesBelow]
  refine hdistinct.filterMap _ ?_
  intro a b hne r hr s hs
  rw [← route_listed p dir base a r hr, ← route_listed p dir base b s hs]
  exact hne

theorem mem_filesBelow (r : Route) :
    r ∈ (t.filesBelow p dir base).map (·.route) ↔ t.admits p r = true ∧ Below base r := by
  constructor
  · intro hmem
    obtain ⟨file, hfile, rfl⟩ := List.mem_map.mp hmem
    obtain ⟨⟨r, x⟩, hentry, hof⟩ := List.mem_filterMap.mp hfile
    have hin := SourceFile.listed?_eq_some p dir base t (r, x) file hentry hof
    obtain ⟨content, below, rfl, rfl, hname, rfl⟩ :=
      (SourceFile.listed?_eq_some_iff p dir base r x file).mp hof
    have hne : below ≠ [] := by
      rintro rfl
      simp at hname
    have hlast : (base ++ below).getLast? = below.getLast? :=
      List.getLast?_append_of_ne_nil base hne
    refine ⟨?_, List.prefix_append base below, ?_⟩
    · rw [admits, hlast, hname, Bool.and_true]
      exact hin.readable
    · simpa using hne
  · rintro ⟨hadmits, ⟨below, rfl⟩, hne⟩
    rw [admits, Bool.and_eq_true] at hadmits
    obtain ⟨content, hread⟩ := Option.isSome_iff_exists.mp hadmits.1
    have hbelow : below ≠ [] := by simpa using hne
    have hname : below.getLast?.any p.admits = true := by
      rw [← List.getLast?_append_of_ne_nil base hbelow]
      exact hadmits.2
    have hof := (SourceFile.listed?_eq_some_iff p dir base (base ++ below) (.file content)
      ⟨below.foldl Path.join dir, base ++ below⟩).mpr ⟨content, below, rfl, rfl, hname, rfl⟩
    exact List.mem_map.mpr
      ⟨_, List.mem_filterMap.mpr ⟨_, t.mem_of_read? _ content hread, hof⟩, rfl⟩

/-- Below one directory a file is listed once. -/
theorem count_filesBelow (r : Route) :
    ((t.filesBelow p dir base).map (·.route)).count r =
      if t.admits p r = true ∧ Below base r then 1 else 0 := by
  rw [(t.nodup_filesBelow p dir base).count]
  exact if_congr (t.mem_filesBelow p dir base r) rfl rfl

end Below

theorem directories_of_valid (t : Tree) (paths : List Path)
    (h : ∀ dir ∈ paths, (t.directory? dir).isSome) :
    ∃ dirs, t.directories paths = .ok dirs ∧ dirs.map (·.1) = paths ∧
      ∀ d ∈ dirs, t.directory? d.1 = some d.2 := by
  induction paths with
  | nil => exact ⟨[], rfl, rfl, by simp⟩
  | cons dir paths ih =>
    obtain ⟨hdir, hpaths⟩ := List.forall_mem_cons.mp h
    obtain ⟨base, hbase⟩ := Option.isSome_iff_exists.mp hdir
    obtain ⟨dirs, hdirs, hmap, hroute⟩ := ih hpaths
    refine ⟨(dir, base) :: dirs, ?_, ?_, List.forall_mem_cons.mpr ⟨hbase, hroute⟩⟩
    · rw [directories, hbase, hdirs]
      rfl
    · rw [List.map_cons, hmap]

/-- A file is listed for every directory that it lies below. -/
theorem count_files (t : Tree) (p : Pattern) (dirs : List (Path × Route)) (r : Route)
    (h : ∀ d ∈ dirs, t.directory? d.1 = some d.2) :
    ((dirs.flatMap fun d => t.filesBelow p d.1 d.2).map (·.route)).count r =
      if t.admits p r then (dirs.map (·.1)).countP (t.encloses · r) else 0 := by
  induction dirs with
  | nil => simp
  | cons d dirs ih =>
    obtain ⟨hd, hdirs⟩ := List.forall_mem_cons.mp h
    have hencloses : t.encloses d.1 r = decide (Below d.2 r) := by
      rw [encloses, hd, Option.any_some]
    rw [List.flatMap_cons, List.map_append, List.count_append, ih hdirs, count_filesBelow,
      List.map_cons, List.countP_cons, hencloses]
    by_cases hadmits : t.admits p r = true
    · by_cases hbelow : Below d.2 r
      · simp [hadmits, hbelow, Nat.add_comm]
      · simp [hadmits, hbelow]
    · simp [hadmits]

/-- The paths lead to directories none of which is or lies in another. -/
def Apart (t : Tree) (paths : List Path) : Prop :=
  paths.Pairwise fun a b => ∀ base ∈ t.directory? a, ∀ base' ∈ t.directory? b,
    ¬base <+: base' ∧ ¬base' <+: base

theorem countP_encloses_of_apart (t : Tree) (paths : List Path) (r : Route)
    (h : t.Apart paths) : paths.countP (t.encloses · r) ≤ 1 := by
  induction paths with
  | nil => exact Nat.zero_le 1
  | cons dir paths ih =>
    obtain ⟨hdir, hpaths⟩ := List.pairwise_cons.mp h
    rw [List.countP_cons]
    split_ifs with hencloses
    · -- two directories around one place are one in the other
      have hnone : paths.countP (t.encloses · r) = 0 := by
        rw [List.countP_eq_zero]
        intro other hother hencloses'
        obtain ⟨base, hbase, hbelow⟩ := (Option.any_eq_true _ _).mp hencloses
        obtain ⟨base', hbase', hbelow'⟩ := (Option.any_eq_true _ _).mp hencloses'
        obtain ⟨hno, hno'⟩ := hdir other hother base hbase base' hbase'
        rcases List.prefix_or_prefix_of_prefix (of_decide_eq_true hbelow).1
          (of_decide_eq_true hbelow').1 with hle | hle
        · exact hno hle
        · exact hno' hle
      omega
    · have hrest := ih hpaths
      omega

end Tree

/-- A job with directories and a mask in order lists every admitted file as often as it lies below
one of the directories, and nothing else. So each such file is listed exactly once, and none is
gone through twice, if and only if no file lies below two of the directories; it is so in
particular for directories of which none is or lies in another. -/
theorem files_listed_once_per_directory (job : Job) (t : Tree) (mask : Mask)
    (hsome : job.directories ≠ []) (hdirs : ∀ dir ∈ job.directories, (t.directory? dir).isSome)
    (hmask : Mask.parse job.mask = .ok mask) (hsize : mask.isManageable = true) :
    ∃ files, job.files t = .ok files ∧
      (∀ r, (files.map (·.route)).count r =
        if t.admits mask.pattern r then job.directories.countP (t.encloses · r) else 0) ∧
      ((∀ r, (files.map (·.route)).count r =
          if t.admits mask.pattern r ∧ ∃ dir ∈ job.directories, t.encloses dir r then 1 else 0) ↔
        ∀ r, t.admits mask.pattern r → job.directories.countP (t.encloses · r) ≤ 1) ∧
      ((files.map (·.route)).Nodup ↔
        ∀ r, t.admits mask.pattern r → job.directories.countP (t.encloses · r) ≤ 1) ∧
      (t.Apart job.directories → (files.map (·.route)).Nodup) := by
  obtain ⟨dirs, hok, hpaths, hroutes⟩ := t.directories_of_valid job.directories hdirs
  have hfiles : job.files t = .ok (dirs.flatMap fun d => t.filesBelow mask.pattern d.1 d.2) := by
    rw [Job.files, if_neg hsome, hok]
    dsimp only
    rw [hmask]
    dsimp only
    rw [if_pos hsize]
  have hcount (r : Route) := t.count_files mask.pattern dirs r hroutes
  rw [hpaths] at hcount
  have hnodup : ((dirs.flatMap fun d => t.filesBelow mask.pattern d.1 d.2).map (·.route)).Nodup ↔
      ∀ r, t.admits mask.pattern r → job.directories.countP (t.encloses · r) ≤ 1 := by
    rw [List.nodup_iff_count_le_one]
    refine forall_congr' fun r => ?_
    rw [hcount r]
    split_ifs with hadmits
    · simp [hadmits]
    · simp [hadmits]
  refine ⟨_, hfiles, hcount, forall_congr' fun r => ?_, hnodup, ?_⟩
  · rw [hcount r]
    by_cases hadmits : t.admits mask.pattern r = true
    · have hpos : (∃ dir ∈ job.directories, t.encloses dir r = true) ↔
          0 < job.directories.countP (t.encloses · r) := List.countP_pos_iff.symm
      simp only [hadmits, if_true, true_and, hpos, forall_const]
      split_ifs with h
      · omega
      · omega
    · simp [hadmits]
  · intro hapart
    exact hnodup.mpr fun r _ => t.countP_encloses_of_apart job.directories r hapart

def nestedTree : Tree :=
  ((((Tree.empty.put [[100]] .directory).put [[100], [97]] (.file [])).put [[100], [101]]
    .directory).put [[100], [101], [98]] (.file [])).put [[100], [108]] (.link [101])

/-- With `d` and `d/e` named, the file in `d/e` is listed twice and the file in `d` once. -/
theorem files_listed_nested :
    ∃ files, Job.files ⟨[[100], [100, 47, 101]], "*".toList, .standard, false⟩ nestedTree =
        .ok files ∧
      (files.map (·.route)).count [[100], [97]] = 1 ∧
      (files.map (·.route)).count [[100], [101], [98]] = 2 ∧
      (files.map (·.route)).count [[100], [108], [98]] = 0 ∧ ¬(files.map (·.route)).Nodup := by
  obtain ⟨files, hfiles, hcount, -, hnodup, -⟩ := files_listed_once_per_directory
    ⟨[[100], [100, 47, 101]], "*".toList, .standard, false⟩ nestedTree _ (by simp)
    (by decide +kernel) (rfl : Mask.parse "*".toList = .ok _) (by decide +kernel)
  refine ⟨files, hfiles, ?_, ?_, ?_, ?_⟩
  · rw [hcount]
    decide +kernel
  · rw [hcount]
    decide +kernel
  · rw [hcount]
    decide +kernel
  · intro h
    have htwo := hnodup.mp h [[100], [101], [98]] (by decide +kernel)
    revert htwo
    decide +kernel

/-- A directory that is named twice brings its files twice. -/
theorem repeated_directory_lists_twice :
    Job.files ⟨[[100], [100]], "a".toList, .standard, false⟩ nestedTree =
      .ok [⟨[100, 47, 97], [[100], [97]]⟩, ⟨[100, 47, 97], [[100], [97]]⟩] := by
  decide +kernel

end CommentMacros
