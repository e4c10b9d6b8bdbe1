import CommentMacros.Proofs.LineStructure
import CommentMacros.Proofs.SingleCall

namespace CommentMacros

/-- Expanding the text gives it back without any macro being applied, wherever the counter
starts. -/
def Unchanged (style : CommentStyle) (file : Path) (text : Text) : Prop :=
  ∀ n, ∃ e, (Attempt.ofSource style file text n).result.outcome = .ok e ∧ e.linesHit = 0 ∧
    e.text = text

/-- The text declares its macros without fault, has one kind of terminator, and no line of it
holds one of its macros. -/
def Settled (style : CommentStyle) (file : Path) (text : Text) : Prop :=
  ∃ table, MacroTable.ofLines style file ((Line.split text).map (·.body)) = .ok table ∧
    (∀ l ∈ Line.split text, ∀ m ∈ table.macros, Occurrence.find? style m.name l.body = none) ∧
    (Line.split text).map (Line.withTerminator (Line.newline (Line.split text))) =
      Line.split text

theorem expandLines_unhit (style : CommentStyle) (file : Path) (ms : List Macro) (number : Nat)
    (ls : List Line) (n n' : Nat) (done : List (Line × Bool))
    (h : expandLines style file ms number ls n = ⟨.ok done, n'⟩) (hhit : done.countP (·.2) = 0) :
    done.map (·.1) = ls ∧ ∀ l ∈ ls, ∀ m ∈ ms, Occurrence.find? style m.name l.body = none := by
  have hlines : List.Forall₂ (fun l d => d.2 = false → d.1 = l ∧
      ∀ m ∈ ms, Occurrence.find? style m.name l.body = none) ls done := by
    apply expandLines_forall₂ style file _ ms number ls n n' done _ h
    rintro l - place c body hit c' - hexpand rfl
    obtain ⟨hbody, -, habsent⟩ := absent_of_expandLine style place ms l.body body c c' hexpand
    exact ⟨by rw [hbody], habsent⟩
  clear h
  induction hlines with
  | nil => simp
  | @cons l d ls done hl hls ih =>
    rw [List.countP_cons, Nat.add_eq_zero_iff] at hhit
    have hd : d.2 = false := by simpa using hhit.2
    obtain ⟨hsame, habsent⟩ := hl hd
    obtain ⟨hmap, hrest⟩ := ih hhit.1
    exact ⟨by rw [List.map_cons, hsame, hmap], List.forall_mem_cons.mpr ⟨habsent, hrest⟩⟩

theorem one_terminator (text : Text)
    (h : Line.join ((Line.split text).map (Line.withTerminator (Line.newline (Line.split text)))) =
      text) :
    (Line.split text).map (Line.withTerminator (Line.newline (Line.split text))) =
      Line.split text := by
  have hproper := Line.split_proper text
  have hkeep : List.Forall₂ Line.Keeps (Line.split text) (Line.split text) :=
    List.forall₂_same.mpr fun l hl => ⟨rfl, rfl, (hproper.of_mem hl).1⟩
  have hsplit := Line.split_join _ (Line.newline_proper _ _ hproper hkeep)
  rw [h] at hsplit
  exact hsplit.symm

theorem unchanged_iff_settled (style : CommentStyle) (file : Path) (text : Text) :
    Unchanged style file text ↔ Settled style file text := by
  constructor
  · intro h
    obtain ⟨e, hok, hhit, htext⟩ := h 0
    obtain ⟨table, done, htable, hlines, he⟩ := Attempt.ofSource_eq_ok style file text 0 e hok
    subst he
    obtain ⟨hmap, habsent⟩ := expandLines_unhit style file table.macros 1 _ 0 _ done hlines hhit
    rw [hmap] at htext
    exact ⟨table, htable, habsent, one_terminator text htext⟩
  · rintro ⟨table, htable, habsent, hterminator⟩ n
    refine ⟨⟨text, 0, table.names⟩, ?_, rfl, rfl⟩
    have hlines := expandLines_of_absent style file table.macros 1 (Line.split text) n habsent
    have hjoin : (((Line.split text).map fun l => (l, false)).map fun l =>
        l.1.withTerminator (Line.newline (Line.split text))) = Line.split text := by
      rw [List.map_map]
      exact hterminator
    have hcount : ((Line.split text).map fun l => (l, false)).countP (·.2) = 0 := by
      simp [List.countP_eq_zero]
    simp only [Attempt.ofSource, htable, hlines, Counted.map, Except.map, hjoin, hcount,
      Line.join_split]

theorem expanded_terminators (style : CommentStyle) (file : Path) (source : Text) (n : Nat)
    (e : Expanded) (hpath : '\n' ∉ file.display)
    (h : (Attempt.ofSource style file source n).result.outcome = .ok e) :
    (Line.split e.text).map (Line.withTerminator (Line.newline (Line.split e.text))) =
      Line.split e.text := by
  obtain ⟨-, done, -, -, -, hsplit, hkeep⟩ := split_expanded style file source n e hpath h
  rw [hsplit, Line.newline_withTerminator _ _ hkeep, List.map_map]
  apply List.map_congr_left
  intro l _
  exact Line.withTerminator_twice _ l

/-- A second run changes nothing if and only if the first has left no macro in any line. -/
theorem unchanged_expanded_iff (style : CommentStyle) (file : Path) (source : Text) (n : Nat)
    (e : Expanded) (hopen : '(' ∉ style.opener) (hpath : '\n' ∉ file.display)
    (h : (Attempt.ofSource style file source n).result.outcome = .ok e) :
    Unchanged style file e.text ↔
      ∀ l ∈ Line.split e.text, ∀ name ∈ e.symbols, Occurrence.find? style name l.body = none := by
  obtain ⟨table, done, htable, -, he, -⟩ := split_expanded style file source n e hpath h
  have hagain := ofLines_expanded style file source n e hopen hpath h
  rw [htable] at hagain
  have hsymbols : e.symbols = table.names := by rw [he]
  rw [unchanged_iff_settled, hsymbols]
  constructor
  · rintro ⟨table', htable', habsent, -⟩ l hl name hname
    obtain rfl := Except.ok.inj (hagain.symm.trans htable')
    obtain ⟨m, hm, rfl⟩ := List.mem_map.mp hname
    exact habsent l hl m hm
  · intro habsent
    refine ⟨table, hagain, ?_, expanded_terminators style file source n e hpath h⟩
    intro l hl m hm
    exact habsent l hl m.name (List.mem_map_of_mem hm)

/-- A source whose lines hold at most one call each is finished by one run. -/
theorem absent_expanded_of_single (style : CommentStyle) (file : Path) (source : Text) (n : Nat)
    (e : Expanded) (hpath : '\n' ∉ file.display)
    (h : (Attempt.ofSource style file source n).result.outcome = .ok e) (table : MacroTable)
    (htable : MacroTable.ofLines style file ((Line.split source).map (·.body)) = .ok table)
    (hfresh : Fresh table file) (hplain : ∀ name ∈ table.names, Plain name)
    (hsingle : ∀ l ∈ Line.split source, style.isComment l.body = false →
      Single table.names l.body) :
    ∀ l ∈ Line.split e.text, ∀ name ∈ e.symbols, Occurrence.find? style name l.body = none := by
  obtain ⟨table', done, htable', hlines, he, hsplit, -⟩ :=
    split_expanded style file source n e hpath h
  obtain rfl := Except.ok.inj (htable.symm.trans htable')
  have hdone : List.Forall₂ (fun _ d => ∀ m ∈ table.macros,
      Occurrence.find? style m.name d.1.body = none) (Line.split source) done := by
    apply expandLines_forall₂ style file _ table.macros 1 (Line.split source) n _ done _ hlines
    intro l hl place c body hit c' hplace hexpand
    cases hcomment : style.isComment l.body with
    | false =>
      exact absent_of_single style place table hplain (by rw [hplace]; exact hfresh) l.body body
        c c' hit (hsingle l hl hcomment) hexpand
    | true =>
      have habsent : ∀ m ∈ table.macros, Occurrence.find? style m.name l.body = none :=
        fun m _ => Occurrence.find?_of_isComment style m.name l.body hcomment
      obtain ⟨-, rfl⟩ :=
        unhit_of_absent style place table.macros l.body body c c' hit habsent hexpand
      exact habsent
  intro l hl name hname
  rw [hsplit, List.map_map] at hl
  obtain ⟨d, hd, rfl⟩ := List.mem_map.mp hl
  rw [he] at hname
  obtain ⟨m, hm, rfl⟩ := List.mem_map.mp hname
  obtain ⟨l, -, habsent⟩ := exists_mem_of_forall₂ hdone.flip hd
  rw [Function.comp_apply, Line.withTerminator_body]
  exact habsent m hm

/-- When a second run changes nothing. In general it does so if and only if the text left by the
first is settled. If no parenthesis begins a comment and no line feed is in the path, the text
declares what the source declared, and what counts is that no line still holds a macro; a line
that held at most one call holds none. -/
theorem second_run_unchanged_iff (style : CommentStyle) (file : Path) (source : Text) (n : Nat)
    (e : Expanded) (h : (Attempt.ofSource style file source n).result.outcome = .ok e) :
    (Unchanged style file e.text ↔ Settled style file e.text) ∧
    ('(' ∉ style.opener → '\n' ∉ file.display →
      (Unchanged style file e.text ↔
        ∀ l ∈ Line.split e.text, ∀ name ∈ e.symbols,
          Occurrence.find? style name l.body = none) ∧
      ∀ table, MacroTable.ofLines style file ((Line.split source).map (·.body)) = .ok table →
        Fresh table file → (∀ name ∈ table.names, Plain name) →
        (∀ l ∈ Line.split source, style.isComment l.body = false → Single table.names l.body) →
        Unchanged style file e.text) := by
  refine ⟨unchanged_iff_settled style file e.text, ?_⟩
  intro hopen hpath
  have hiff := unchanged_expanded_iff style file source n e hopen hpath h
  refine ⟨hiff, ?_⟩
  intro table htable hfresh hplain hsingle
  exact hiff.mpr (absent_expanded_of_single style file source n e hpath h table htable hfresh
    hplain hsingle)

theorem second_run_unchanged_one_call :
    Unchanged .standard [97] "//#DEFINE LOG(x) f(x,__LINE__)\nf(1,2);\n".toList := by
  have hok : (Attempt.ofSource .standard [97]
      "//#DEFINE LOG(x) f(x,__LINE__)\nLOG(1);\n".toList 0).result.outcome =
      .ok ⟨"//#DEFINE LOG(x) f(x,__LINE__)\nf(1,2);\n".toList, 1, ["LOG".toList]⟩ := by
    decide +kernel
  exact ((second_run_unchanged_iff .standard [97] _ 0 _ hok).2 (by decide) (by decide)).2
    ⟨[⟨"LOG".toList, ⟨"f".toList, ["x".toList, "__LINE__".toList]⟩⟩]⟩ (by decide +kernel)
    (by decide +kernel) (by decide +kernel) (by decide +kernel)

/-- The second of two calls in a line is left to the second run, although the name occurs neither
in the target nor in the template nor in the path. -/
theorem second_run_finds_missed_call :
    MacroTable.ofLines .standard [97]
      ((Line.split "//#DEFINE LOG(x) f(x)\nLOG(1); LOG(2);\n".toList).map (·.body)) =
        .ok ⟨[⟨"LOG".toList, ⟨"f".toList, ["x".toList]⟩⟩]⟩ ∧
    Fresh ⟨[⟨"LOG".toList, ⟨"f".toList, ["x".toList]⟩⟩]⟩ [97] ∧
    (Attempt.ofSource .standard [97]
      "//#DEFINE LOG(x) f(x)\nLOG(1); LOG(2);\n".toList 0).result.outcome =
        .ok ⟨"//#DEFINE LOG(x) f(x)\nf(1); LOG(2);\n".toList, 1, ["LOG".toList]⟩ ∧
    ¬Unchanged .standard [97] "//#DEFINE LOG(x) f(x)\nf(1); LOG(2);\n".toList := by
  refine ⟨by decide +kernel, by decide +kernel, by decide +kernel, ?_⟩
  intro hunchanged
  obtain ⟨e, hok, hhit, -⟩ := hunchanged 0
  have hagain : (Attempt.ofSource .standard [97]
      "//#DEFINE LOG(x) f(x)\nf(1); LOG(2);\n".toList 0).result.outcome =
      .ok ⟨"//#DEFINE LOG(x) f(x)\nf(1); f(2);\n".toList, 1, ["LOG".toList]⟩ := by
    decide +kernel
  obtain rfl := Except.ok.inj (hok.symm.trans hagain)
  cases hhit

end CommentMacros
