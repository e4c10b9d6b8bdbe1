import CommentMacros.Proofs.Lines
import CommentMacros.Proofs.Rewrites

namespace CommentMacros

theorem expandLine_keeps (style : CommentStyle) (place : Place) (ms : List Macro)
    (line line' : Text) (n n' : Nat) (hit : Bool) (hms : ∀ m ∈ ms, m.WellFormed)
    (hpath : '\n' ∉ place.file.display) (hline : '\n' ∉ line)
    (h : expandLine style place ms line n = ⟨.ok (line', hit), n'⟩) :
    '\n' ∉ line' ∧ line'.getLast? = line.getLast? ∧
      line'.takeWhile isBlank = line.takeWhile isBlank := by
  apply expandLine_invariant style place
    (fun s => '\n' ∉ s ∧ s.getLast? = line.getLast? ∧ s.takeWhile isBlank = line.takeWhile isBlank)
    ms line line' n n' hit _ h ⟨hline, rfl, rfl⟩
  rintro m hm a k b l ⟨s, -, -, -, -, rfl, rfl, -⟩ ⟨hfeed, hlast, hblanks⟩
  refine ⟨s.no_feed_replaced m (hms m hm) place k hpath hfeed, ?_, ?_⟩
  · rw [s.getLast?_replaced m.name, hlast]
  · rw [s.takeWhile_replaced m (hms m hm), hblanks]

/-- The text of an expanded source is cut into the lines it was joined from. -/
theorem split_expanded (style : CommentStyle) (file : Path) (source : Text) (n : Nat)
    (e : Expanded) (hpath : '\n' ∉ file.display)
    (h : (Attempt.ofSource style file source n).result.outcome = .ok e) :
    ∃ table done,
      MacroTable.ofLines style file ((Line.split source).map (·.body)) = .ok table ∧
      expandLines style file table.macros 1 (Line.split source) n =
        ⟨.ok done, (Attempt.ofSource style file source n).result.counter⟩ ∧
      e = ⟨Line.join ((done.map (·.1)).map
          (Line.withTerminator (Line.newline (Line.split source)))),
        done.countP (·.2), table.names⟩ ∧
      Line.split e.text =
        (done.map (·.1)).map (Line.withTerminator (Line.newline (Line.split source))) ∧
      List.Forall₂ Line.Keeps (Line.split source) (done.map (·.1)) := by
  obtain ⟨table, done, htable, hlines, he⟩ := Attempt.ofSource_eq_ok style file source n e h
  have hproper := Line.split_proper source
  have hwell : ∀ m ∈ table.macros, m.WellFormed :=
    MacroTable.ofLines_wellFormed style file _ table htable
  have hkeep : List.Forall₂ Line.Keeps (Line.split source) (done.map (·.1)) := by
    rw [List.forall₂_map_right_iff]
    apply expandLines_forall₂ style file _ table.macros 1 (Line.split source) n _ done _ hlines
    intro l hl place c body hit c' hplace hexpand
    obtain ⟨hfeed, hlast, -⟩ := expandLine_keeps style place table.macros l.body body c c' hit
      hwell (by rw [hplace]; exact hpath) (hproper.of_mem hl).1 hexpand
    exact ⟨rfl, hlast, hfeed⟩
  refine ⟨table, done, htable, hlines, he, ?_, hkeep⟩
  rw [he]
  exact Line.split_join _ (Line.newline_proper _ _ hproper hkeep)

theorem read?_expandLine (style : CommentStyle) (place : Place) (ms : List Macro)
    (line line' : Text) (n n' : Nat) (hit : Bool) (hms : ∀ m ∈ ms, m.WellFormed)
    (hopen : '(' ∉ style.opener)
    (h : expandLine style place ms line n = ⟨.ok (line', hit), n'⟩) :
    Declaration.read? style line' = Declaration.read? style line := by
  apply expandLine_invariant style place
    (fun s => Declaration.read? style s = Declaration.read? style line)
    ms line line' n n' hit _ h rfl
  rintro m hm a k b l ⟨s, -, hcomment, -, -, rfl, rfl, -⟩ hread
  rw [← hread, s.read?_replaced style m (hms m hm) place k hopen hcomment,
    Declaration.read?_of_not_isComment style _ hcomment]

theorem filterMap_eq_of_forall₂ {α β γ : Type} (f : α → Option γ) (g : β → Option γ)
    (as : List α) (bs : List β) (h : List.Forall₂ (fun a b => g b = f a) as bs) :
    bs.filterMap g = as.filterMap f := by
  induction h with
  | nil => rfl
  | cons hab _ ih => rw [List.filterMap_cons, List.filterMap_cons, hab, ih]

/-- An expanded source declares what its source declares. -/
theorem ofLines_expanded (style : CommentStyle) (file : Path) (source : Text) (n : Nat)
    (e : Expanded) (hopen : '(' ∉ style.opener) (hpath : '\n' ∉ file.display)
    (h : (Attempt.ofSource style file source n).result.outcome = .ok e) :
    MacroTable.ofLines style file ((Line.split e.text).map (·.body)) =
      MacroTable.ofLines style file ((Line.split source).map (·.body)) := by
  obtain ⟨table, done, htable, hlines, -, hsplit, -⟩ := split_expanded style file source n e hpath h
  have hwell : ∀ m ∈ table.macros, m.WellFormed :=
    MacroTable.ofLines_wellFormed style file _ table htable
  have hread : List.Forall₂
      (fun l d => Declaration.read? style d.1.body = Declaration.read? style l.body)
      (Line.split source) done := by
    apply expandLines_forall₂ style file _ table.macros 1 (Line.split source) n _ done _ hlines
    intro l hl place c body hit c' hplace hexpand
    exact read?_expandLine style place table.macros l.body body c c' hit hwell hopen hexpand
  have hbodies : (Line.split e.text).map (·.body) = done.map (·.1.body) := by
    rw [hsplit, Line.map_body_withTerminator, List.map_map]
    rfl
  have hdeclared : (done.map (·.1.body)).filterMap (Declaration.read? style) =
      ((Line.split source).map (·.body)).filterMap (Declaration.read? style) := by
    rw [List.filterMap_map, List.filterMap_map]
    exact filterMap_eq_of_forall₂ _ _ _ _ hread
  rw [MacroTable.ofLines, MacroTable.ofLines, hbodies, hdeclared]

theorem absent_of_unchanged (style : CommentStyle) (table : MacroTable) (line : Text)
    (h : style.isComment line = true ∨ (Declaration.read? style line).isSome = true ∨
      ∀ name ∈ table.names, Occurrence.find? style name line = none) :
    ∀ m ∈ table.macros, Occurrence.find? style m.name line = none := by
  intro m hm
  rcases h with hcomment | hread | hnone
  · exact Occurrence.find?_of_isComment style m.name line hcomment
  · obtain ⟨d, hd⟩ := Option.isSome_iff_exists.mp hread
    exact Occurrence.find?_of_isComment style m.name line
      (Declaration.isComment_of_read? style line d hd)
  · exact hnone m.name (List.mem_map_of_mem hm)

/-- Line by line, an expanded source has the shape of its source. A line that is a comment, that
declares a macro or in which no macro is found is not changed at all, and every line keeps its
indentation. A line is expanded under the number of its place, which is its place in the
expanded source as well, and this number stands in the line holes of the calls replaced there. -/
theorem expanded_line_structure (style : CommentStyle) (file : Path) (source : Text) (n : Nat)
    (e : Expanded) (hpath : '\n' ∉ file.display)
    (h : (Attempt.ofSource style file source n).result.outcome = .ok e) :
    (Line.split e.text).length = (Line.split source).length ∧
    (e.text.getLast? = some '\n' ↔ source.getLast? = some '\n') ∧
    ∃ table, MacroTable.ofLines style file ((Line.split source).map (·.body)) = .ok table ∧
      e.symbols = table.names ∧
      ∀ i l l', (Line.split source)[i]? = some l → (Line.split e.text)[i]? = some l' →
        (style.isComment l.body = true ∨ (Declaration.read? style l.body).isSome = true ∨
          (∀ name ∈ e.symbols, Occurrence.find? style name l.body = none) → l'.body = l.body) ∧
        l'.body.takeWhile isBlank = l.body.takeWhile isBlank ∧
        ∃ c c' hit, expandLine style ⟨i + 1, file⟩ table.macros l.body c =
            ⟨.ok (l'.body, hit), c'⟩ ∧
          l'.body = lastText l.body
            (rewritesOfLine style ⟨i + 1, file⟩ table.macros l.body c) ∧
          ∀ w ∈ rewritesOfLine style ⟨i + 1, file⟩ table.macros l.body c, w.Numbered (i + 1) := by
  obtain ⟨table, done, htable, hlines, he, hsplit, hkeep⟩ :=
    split_expanded style file source n e hpath h
  have hproper := Line.split_proper source
  have hwell : ∀ m ∈ table.macros, m.WellFormed :=
    MacroTable.ofLines_wellFormed style file _ table htable
  obtain ⟨hlength, hget⟩ :=
    expandLines_getElem? style file table.macros 1 (Line.split source) n _ done hlines
  refine ⟨by simp [hsplit, hlength], ?_, table, htable, by rw [he], ?_⟩
  · have hleft := Line.getLast?_join (Line.split e.text) (Line.split_proper e.text)
    have hright := Line.getLast?_join (Line.split source) hproper
    rw [Line.join_split] at hleft hright
    rw [hleft, hright, hsplit]
    exact Line.terminated_iff _ (Line.newline_ne_missing _) _ _ hkeep
  · intro i l l' hl hl'
    obtain ⟨body, hit, c, c', hdone, hexpand⟩ := hget i l hl
    have hbody : l'.body = body := by
      rw [hsplit, List.getElem?_map, List.getElem?_map, hdone] at hl'
      obtain rfl := Option.some.inj hl'
      exact Line.withTerminator_body _ _
    rw [Nat.add_comm] at hexpand
    obtain ⟨hleft, -, -, hreplaces⟩ :=
      expandLine_rewrites style ⟨i + 1, file⟩ table.macros l.body body c c' hit hexpand
    refine ⟨?_, ?_, c, c', hit, by rw [hbody]; exact hexpand, hbody.trans hleft,
      hreplaces.numbered⟩
    · intro hcase
      rw [he] at hcase
      have habsent := absent_of_unchanged style table l.body hcase
      rw [expandLine_of_absent style _ table.macros l.body c habsent] at hexpand
      obtain ⟨hsame, -⟩ := Prod.mk.inj (Except.ok.inj (Counted.mk.inj hexpand).1)
      rw [hbody, hsame]
    · rw [hbody]
      exact (expandLine_keeps style _ table.macros l.body body c c' hit hwell hpath
        (hproper.of_mem (List.mem_of_getElem? hl)).1 hexpand).2.2

theorem expanded_line_structure_mixed :
    let source := "//#DEFINE E() f(__LINE__)\r\n  E();\nx".toList
    let text := "//#DEFINE E() f(__LINE__)\r\n  f(2);\r\nx".toList
    (Attempt.ofSource .standard [97] source 0).result.outcome = .ok ⟨text, 1, ["E".toList]⟩ ∧
    (Line.split text).length = (Line.split source).length ∧
    ∀ (i : Nat) (l l' : Line), (Line.split source)[i]? = some l →
      (Line.split text)[i]? = some l' →
      (CommentStyle.standard.isComment l.body = true → l'.body = l.body) ∧
      l'.body.takeWhile isBlank = l.body.takeWhile isBlank := by
  intro source text
  have hok : (Attempt.ofSource .standard [97] source 0).result.outcome =
      .ok ⟨text, 1, ["E".toList]⟩ := by
    decide +kernel
  obtain ⟨hlength, -, table, -, -, hlines⟩ :=
    expanded_line_structure .standard [97] source 0 _ (by decide) hok
  refine ⟨hok, hlength, ?_⟩
  intro i l l' hl hl'
  obtain ⟨hsame, hindent, -⟩ := hlines i l l' hl hl'
  exact ⟨fun hcomment => hsame (Or.inl hcomment), hindent⟩

end CommentMacros
