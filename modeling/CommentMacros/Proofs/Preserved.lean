import CommentMacros.Proofs.SecondRun

namespace CommentMacros

namespace Line

def Mixed (ls : List Line) : Prop :=
  (∃ l ∈ ls, l.terminator = .lf) ∧ ∃ l ∈ ls, l.terminator = .crlf

instance (ls : List Line) : Decidable (Mixed ls) :=
  inferInstanceAs (Decidable (_ ∧ _))

theorem withTerminator_eq_self_iff (t : Terminator) (l : Line) :
    l.withTerminator t = l ↔ (l.withTerminator t).terminator = l.terminator := by
  constructor
  · intro h
    rw [h]
  · intro h
    exact congrArg₂ Line.mk (withTerminator_body t l) h

theorem not_mixed_iff (ls : List Line) :
    ¬Mixed ls ↔ ∀ l ∈ ls, l.withTerminator (newline ls) = l := by
  constructor
  · intro h l hl
    apply (withTerminator_eq_self_iff _ l).mpr
    rw [withTerminator_terminator]
    cases hterm : l.terminator with
    | missing => rfl
    | crlf =>
      have hcrlf := (newline_eq_crlf_iff ls).mpr ⟨l, hl, hterm⟩
      simp [hcrlf]
    | lf =>
      have hnone : newline ls ≠ .crlf := by
        intro hcrlf
        exact h ⟨⟨l, hl, hterm⟩, (newline_eq_crlf_iff ls).mp hcrlf⟩
      simp [newline_eq_lf ls hnone]
  · intro h hmixed
    obtain ⟨⟨l, hl, hlf⟩, hsome⟩ := hmixed
    have hcrlf := (newline_eq_crlf_iff ls).mpr hsome
    have hkept := congrArg Line.terminator (h l hl)
    rw [withTerminator_terminator, hcrlf, hlf] at hkept
    cases hkept

theorem map_withTerminator_eq_iff (ls : List Line) :
    ls.map (withTerminator (newline ls)) = ls ↔ ¬Mixed ls := by
  rw [not_mixed_iff]
  constructor
  · intro h l hl
    exact List.map_inj_left.mp (h.trans (List.map_id ls).symm) l hl
  · intro h
    exact (List.map_congr_left h).trans (List.map_id ls)

end Line

section Expanded

variable (style : CommentStyle) (file : Path) (source : Text) (n : Nat) (e : Expanded)

/-- Where a line stood, its expansion stands, with the terminator of the whole source. -/
theorem getElem?_expanded (hpath : '\n' ∉ file.display)
    (h : (Attempt.ofSource style file source n).result.outcome = .ok e) :
    ∃ table, MacroTable.ofLines style file ((Line.split source).map (·.body)) = .ok table ∧
      e.symbols = table.names ∧
      ∀ (i : Nat) (l : Line), (Line.split source)[i]? = some l → ∃ body hit c c',
        (Line.split e.text)[i]? = some
          (Line.withTerminator (Line.newline (Line.split source)) ⟨body, l.terminator⟩) ∧
        expandLine style ⟨i + 1, file⟩ table.macros l.body c = ⟨.ok (body, hit), c'⟩ := by
  obtain ⟨table, done, htable, hlines, he, hsplit, -⟩ :=
    split_expanded style file source n e hpath h
  obtain ⟨-, hget⟩ :=
    expandLines_getElem? style file table.macros 1 (Line.split source) n _ done hlines
  refine ⟨table, htable, by rw [he], ?_⟩
  intro i l hl
  obtain ⟨body, hit, c, c', hdone, hexpand⟩ := hget i l hl
  rw [Nat.add_comm] at hexpand
  refine ⟨body, hit, c, c', ?_, hexpand⟩
  rw [hsplit, List.getElem?_map, List.getElem?_map, hdone]
  rfl

theorem terminator_expanded (hpath : '\n' ∉ file.display)
    (h : (Attempt.ofSource style file source n).result.outcome = .ok e) (i : Nat) (l : Line)
    (hl : (Line.split source)[i]? = some l) :
    ∃ l', (Line.split e.text)[i]? = some l' ∧
      l'.terminator = (l.withTerminator (Line.newline (Line.split source))).terminator ∧
      ((∀ name ∈ e.symbols, Occurrence.find? style name l.body = none) → l'.body = l.body) := by
  obtain ⟨table, -, hsymbols, hget⟩ := getElem?_expanded style file source n e hpath h
  obtain ⟨body, hit, c, c', hl', hexpand⟩ := hget i l hl
  refine ⟨_, hl', ?_, ?_⟩
  · rw [Line.withTerminator_terminator, Line.withTerminator_terminator]
  · intro habsent
    have hnone : ∀ m ∈ table.macros, Occurrence.find? style m.name l.body = none := by
      intro m hm
      apply habsent
      rw [hsymbols]
      exact List.mem_map_of_mem hm
    rw [Line.withTerminator_body]
    exact (unhit_of_absent style _ table.macros l.body body c c' hit hnone hexpand).2

/-- A source in which nothing is replaced changes its terminators at most. -/
theorem text_of_unhit (h : (Attempt.ofSource style file source n).result.outcome = .ok e)
    (hhit : e.linesHit = 0) : e.text = source ↔ ¬Line.Mixed (Line.split source) := by
  obtain ⟨table, done, -, hlines, he⟩ := Attempt.ofSource_eq_ok style file source n e h
  have hcount : done.countP (·.2) = 0 := by
    rw [he] at hhit
    exact hhit
  obtain ⟨hmap, -⟩ := expandLines_unhit style file table.macros 1 _ n _ done hlines hcount
  have htext : e.text =
      Line.join ((Line.split source).map
        (Line.withTerminator (Line.newline (Line.split source)))) := by
    rw [he, hmap]
  rw [← Line.map_withTerminator_eq_iff, htext]
  constructor
  · exact one_terminator source
  · intro hsame
    rw [hsame, Line.join_split]

end Expanded

/-- Every line of the source stands in the text with its own terminator, and with its own bytes if
none of the macros is found in it. -/
def BytesKept (style : CommentStyle) (symbols : List Text) (source text : Text) : Prop :=
  ∀ (i : Nat) (l : Line), (Line.split source)[i]? = some l →
    ∃ l', (Line.split text)[i]? = some l' ∧ l'.terminator = l.terminator ∧
      ((∀ name ∈ symbols, Occurrence.find? style name l.body = none) → l'.text = l.text)

/-- The bytes of lines are kept if and only if the source does not mix terminators, and so is a
source in which nothing is replaced. In general, a terminator gives way to the one that the whole
source is written with, and a line in which no macro is found keeps what stands before it. -/
theorem bytes_kept_iff_not_mixed (style : CommentStyle) (file : Path) (source : Text) (n : Nat)
    (e : Expanded) (hpath : '\n' ∉ file.display)
    (h : (Attempt.ofSource style file source n).result.outcome = .ok e) :
    (BytesKept style e.symbols source e.text ↔ ¬Line.Mixed (Line.split source)) ∧
    (e.linesHit = 0 → (e.text = source ↔ ¬Line.Mixed (Line.split source))) ∧
    ∀ (i : Nat) (l : Line), (Line.split source)[i]? = some l →
      ∃ l', (Line.split e.text)[i]? = some l' ∧
        l'.terminator = (l.withTerminator (Line.newline (Line.split source))).terminator ∧
        ((∀ name ∈ e.symbols, Occurrence.find? style name l.body = none) →
          l'.body = l.body) := by
  have hline := terminator_expanded style file source n e hpath h
  refine ⟨?_, text_of_unhit style file source n e h, hline⟩
  rw [Line.not_mixed_iff]
  constructor
  · intro hkept l hl
    obtain ⟨i, hi⟩ := List.mem_iff_getElem?.mp hl
    obtain ⟨l', hl', hown, -⟩ := hkept i l hi
    obtain ⟨d, hd, hchosen, -⟩ := hline i l hi
    obtain rfl := Option.some.inj (hl'.symm.trans hd)
    apply (Line.withTerminator_eq_self_iff _ l).mpr
    rw [← hchosen, hown]
  · intro hsame i l hl
    obtain ⟨l', hl', hchosen, hbody⟩ := hline i l hl
    have hown : l'.terminator = l.terminator := by
      rw [hchosen, hsame l (List.mem_of_getElem? hl)]
    refine ⟨l', hl', hown, ?_⟩
    intro habsent
    rw [Line.text, Line.text, hbody habsent, hown]

theorem bytes_kept_crlf :
    let source := "//#DEFINE E() f(__LINE__)\r\n  E();\r\nx\r".toList
    let text := "//#DEFINE E() f(__LINE__)\r\n  f(2);\r\nx\r".toList
    (Attempt.ofSource .standard [97] source 0).result.outcome = .ok ⟨text, 1, ["E".toList]⟩ ∧
    BytesKept .standard ["E".toList] source text := by
  intro source text
  have hok : (Attempt.ofSource .standard [97] source 0).result.outcome =
      .ok ⟨text, 1, ["E".toList]⟩ := by
    decide +kernel
  have hkept := (bytes_kept_iff_not_mixed .standard [97] source 0 _ (by decide) hok).1
  exact ⟨hok, hkept.mpr (by decide +kernel)⟩

/-- The last line loses its bare line feed to the carriage return in the first one, with and
without a call in between. -/
theorem mixed_terminators_lost :
    (Attempt.ofSource .standard [97] "//#DEFINE E() f()\r\nE();\nx\n".toList 0).result.outcome =
      .ok ⟨"//#DEFINE E() f()\r\nf();\r\nx\r\n".toList, 1, ["E".toList]⟩ ∧
    ¬BytesKept .standard ["E".toList] "//#DEFINE E() f()\r\nE();\nx\n".toList
      "//#DEFINE E() f()\r\nf();\r\nx\r\n".toList ∧
    (Attempt.ofSource .standard [97] "a\r\nb\n".toList 0).result.outcome =
      .ok ⟨"a\r\nb\r\n".toList, 0, []⟩ ∧
    "a\r\nb\r\n".toList ≠ "a\r\nb\n".toList := by
  refine ⟨by decide +kernel, ?_, by decide +kernel, by decide⟩
  intro hkept
  obtain ⟨l', hl', hterm, -⟩ := hkept 2 ⟨"x".toList, .lf⟩ (by decide +kernel)
  have hcrlf : (Line.split "//#DEFINE E() f()\r\nf();\r\nx\r\n".toList)[2]? =
      some ⟨"x".toList, .crlf⟩ := by
    decide +kernel
  obtain rfl := Option.some.inj (hl'.symm.trans hcrlf)
  cases hterm

/-- An expanded source declares the same macros in the same order. A declaration stays as it is,
and a line that is rewritten was no comment and declares nothing, even if it has become a comment
by now. -/
theorem declarations_survive_expansion (style : CommentStyle) (file : Path) (source : Text)
    (n : Nat) (e : Expanded) (hopen : '(' ∉ style.opener) (hpath : '\n' ∉ file.display)
    (h : (Attempt.ofSource style file source n).result.outcome = .ok e) :
    ∃ table, MacroTable.ofLines style file ((Line.split source).map (·.body)) = .ok table ∧
      MacroTable.ofLines style file ((Line.split e.text).map (·.body)) = .ok table ∧
      ∀ (i : Nat) (l : Line), (Line.split source)[i]? = some l →
        ∃ l' hit c c', (Line.split e.text)[i]? = some l' ∧
          expandLine style ⟨i + 1, file⟩ table.macros l.body c = ⟨.ok (l'.body, hit), c'⟩ ∧
          Declaration.read? style l'.body = Declaration.read? style l.body ∧
          ((Declaration.read? style l.body).isSome = true → hit = false ∧ l'.body = l.body) ∧
          (hit = true → style.isComment l.body = false ∧
            Declaration.read? style l'.body = none) := by
  obtain ⟨table, htable, -, hget⟩ := getElem?_expanded style file source n e hpath h
  have hwell : ∀ m ∈ table.macros, m.WellFormed :=
    MacroTable.ofLines_wellFormed style file _ table htable
  refine ⟨table, htable, ?_, ?_⟩
  · rw [ofLines_expanded style file source n e hopen hpath h, htable]
  · intro i l hl
    obtain ⟨body, hit, c, c', hl', hexpand⟩ := hget i l hl
    have hread := read?_expandLine style _ table.macros l.body body c c' hit hwell hopen hexpand
    have hsilent : style.isComment l.body = true → hit = false ∧ body = l.body := by
      intro hcomment
      have habsent : ∀ m ∈ table.macros, Occurrence.find? style m.name l.body = none :=
        fun m _ => Occurrence.find?_of_isComment style m.name l.body hcomment
      exact unhit_of_absent style _ table.macros l.body body c c' hit habsent hexpand
    refine ⟨_, hit, c, c', hl', ?_, ?_, ?_, ?_⟩
    · rw [Line.withTerminator_body]
      exact hexpand
    · rw [Line.withTerminator_body]
      exact hread
    · intro hsome
      obtain ⟨d, hd⟩ := Option.isSome_iff_exists.mp hsome
      rw [Line.withTerminator_body]
      exact hsilent (Declaration.isComment_of_read? style l.body d hd)
    · intro hhit
      have hcomment : style.isComment l.body = false := by
        apply Bool.eq_false_iff.mpr
        intro hc
        rw [(hsilent hc).1] at hhit
        cases hhit
      rw [Line.withTerminator_body, hread]
      exact ⟨hcomment, Declaration.read?_of_not_isComment style l.body hcomment⟩

/-- The slash before the call and the target make a comment that begins with the marker; no blank
follows it. -/
theorem declarations_survive_seam :
    let source := "//#DEFINE E(x) /#DEFINE(x,__LINE__)\n/E( A() f());\n".toList
    let text := "//#DEFINE E(x) /#DEFINE(x,__LINE__)\n//#DEFINE( A() f(),2);\n".toList
    let table : MacroTable := ⟨[⟨"E".toList, ⟨"/#DEFINE".toList, ["x".toList, "__LINE__".toList]⟩⟩]⟩
    (Attempt.ofSource .standard [97] source 0).result.outcome = .ok ⟨text, 1, ["E".toList]⟩ ∧
    CommentStyle.standard.isComment "//#DEFINE( A() f(),2);".toList = true ∧
    MacroTable.ofLines .standard [97] ((Line.split source).map (·.body)) = .ok table ∧
    MacroTable.ofLines .standard [97] ((Line.split text).map (·.body)) = .ok table := by
  intro source text table
  have hok : (Attempt.ofSource .standard [97] source 0).result.outcome =
      .ok ⟨text, 1, ["E".toList]⟩ := by
    decide +kernel
  have htable : MacroTable.ofLines .standard [97] ((Line.split source).map (·.body)) =
      .ok table := by
    decide +kernel
  obtain ⟨table', hbefore, hafter, -⟩ :=
    declarations_survive_expansion .standard [97] source 0 _ (by decide) (by decide) hok
  obtain rfl := Except.ok.inj (htable.symm.trans hbefore)
  exact ⟨hok, by decide, htable, hafter⟩

end CommentMacros
