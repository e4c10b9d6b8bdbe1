import CommentMacros.Proofs.Declaration
import CommentMacros.Proofs.Lines
import CommentMacros.Proofs.TableIndex
import Mathlib.Data.List.Nodup

namespace CommentMacros

/-- Without the blanks around it the line begins with the marker and a blank, and it has three
words at least. -/
def Declares (style : CommentStyle) (line : Text) : Prop :=
  (∃ c rest, isBlank c = true ∧ line.trim = style.marker ++ c :: rest) ∧
    3 ≤ line.trim.words.length

/-- The second word of the line signs the macro, and the third spells its definition. -/
def Gives (line : Text) (m : Macro) : Prop :=
  ∃ signature ∈ line.trim.words[1]?, ∃ expansion ∈ line.trim.words[2]?,
    Signs signature m.name ∧ Definition.parse expansion = .ok m.definition

namespace Declaration

def Spells (d : Declaration) (m : Macro) : Prop :=
  signatureName d.signature = .ok m.name ∧ Definition.parse d.expansion = .ok m.definition

theorem isSome_read?_iff (style : CommentStyle) (line : Text) :
    (read? style line).isSome = true ↔ Declares style line := by
  rw [Option.isSome_iff_exists]
  constructor
  · rintro ⟨d, hd⟩
    obtain ⟨hmark, -, first, more, hwords⟩ := (read?_eq_some_iff style line d).mp hd
    exact ⟨hmark, by simp [hwords]⟩
  · rintro ⟨hmark, hlength⟩
    match hwords : line.trim.words with
    | first :: signature :: expansion :: more =>
      exact ⟨⟨line.trim, signature, expansion⟩,
        (read?_eq_some_iff style line _).mpr ⟨hmark, rfl, first, more, hwords⟩⟩
    | [] | [_] | [_, _] => simp [hwords] at hlength

theorem spells_iff_gives (style : CommentStyle) (line : Text) (d : Declaration) (m : Macro)
    (h : read? style line = some d) : d.Spells m ↔ Gives line m := by
  obtain ⟨-, -, first, more, hwords⟩ := (read?_eq_some_iff style line d).mp h
  rw [Spells, Gives, hwords, signatureName_eq_ok_iff]
  simp

end Declaration

instance (style : CommentStyle) (line : Text) : Decidable (Declares style line) :=
  decidable_of_iff _ (Declaration.isSome_read?_iff style line)

def declaring (style : CommentStyle) (lines : List Text) : List Text :=
  lines.filter fun line => Declares style line

theorem Gives.unique {line : Text} {m m' : Macro} (h : Gives line m) (h' : Gives line m') :
    m = m' := by
  obtain ⟨signature, hsignature, expansion, hexpansion, hname, hparse⟩ := h
  obtain ⟨signature', hsignature', expansion', hexpansion', hname', hparse'⟩ := h'
  obtain rfl := Option.mem_unique hsignature hsignature'
  obtain rfl := Option.mem_unique hexpansion hexpansion'
  rw [← signatureName_eq_ok_iff] at hname hname'
  have hsame := Except.ok.inj (hname.symm.trans hname')
  have hsame' := Except.ok.inj (hparse.symm.trans hparse')
  cases m
  cases m'
  cases hsame
  cases hsame'
  rfl

theorem forall₂_declaring (style : CommentStyle) (lines : List Text) :
    List.Forall₂ (fun line d => Declaration.read? style line = some d) (declaring style lines)
      (lines.filterMap (Declaration.read? style)) := by
  induction lines with
  | nil => exact .nil
  | cons line lines ih =>
    have hiff := Declaration.isSome_read?_iff style line
    rw [declaring, List.filter_cons, List.filterMap_cons]
    cases hread : Declaration.read? style line with
    | none =>
      rw [hread] at hiff
      rw [if_neg (by simpa using hiff)]
      exact ih
    | some d =>
      rw [hread] at hiff
      rw [if_pos (by simpa using hiff)]
      exact .cons hread ih

namespace MacroTable

theorem add_eq_ok_iff (t t' : MacroTable) (d : Declaration) :
    t.add d = .ok t' ↔ ∃ m, d.Spells m ∧ m.name ∉ t.names ∧ t' = ⟨t.macros ++ [m]⟩ := by
  constructor
  · intro h
    obtain ⟨name, definition, hname, hfree, hparse, hmacros⟩ := add_eq_ok t t' d h
    exact ⟨⟨name, definition⟩, ⟨hname, hparse⟩, hfree, by rw [← hmacros]⟩
  · rintro ⟨m, ⟨hname, hparse⟩, hfree, rfl⟩
    rw [add, hname]
    dsimp only
    rw [if_neg hfree, hparse]

theorem nodup_names_concat (t : MacroTable) (m : Macro) (hnodup : t.names.Nodup)
    (hfree : m.name ∉ t.names) : (⟨t.macros ++ [m]⟩ : MacroTable).names.Nodup := by
  rw [names, List.map_append, List.map_singleton, ← List.concat_eq_append]
  exact hnodup.concat hfree

theorem addAll_eq_ok_iff (file : Path) (t t' : MacroTable) (ds : List Declaration)
    (hnodup : t.names.Nodup) :
    addAll file t ds = .ok t' ↔
      ∃ ms, List.Forall₂ Declaration.Spells ds ms ∧ t'.macros = t.macros ++ ms ∧
        t'.names.Nodup := by
  induction ds generalizing t with
  | nil =>
    constructor
    · intro h
      obtain rfl := Except.ok.inj h
      exact ⟨[], .nil, by simp, hnodup⟩
    · rintro ⟨ms, hms, hmacros, -⟩
      cases hms
      rw [List.append_nil] at hmacros
      cases t
      cases t'
      cases hmacros
      rfl
  | cons d ds ih =>
    rw [addAll]
    constructor
    · intro h
      cases hadd : t.add d with
      | error fault => simp [hadd] at h
      | ok next =>
        rw [hadd] at h
        obtain ⟨m, hspells, hfree, rfl⟩ := (add_eq_ok_iff t next d).mp hadd
        obtain ⟨ms, hms, hmacros, hnodup'⟩ := (ih _ (nodup_names_concat t m hnodup hfree)).mp h
        exact ⟨m :: ms, .cons hspells hms, by simpa using hmacros, hnodup'⟩
    · rintro ⟨_, hms, hmacros, hnodup'⟩
      obtain _ | @⟨_, m, _, ms, hspells, hms⟩ := hms
      have hfree : m.name ∉ t.names := by
        rw [names, hmacros, List.map_append, List.map_cons] at hnodup'
        intro hmem
        exact (List.disjoint_of_nodup_append hnodup') hmem List.mem_cons_self
      rw [(add_eq_ok_iff t _ d).mpr ⟨m, hspells, hfree, rfl⟩]
      dsimp only
      rw [ih _ (nodup_names_concat t m hnodup hfree)]
      exact ⟨ms, hms, by simpa using hmacros, hnodup'⟩

/-- A table fails at the first declaration that cannot be added. -/
theorem addAll_stops (file : Path) (t : MacroTable) (ds : List Declaration) (f : Failure)
    (h : addAll file t ds = .error f) :
    ∃ earlier d later mid fault, ds = earlier ++ d :: later ∧ addAll file t earlier = .ok mid ∧
      mid.add d = .error fault ∧ f = .atDeclaration d.text file (.badDefinition fault) := by
  induction ds generalizing t with
  | nil => cases h
  | cons d ds ih =>
    rw [addAll] at h
    cases hadd : t.add d with
    | error fault =>
      rw [hadd] at h
      exact ⟨[], d, ds, t, fault, rfl, rfl, hadd, (Except.error.inj h).symm⟩
    | ok next =>
      rw [hadd] at h
      obtain ⟨earlier, e, later, mid, fault, rfl, hearlier, hfault, hf⟩ := ih next h
      refine ⟨d :: earlier, e, later, mid, fault, rfl, ?_, hfault, hf⟩
      rw [addAll, hadd]
      exact hearlier

/-- What cannot be added spells no macro, or one whose name is taken. -/
theorem add_eq_error (t : MacroTable) (d : Declaration) (fault : DefinitionFault)
    (h : t.add d = .error fault) :
    (∀ m, ¬d.Spells m) ∨ ∃ m, d.Spells m ∧ m.name ∈ t.names := by
  by_cases hspells : ∃ m, d.Spells m
  · obtain ⟨m, hm⟩ := hspells
    refine Or.inr ⟨m, hm, ?_⟩
    by_contra hfree
    rw [(add_eq_ok_iff t _ d).mpr ⟨m, hm, hfree, rfl⟩] at h
    cases h
  · exact Or.inl (not_exists.mp hspells)

theorem find?_eq_some_iff (t : MacroTable) (hnodup : t.names.Nodup) (name : Text)
    (d : Definition) : t.find? name = some d ↔ ⟨name, d⟩ ∈ t.macros := by
  rw [find?, Option.map_eq_some_iff]
  constructor
  · rintro ⟨m, hfind, rfl⟩
    obtain rfl : m.name = name := by simpa using List.find?_some hfind
    exact List.mem_of_find?_eq_some hfind
  · intro hmem
    cases hfind : t.macros.find? (·.name == name) with
    | none => exact absurd (List.find?_eq_none.mp hfind _ hmem) (by simp)
    | some m =>
      have hname : m.name = name := by simpa using List.find?_some hfind
      have hsame : m = ⟨name, d⟩ :=
        List.inj_on_of_nodup_map hnodup (List.mem_of_find?_eq_some hfind) hmem hname
      exact ⟨m, rfl, by rw [hsame]⟩

theorem find?_eq_none_iff (t : MacroTable) (name : Text) :
    t.find? name = none ↔ name ∉ t.names := by
  rw [find?, Option.map_eq_none_iff, List.find?_eq_none]
  simp [names]

end MacroTable

theorem forall₂_gives_iff {style : CommentStyle} {lines : List Text} {ds : List Declaration}
    (h : List.Forall₂ (fun line d => Declaration.read? style line = some d) lines ds)
    (ms : List Macro) :
    List.Forall₂ Declaration.Spells ds ms ↔ List.Forall₂ Gives lines ms := by
  induction h generalizing ms with
  | nil => simp
  | cons hread _ ih =>
    simp only [List.forall₂_cons_left_iff, ih, Declaration.spells_iff_gives _ _ _ _ hread]

theorem MacroTable.ofLines_eq_ok_iff (style : CommentStyle) (file : Path) (lines : List Text)
    (table : MacroTable) :
    ofLines style file lines = .ok table ↔
      List.Forall₂ Gives (declaring style lines) table.macros ∧ table.names.Nodup := by
  have hread := forall₂_declaring style lines
  rw [ofLines, addAll_eq_ok_iff file empty table _ List.nodup_nil]
  constructor
  · rintro ⟨ms, hms, hmacros, hnodup⟩
    rw [show table.macros = ms from hmacros]
    exact ⟨(forall₂_gives_iff hread ms).mp hms, hnodup⟩
  · rintro ⟨hgives, hnodup⟩
    exact ⟨table.macros, (forall₂_gives_iff hread _).mpr hgives, rfl, hnodup⟩

/-- Lines give a list of macros under different names exactly if each of them gives a macro and no
two of them one of the same name. -/
theorem exists_macros_iff (lines : List Text) :
    (∃ ms, List.Forall₂ Gives lines ms ∧ (ms.map (·.name)).Nodup) ↔
      (∀ line ∈ lines, ∃ m, Gives line m) ∧
        lines.Pairwise fun a b => ∀ m m', Gives a m → Gives b m' → m.name ≠ m'.name := by
  induction lines with
  | nil => simp
  | cons line lines ih =>
    rw [List.forall_mem_cons, List.pairwise_cons]
    constructor
    · rintro ⟨_, hms, hnodup⟩
      obtain _ | @⟨_, m, _, ms, hline, hms⟩ := hms
      obtain ⟨hfree, hnodup⟩ := List.nodup_cons.mp hnodup
      obtain ⟨hgive, hpairs⟩ := ih.mp ⟨ms, hms, hnodup⟩
      refine ⟨⟨⟨m, hline⟩, hgive⟩, ?_, hpairs⟩
      intro b hb m₁ m₂ hm₁ hm₂ hsame
      obtain rfl := hline.unique hm₁
      obtain ⟨m', hm', hb'⟩ := exists_mem_of_forall₂ hms hb
      obtain rfl := hb'.unique hm₂
      exact hfree (List.mem_map.mpr ⟨m', hm', hsame.symm⟩)
    · rintro ⟨⟨⟨m, hline⟩, hgive⟩, hapart, hpairs⟩
      obtain ⟨ms, hms, hnodup⟩ := ih.mpr ⟨hgive, hpairs⟩
      refine ⟨m :: ms, .cons hline hms, List.nodup_cons.mpr ⟨?_, hnodup⟩⟩
      intro hmem
      obtain ⟨m', hm', hsame⟩ := List.mem_map.mp hmem
      obtain ⟨b, hb, hb'⟩ := exists_mem_of_forall₂ hms.flip hm'
      exact hapart b hb m m' hline hb' hsame.symm

/-- The entries of a table are the macros that the lines give, and a look-up finds them. -/
structure MacroTable.Lists (t : MacroTable) (lines : List Text) : Prop where
  gives : List.Forall₂ Gives lines t.macros
  length : t.macros.length = lines.length
  nodup : t.names.Nodup
  found : ∀ name d, t.find? name = some d ↔ ⟨name, d⟩ ∈ t.macros
  absent : ∀ name, t.find? name = none ↔ name ∉ t.names
  wellFormed : ∀ m ∈ t.macros, m.WellFormed

/-- The first of the lines that gives no macro, or one whose name an earlier line has given. -/
def FirstFault (lines : List Text) (line : Text) : Prop :=
  ∃ earlier later ms, lines = earlier ++ line :: later ∧
    List.Forall₂ Gives earlier ms ∧ (ms.map (·.name)).Nodup ∧
    ((∀ m, ¬Gives line m) ∨ ∃ m, Gives line m ∧ m.name ∈ ms.map (·.name))

theorem firstFault_of_error (style : CommentStyle) (file : Path) (lines : List Text) (f : Failure)
    (h : MacroTable.ofLines style file lines = .error f) :
    ∃ line fault, FirstFault (declaring style lines) line ∧
      f = .atDeclaration line.trim file (.badDefinition fault) := by
  obtain ⟨earlier, d, later, mid, fault, hds, hmid, hfault, rfl⟩ :=
    MacroTable.addAll_stops file .empty _ f h
  have hread := forall₂_declaring style lines
  rw [hds] at hread
  have hfront := List.forall₂_take_append _ _ _ hread
  obtain ⟨line, rest, hline, -, hsplit⟩ :=
    List.forall₂_cons_right_iff.mp (List.forall₂_drop_append _ _ _ hread)
  obtain ⟨ms, hms, hmacros, hnodup⟩ :=
    (MacroTable.addAll_eq_ok_iff file .empty mid earlier List.nodup_nil).mp hmid
  have hnames : mid.names = ms.map (·.name) := by
    rw [MacroTable.names, hmacros]
    rfl
  have htext := (Declaration.read?_eq_some style line d hline).2.1
  refine ⟨line, fault, ⟨_, rest, ms, ?_, (forall₂_gives_iff hfront ms).mp hms, hnames ▸ hnodup, ?_⟩,
    by rw [htext]⟩
  · rw [← hsplit, List.take_append_drop]
  · have hbad := MacroTable.add_eq_error mid d fault hfault
    simpa only [Declaration.spells_iff_gives style line d _ hline, hnames] using hbad

/-- There is a table exactly if every line that declares a macro gives one and no two of them give
the same name. The table lists the macros of these lines in their order; otherwise the failure is
that of the first line that gives no macro or a name given before. A table with an index beside its
entries is built in the same way, and its look-up agrees with a search through the entries. -/
theorem table_of_declaring_lines (style : CommentStyle) (file : Path) (lines : List Text) :
    ((∃ table, MacroTable.ofLines style file lines = .ok table) ↔
      (∀ line ∈ declaring style lines, ∃ m, Gives line m) ∧
        (declaring style lines).Pairwise
          fun a b => ∀ m m', Gives a m → Gives b m' → m.name ≠ m'.name) ∧
    (∀ table, MacroTable.ofLines style file lines = .ok table →
      table.Lists (declaring style lines)) ∧
    (∀ f, MacroTable.ofLines style file lines = .error f →
      ∃ line fault, FirstFault (declaring style lines) line ∧
        f = .atDeclaration line.trim file (.badDefinition fault) ∧
        f.rootCause = .badDefinition fault) ∧
    (IndexedTable.ofLines style file lines).map IndexedTable.table =
      MacroTable.ofLines style file lines ∧
    ∀ (t : IndexedTable) name, t.get? name = t.table.find? name := by
  refine ⟨?_, ?_, ?_, IndexedTable.ofLines_table style file lines, IndexedTable.get?_eq⟩
  · rw [← exists_macros_iff]
    constructor
    · rintro ⟨table, htable⟩
      exact ⟨table.macros, (MacroTable.ofLines_eq_ok_iff style file lines table).mp htable⟩
    · rintro ⟨ms, hms⟩
      exact ⟨⟨ms⟩, (MacroTable.ofLines_eq_ok_iff style file lines ⟨ms⟩).mpr hms⟩
  · intro table htable
    obtain ⟨hgives, hnodup⟩ := (MacroTable.ofLines_eq_ok_iff style file lines table).mp htable
    exact ⟨hgives, hgives.length_eq.symm, hnodup, table.find?_eq_some_iff hnodup,
      table.find?_eq_none_iff, MacroTable.ofLines_wellFormed style file lines table htable⟩
  · intro f hf
    obtain ⟨line, fault, hfirst, rfl⟩ := firstFault_of_error style file lines f hf
    exact ⟨line, fault, hfirst, rfl, rfl⟩

/-- A short line is passed over, and a name that comes back is reported as taken, although the
expansion behind it is broken. -/
theorem table_stops_at_repeated_name :
    declaring .standard
        ["//#DEFINE A() f()".toList, "//#DEFINE B()".toList, "  //#DEFINE A(x) g".toList] =
      ["//#DEFINE A() f()".toList, "  //#DEFINE A(x) g".toList] ∧
    ∃ line fault, FirstFault (declaring .standard
        ["//#DEFINE A() f()".toList, "//#DEFINE B()".toList, "  //#DEFINE A(x) g".toList]) line ∧
      Failure.atDeclaration "//#DEFINE A(x) g".toList [97]
          (.badDefinition (.duplicate "A".toList)) =
        .atDeclaration line.trim [97] (.badDefinition fault) := by
  have hstop : MacroTable.ofLines .standard [97]
      ["//#DEFINE A() f()".toList, "//#DEFINE B()".toList, "  //#DEFINE A(x) g".toList] =
      .error (.atDeclaration "//#DEFINE A(x) g".toList [97]
        (.badDefinition (.duplicate "A".toList))) := by
    decide +kernel
  obtain ⟨line, fault, hfirst, hfailure, -⟩ :=
    (table_of_declaring_lines .standard [97] _).2.2.1 _ hstop
  exact ⟨by decide +kernel, line, fault, hfirst, hfailure⟩

end CommentMacros
