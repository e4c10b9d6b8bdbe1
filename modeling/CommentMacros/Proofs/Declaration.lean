import CommentMacros.MacroTable
import Mathlib.Data.List.DropRight
import Mathlib.Tactic.SplitIfs

namespace CommentMacros

theorem mem_splitOnP {α : Type} (p : α → Bool) (s piece : List α) (a : α)
    (hpiece : piece ∈ s.splitOnP p) (ha : a ∈ piece) : a ∈ s ∧ p a = false := by
  induction s generalizing piece with
  | nil =>
    obtain rfl := List.mem_singleton.mp hpiece
    simp at ha
  | cons b s ih =>
    rw [List.splitOnP_cons_eq_if_modifyHead] at hpiece
    split_ifs at hpiece with hb
    · rcases List.mem_cons.mp hpiece with rfl | hpiece
      · simp at ha
      · obtain ⟨hmem, hp⟩ := ih piece hpiece ha
        exact ⟨List.mem_cons_of_mem b hmem, hp⟩
    · obtain ⟨first, rest, hs⟩ := List.exists_cons_of_ne_nil (List.splitOnP_ne_nil p s)
      rw [hs, List.modifyHead_cons] at hpiece
      rcases List.mem_cons.mp hpiece with rfl | hpiece
      · rcases List.mem_cons.mp ha with rfl | ha
        · exact ⟨List.mem_cons_self, by simpa using hb⟩
        · obtain ⟨hmem, hp⟩ := ih first (by simp [hs]) ha
          exact ⟨List.mem_cons_of_mem b hmem, hp⟩
      · obtain ⟨hmem, hp⟩ := ih piece (by simp [hs, hpiece]) ha
        exact ⟨List.mem_cons_of_mem b hmem, hp⟩

theorem mem_readArguments (s piece : Text) (c : Char) (hpiece : piece ∈ readArguments s)
    (hc : c ∈ piece) : c ∈ s := by
  unfold readArguments at hpiece
  split_ifs at hpiece with hblank
  · simp at hpiece
  · rw [List.splitOn_eq_splitOnP] at hpiece
    exact (mem_splitOnP _ s piece c hpiece hc).1

theorem length_splitOn (a : Char) (s : Text) : (s.splitOn a).length = s.count a + 1 := by
  rw [List.splitOn_eq_splitOnP]
  induction s with
  | nil => rfl
  | cons b s ih =>
    rw [List.splitOnP_cons_eq_if_modifyHead]
    by_cases hb : b = a
    · subst hb
      rw [if_pos (beq_self_eq_true b), List.length_cons, ih, List.count_cons_self]
    · rw [if_neg (by simpa using hb), List.length_modifyHead, ih, List.count_cons_of_ne hb]

namespace Text

/-- No character is a blank. -/
def Solid (s : Text) : Prop := ∀ c ∈ s, isBlank c = false

instance (s : Text) : Decidable (Solid s) :=
  decidable_of_iff (s.all (!isBlank ·) = true) (by simp [Solid])

theorem solid_of_mem_words (s w : Text) (h : w ∈ words s) : Solid w := by
  intro c hc
  exact (mem_splitOnP isBlank s w c (List.mem_filter.mp h).1 hc).2

theorem Solid.no_feed {s : Text} (h : Solid s) : '\n' ∉ s := by
  intro hmem
  have hblank := h '\n' hmem
  revert hblank
  decide

theorem trim_prefix (s : Text) : trim s <+: trimStart s :=
  List.rdropWhile_prefix isBlank (trimStart s)

theorem takeWhile_append_solid (s t r : Text) (hne : t ≠ []) (ht : Solid t) :
    (s ++ t ++ r).takeWhile isBlank = s.takeWhile isBlank := by
  obtain ⟨c, t, rfl⟩ := List.exists_cons_of_ne_nil hne
  have hc := ht c List.mem_cons_self
  induction s with
  | nil => simp [hc]
  | cons b s ih =>
    cases hb : isBlank b with
    | false => simp [hb]
    | true => simpa [hb] using ih

theorem trimStart_append_solid (s t r : Text) (hne : t ≠ []) (ht : Solid t) :
    trimStart (s ++ t ++ r) = trimStart s ++ t ++ r := by
  obtain ⟨c, t, rfl⟩ := List.exists_cons_of_ne_nil hne
  have hc := ht c List.mem_cons_self
  unfold trimStart
  induction s with
  | nil => simp [hc]
  | cons b s ih =>
    cases hb : isBlank b with
    | false => simp [hb]
    | true => simpa [hb] using ih

end Text

namespace Declaration

/-- A declaration begins with the marker and a blank, and has three words at least. -/
theorem read?_eq_some_iff (style : CommentStyle) (line : Text) (d : Declaration) :
    read? style line = some d ↔
      (∃ c rest, isBlank c = true ∧ line.trim = style.marker ++ c :: rest) ∧ d.text = line.trim ∧
        ∃ first more, line.trim.words = first :: d.signature :: d.expansion :: more := by
  constructor
  · intro h
    unfold read? at h
    dsimp only at h
    cases hlead : afterLead? style.marker line.trim with
    | none => simp [hlead] at h
    | some rest =>
      rw [hlead] at h
      dsimp only at h
      split_ifs at h with hblank
      split at h
      · rename_i first signature expansion more hwords
        obtain rfl := Option.some.inj h
        have hmark : ∃ c r, isBlank c = true ∧ line.trim = style.marker ++ c :: r := by
          cases rest with
          | nil => simp at hblank
          | cons c r => exact ⟨c, r, by simpa using hblank, afterLead?_eq_some_iff.mp hlead⟩
        exact ⟨hmark, rfl, first, more, hwords⟩
      · simp at h
  · rintro ⟨⟨c, rest, hblank, htrim⟩, htext, first, more, hwords⟩
    obtain ⟨text, signature, expansion⟩ := d
    obtain rfl : text = line.trim := htext
    have hlead := afterLead?_eq_some_iff.mpr htrim
    simp [read?, hlead, hblank, hwords]

theorem read?_eq_some (style : CommentStyle) (line : Text) (d : Declaration)
    (h : read? style line = some d) :
    (∃ c rest, isBlank c = true ∧ line.trim = style.marker ++ c :: rest) ∧
      d.text = line.trim ∧ d.signature ∈ line.trim.words ∧ d.expansion ∈ line.trim.words := by
  obtain ⟨hmark, htext, first, more, hwords⟩ := (read?_eq_some_iff style line d).mp h
  exact ⟨hmark, htext, by simp [hwords], by simp [hwords]⟩

/-- Only comments declare anything. -/
theorem isComment_of_read? (style : CommentStyle) (line : Text) (d : Declaration)
    (h : read? style line = some d) : style.isComment line = true := by
  obtain ⟨⟨c, rest, -, htrim⟩, -⟩ := read?_eq_some style line d h
  have hprefix : style.opener <+: Text.trimStart line := by
    refine List.IsPrefix.trans ?_ (Text.trim_prefix line)
    rw [htrim, CommentStyle.marker, List.append_assoc]
    exact List.prefix_append _ _
  exact List.isPrefixOf_iff_prefix.mpr hprefix

theorem read?_of_not_isComment (style : CommentStyle) (line : Text)
    (h : style.isComment line = false) : read? style line = none := by
  cases hread : read? style line with
  | none => rfl
  | some d =>
    have hc := isComment_of_read? style line d hread
    rw [h] at hc
    cases hc

end Declaration

structure Macro.WellFormed (m : Macro) : Prop where
  name_ne_nil : m.name ≠ []
  name_solid : Text.Solid m.name
  name_open : '(' ∉ m.name
  name_close : ')' ∉ m.name
  target_ne_nil : m.definition.target ≠ []
  target_solid : Text.Solid m.definition.target
  target_open : '(' ∉ m.definition.target
  templates_solid : ∀ t ∈ m.definition.templates, Text.Solid t

/-- The name is what stands before the first `(` of the signature, and is not empty; the first `)`
comes behind that `(`. -/
def Signs (signature name : Text) : Prop :=
  name ≠ [] ∧ ∃ parameters rest, signature = name ++ '(' :: (parameters ++ ')' :: rest) ∧
    '(' ∉ name ∧ ')' ∉ name ∧ ')' ∉ parameters

theorem signatureName_eq_ok_iff (signature name : Text) :
    signatureName signature = .ok name ↔ Signs signature name := by
  constructor
  · intro h
    unfold signatureName at h
    cases hclose : cutFirst ')' signature with
    | none => simp [hclose] at h
    | some outer =>
      obtain ⟨head, rest⟩ := outer
      cases hopen : cutFirst '(' head with
      | none => simp [hclose, hopen] at h
      | some inner =>
        obtain ⟨found, parameters⟩ := inner
        simp only [hclose, hopen] at h
        split_ifs at h with hnil
        obtain rfl := Except.ok.inj h
        obtain ⟨rfl, hhead⟩ := cutFirst_eq_some hclose
        obtain ⟨rfl, hfound⟩ := cutFirst_eq_some hopen
        simp only [List.mem_append, List.mem_cons, not_or] at hhead
        exact ⟨hnil, parameters, rest, by simp, hfound, hhead.1, hhead.2.2⟩
  · rintro ⟨hne, parameters, rest, rfl, hopen, hclose, hparameters⟩
    have hhead : ')' ∉ name ++ '(' :: parameters := by simp [hclose, hparameters]
    have hcut := cutFirst_append hhead rest
    rw [List.append_assoc, List.cons_append] at hcut
    rw [signatureName, hcut]
    dsimp only
    rw [cutFirst_append hopen parameters]
    exact if_neg hne

theorem signatureName_eq_ok (signature name : Text) (h : signatureName signature = .ok name) :
    name ≠ [] ∧ '(' ∉ name ∧ ')' ∉ name ∧ name ⊆ signature := by
  obtain ⟨hne, parameters, rest, rfl, hopen, hclose, -⟩ :=
    (signatureName_eq_ok_iff signature name).mp h
  exact ⟨hne, hopen, hclose, List.subset_append_left _ _⟩

/-- The text reads `target(list)rest`: the list opens as early and closes as late as it can. -/
def Definition.Written (s target list rest : Text) : Prop :=
  s = target ++ '(' :: (list ++ ')' :: rest) ∧ '(' ∉ target ∧ ')' ∉ rest

theorem Definition.parse_eq_ok_iff (s : Text) (d : Definition) :
    Definition.parse s = .ok d ↔
      d.target ≠ [] ∧ ∃ list rest, Written s d.target list rest ∧
        d.templates = readArguments list := by
  constructor
  · intro h
    unfold Definition.parse at h
    cases hopen : cutFirst '(' s with
    | none => simp [hopen] at h
    | some outer =>
      obtain ⟨target, rest⟩ := outer
      cases hclose : cutLast ')' rest with
      | none => simp [hopen, hclose] at h
      | some inner =>
        obtain ⟨list, more⟩ := inner
        simp only [hopen, hclose] at h
        split_ifs at h with hnil
        obtain rfl := Except.ok.inj h
        obtain ⟨rfl, htarget⟩ := cutFirst_eq_some hopen
        obtain ⟨rfl, hmore⟩ := cutLast_eq_some hclose
        exact ⟨hnil, list, more, ⟨rfl, htarget, hmore⟩, rfl⟩
  · rintro ⟨hne, list, rest, ⟨rfl, htarget, hrest⟩, htemplates⟩
    rw [Definition.parse, cutFirst_append htarget]
    dsimp only
    rw [cutLast_append hrest]
    dsimp only
    rw [if_neg hne, ← htemplates]

theorem Definition.parse_shape (s : Text) (d : Definition) (h : Definition.parse s = .ok d) :
    ∃ list rest, s = d.target ++ '(' :: (list ++ ')' :: rest) ∧ d.target ≠ [] ∧ '(' ∉ d.target ∧
      d.templates = readArguments list := by
  obtain ⟨hne, list, rest, ⟨hs, htarget, -⟩, htemplates⟩ := (Definition.parse_eq_ok_iff s d).mp h
  exact ⟨list, rest, hs, hne, htarget, htemplates⟩

theorem Definition.parse_eq_ok (s : Text) (d : Definition) (h : Definition.parse s = .ok d) :
    d.target ≠ [] ∧ '(' ∉ d.target ∧ d.target ⊆ s ∧ ∀ t ∈ d.templates, t ⊆ s := by
  obtain ⟨list, rest, rfl, hnil, htarget, htemplates⟩ := Definition.parse_shape s d h
  refine ⟨hnil, htarget, List.subset_append_left _ _, ?_⟩
  intro t ht c hc
  rw [htemplates] at ht
  have hlist := mem_readArguments list t c ht hc
  simp [hlist]

theorem Declaration.declared_wellFormed (style : CommentStyle) (line name : Text) (d : Declaration)
    (definition : Definition) (hread : Declaration.read? style line = some d)
    (hname : signatureName d.signature = .ok name)
    (hparse : Definition.parse d.expansion = .ok definition) :
    Macro.WellFormed ⟨name, definition⟩ := by
  obtain ⟨-, -, hsignature, hexpansion⟩ := Declaration.read?_eq_some style line d hread
  have hsolid := Text.solid_of_mem_words _ _ hsignature
  have hsolid' := Text.solid_of_mem_words _ _ hexpansion
  obtain ⟨hne, hopen, hclose, hsub⟩ := signatureName_eq_ok d.signature name hname
  obtain ⟨hne', hopen', hsub', htemplates⟩ := Definition.parse_eq_ok d.expansion definition hparse
  exact ⟨hne, fun c hc => hsolid c (hsub hc), hopen, hclose, hne',
    fun c hc => hsolid' c (hsub' hc), hopen', fun t ht c hc => hsolid' c (htemplates t ht hc)⟩

namespace MacroTable

theorem add_eq_ok (t t' : MacroTable) (d : Declaration) (h : t.add d = .ok t') :
    ∃ name definition, signatureName d.signature = .ok name ∧ name ∉ t.names ∧
      Definition.parse d.expansion = .ok definition ∧
      t'.macros = t.macros ++ [⟨name, definition⟩] := by
  unfold add at h
  cases hname : signatureName d.signature with
  | error fault => simp [hname] at h
  | ok name =>
    simp only [hname] at h
    split_ifs at h with hmem
    cases hparse : Definition.parse d.expansion with
    | error fault => simp [hparse] at h
    | ok definition =>
      simp only [hparse] at h
      obtain rfl := Except.ok.inj h
      exact ⟨name, definition, rfl, hmem, rfl, rfl⟩

theorem mem_addAll (file : Path) (t t' : MacroTable) (ds : List Declaration)
    (h : addAll file t ds = .ok t') (m : Macro) (hm : m ∈ t'.macros) :
    m ∈ t.macros ∨ ∃ d ∈ ds, signatureName d.signature = .ok m.name ∧
      Definition.parse d.expansion = .ok m.definition := by
  induction ds generalizing t with
  | nil =>
    obtain rfl := Except.ok.inj h
    exact Or.inl hm
  | cons d ds ih =>
    rw [addAll] at h
    cases hadd : t.add d with
    | error fault => simp [hadd] at h
    | ok next =>
      rw [hadd] at h
      obtain ⟨name, definition, hname, -, hparse, hnext⟩ := add_eq_ok t next d hadd
      rcases ih next h with hold | ⟨d', hd', hrest⟩
      · rw [hnext] at hold
        rcases List.mem_append.mp hold with hold | hnew
        · exact Or.inl hold
        · obtain rfl := List.mem_singleton.mp hnew
          exact Or.inr ⟨d, List.mem_cons_self, hname, hparse⟩
      · exact Or.inr ⟨d', List.mem_cons_of_mem d hd', hrest⟩

theorem addAll_eq_error (file : Path) (t : MacroTable) (ds : List Declaration) (f : Failure)
    (h : addAll file t ds = .error f) :
    ∃ text fault, f = .atDeclaration text file (.badDefinition fault) := by
  induction ds generalizing t with
  | nil => cases h
  | cons d ds ih =>
    rw [addAll] at h
    cases hadd : t.add d with
    | error fault =>
      rw [hadd] at h
      exact ⟨d.text, fault, (Except.error.inj h).symm⟩
    | ok next =>
      rw [hadd] at h
      exact ih next h

theorem ofLines_wellFormed (style : CommentStyle) (file : Path) (lines : List Text)
    (table : MacroTable) (h : ofLines style file lines = .ok table) (m : Macro)
    (hm : m ∈ table.macros) : m.WellFormed := by
  rcases mem_addAll file empty table _ h m hm with hm | ⟨d, hd, hname, hparse⟩
  · simp [empty] at hm
  · obtain ⟨line, -, hread⟩ := List.mem_filterMap.mp hd
    exact Declaration.declared_wellFormed style line m.name d m.definition hread hname hparse

end MacroTable

end CommentMacros
