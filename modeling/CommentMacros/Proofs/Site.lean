import CommentMacros.Call
import CommentMacros.Proofs.Declaration
import CommentMacros.Proofs.Occurrence
import CommentMacros.Proofs.Template

namespace CommentMacros

theorem Text.cutAt?_behind (before name rest : Text) :
    (before ++ name ++ rest).cutAt? (before.byteLength + name.byteLength) =
      some (before ++ name, rest) := by
  rw [← Text.byteLength_append]
  exact Text.cutAt?_byteLength _ _

/-- A line cut around a call of some name; the gap is what stands between the name and the
parenthesis. -/
structure Site where
  before : Text
  gap : Text
  list : Text
  closing : Text

namespace Site

def line (s : Site) (name : Text) : Text :=
  s.before ++ name ++ (s.gap ++ '(' :: (s.list ++ ')' :: s.closing))

def arguments (s : Site) : List Text := readArguments s.list

def filled (s : Site) (d : Definition) (place : Place) (n : Nat) : List Text × Nat :=
  Template.fillAll place s.arguments (d.templates.drop s.arguments.length) n

def replaced (s : Site) (d : Definition) (place : Place) (n : Nat) : Text :=
  s.before ++ d.target ++
    ('(' :: (writeArguments (s.arguments ++ (s.filled d place n).1) ++ ')' :: s.closing))

/-- The list opens as early and closes as late as it can. -/
structure Sharp (s : Site) : Prop where
  gap : '(' ∉ s.gap
  closing : ')' ∉ s.closing

end Site

namespace Call

theorem parseAt_line (s : Site) (hs : s.Sharp) (name : Text) :
    parseAt (s.line name) s.before.byteLength name =
      .ok ⟨s.before, name, s.arguments, ')' :: s.closing⟩ := by
  have hname : (s.line name).cutAt? (s.before.byteLength + name.byteLength) =
      some (s.before ++ name, s.gap ++ '(' :: (s.list ++ ')' :: s.closing)) :=
    Text.cutAt?_behind _ _ _
  have hbefore : (s.line name).cutAt? s.before.byteLength =
      some (s.before, name ++ (s.gap ++ '(' :: (s.list ++ ')' :: s.closing))) := by
    rw [Site.line, List.append_assoc]
    exact Text.cutAt?_byteLength _ _
  simp only [parseAt, hname, hbefore, cutFirst_append hs.gap, cutLast_append hs.closing,
    Site.arguments]

theorem parseAt_eq_ok (before name rest : Text) (call : Call)
    (h : parseAt (before ++ name ++ rest) before.byteLength name = .ok call) :
    ∃ s : Site, s.Sharp ∧ s.before = before ∧ s.line name = before ++ name ++ rest := by
  simp only [parseAt, Text.cutAt?_behind] at h
  cases hopen : cutFirst '(' rest with
  | none => simp [hopen] at h
  | some outer =>
    obtain ⟨gap, tail⟩ := outer
    cases hclose : cutLast ')' tail with
    | none => simp [hopen, hclose] at h
    | some inner =>
      obtain ⟨list, closing⟩ := inner
      obtain ⟨rfl, hgap⟩ := cutFirst_eq_some hopen
      obtain ⟨rfl, hclosing⟩ := cutLast_eq_some hclose
      exact ⟨⟨before, gap, list, closing⟩, ⟨hgap, hclosing⟩, rfl, rfl⟩

theorem replaceAt_line (s : Site) (hs : s.Sharp) (name : Text) (d : Definition) (place : Place)
    (n : Nat) :
    replaceAt (s.line name) s.before.byteLength name d place n =
      if d.arity < s.arguments.length then
        .error (.atLine (s.line name) place.file
          (.tooManyArguments name s.arguments.length d.arity))
      else .ok (s.replaced d place n, (s.filled d place n).2) := by
  rw [replaceAt, parseAt_line s hs name]
  simp only [Except.bind, expand]
  split_ifs with harity
  · rfl
  · simp [Site.replaced, Site.filled]

theorem replaceAt_of_unclosed (before name rest : Text) (d : Definition) (place : Place) (n : Nat)
    (h : ∀ gap tail, cutFirst '(' rest = some (gap, tail) → cutLast ')' tail = none) :
    replaceAt (before ++ name ++ rest) before.byteLength name d place n =
      .error (.atLine (before ++ name ++ rest) place.file
        (.notACall (before ++ name ++ rest))) := by
  simp only [replaceAt, parseAt, Text.cutAt?_behind]
  cases hopen : cutFirst '(' rest with
  | none => rfl
  | some parts => simp only [h parts.1 parts.2 hopen, Except.bind]

/-- A call that is replaced where its name was found. -/
theorem replaceAt_eq_ok (style : CommentStyle) (name line : Text) (offset : Nat) (d : Definition)
    (place : Place) (n : Nat) (line' : Text) (n' : Nat)
    (hfind : Occurrence.find? style name line = some offset)
    (h : replaceAt line offset name d place n = .ok (line', n')) :
    ∃ s : Site, s.Sharp ∧ line = s.line name ∧ offset = s.before.byteLength ∧
      Bounded s.before (s.gap ++ '(' :: (s.list ++ ')' :: s.closing)) ∧
      s.arguments.length ≤ d.arity ∧ line' = s.replaced d place n ∧
      n' = (s.filled d place n).2 := by
  obtain ⟨-, -, before, rest, rfl, rfl, hbound⟩ :=
    Occurrence.find?_eq_some style name line offset hfind
  cases hparse : parseAt (before ++ name ++ rest) before.byteLength name with
  | error f =>
    rw [replaceAt, hparse] at h
    cases f <;> simp [Except.bind] at h
  | ok call =>
    obtain ⟨s, hs, rfl, hline⟩ := parseAt_eq_ok before name rest call hparse
    have hrest : rest = s.gap ++ '(' :: (s.list ++ ')' :: s.closing) :=
      (List.append_cancel_left hline).symm
    rw [← hline, replaceAt_line s hs name d place n] at h
    split_ifs at h with harity
    obtain ⟨rfl, rfl⟩ := Prod.mk.inj (Except.ok.inj h)
    exact ⟨s, hs, hline.symm, rfl, hrest ▸ hbound, Nat.le_of_not_lt harity, rfl, rfl⟩

theorem parseAt_eq_error (before name rest : Text) (f : Failure)
    (h : parseAt (before ++ name ++ rest) before.byteLength name = .error f) :
    f = .notACall (before ++ name ++ rest) := by
  have hbefore : (before ++ name ++ rest).cutAt? before.byteLength =
      some (before, name ++ rest) := by
    rw [List.append_assoc]
    exact Text.cutAt?_byteLength _ _
  rw [parseAt, Text.cutAt?_behind, hbefore] at h
  dsimp only at h
  cases hopen : cutFirst '(' rest with
  | none =>
    rw [hopen] at h
    exact (Except.error.inj h).symm
  | some outer =>
    rw [hopen] at h
    dsimp only at h
    cases hclose : cutLast ')' outer.2 with
    | none =>
      rw [hclose] at h
      exact (Except.error.inj h).symm
    | some inner =>
      rw [hclose] at h
      cases h

theorem replaceAt_eq_error (before name rest : Text) (d : Definition) (place : Place) (n : Nat)
    (f : Failure)
    (h : replaceAt (before ++ name ++ rest) before.byteLength name d place n = .error f) :
    f = .atLine (before ++ name ++ rest) place.file (.notACall (before ++ name ++ rest)) ∨
      ∃ supplied, f = .atLine (before ++ name ++ rest) place.file
        (.tooManyArguments name supplied d.arity) := by
  cases hparse : parseAt (before ++ name ++ rest) before.byteLength name with
  | error g =>
    obtain rfl := parseAt_eq_error before name rest g hparse
    rw [replaceAt, hparse] at h
    exact Or.inl (Except.error.inj h).symm
  | ok call =>
    obtain ⟨s, hs, rfl, hline⟩ := parseAt_eq_ok before name rest call hparse
    rw [← hline, replaceAt_line s hs name d place n] at h
    split_ifs at h
    rw [← hline]
    exact Or.inr ⟨_, (Except.error.inj h).symm⟩

theorem le_replaceAt (line : Text) (offset : Nat) (name : Text) (d : Definition) (place : Place)
    (n : Nat) (out : Text) (k : Nat) (h : replaceAt line offset name d place n = .ok (out, k)) :
    n ≤ k := by
  rw [replaceAt] at h
  cases hparse : parseAt line offset name with
  | error f =>
    rw [hparse] at h
    cases f <;> cases h
  | ok call =>
    rw [hparse] at h
    simp only [Except.bind, expand] at h
    split_ifs at h
    obtain ⟨-, rfl⟩ := Prod.mk.inj (Except.ok.inj h)
    exact Template.le_fillAll _ _ _ _

end Call

namespace Site

theorem getLast?_replaced (s : Site) (name : Text) (d : Definition) (place : Place) (n : Nat) :
    (s.replaced d place n).getLast? = (s.line name).getLast? := by
  have hend (front : Text) :
      (front ++ ')' :: s.closing).getLast? = (')' :: s.closing).getLast? := by
    rw [List.getLast?_append, Option.or_of_isSome (by simp)]
  have hline : s.line name = (s.before ++ name ++ s.gap ++ '(' :: s.list) ++ ')' :: s.closing := by
    simp [line]
  have hreplaced : s.replaced d place n = (s.before ++ d.target ++
      '(' :: writeArguments (s.arguments ++ (s.filled d place n).1)) ++ ')' :: s.closing := by
    simp [replaced]
  rw [hline, hreplaced, hend, hend]

theorem takeWhile_replaced (s : Site) (m : Macro) (hm : m.WellFormed) (place : Place) (n : Nat) :
    (s.replaced m.definition place n).takeWhile isBlank = (s.line m.name).takeWhile isBlank := by
  rw [replaced, line, Text.takeWhile_append_solid _ _ _ hm.target_ne_nil hm.target_solid,
    Text.takeWhile_append_solid _ _ _ hm.name_ne_nil hm.name_solid]

theorem mem_writeArguments (args : List Text) (c : Char) (h : c ∈ writeArguments args) :
    c = ',' ∨ ∃ a ∈ args, c ∈ a := by
  induction args with
  | nil => simp [writeArguments] at h
  | cons a args ih =>
    cases args with
    | nil => exact Or.inr ⟨a, List.mem_singleton_self a, by simpa [writeArguments] using h⟩
    | cons b args =>
      rw [writeArguments, List.intercalate_cons_cons] at h
      simp only [List.mem_append, List.mem_singleton] at h
      rcases h with (h | rfl) | h
      · exact Or.inr ⟨a, List.mem_cons_self, h⟩
      · exact Or.inl rfl
      · rcases ih h with rfl | ⟨x, hx, hc⟩
        · exact Or.inl rfl
        · exact Or.inr ⟨x, List.mem_cons_of_mem a hx, hc⟩

/-- No line is torn in two. -/
theorem no_feed_replaced (s : Site) (m : Macro) (hm : m.WellFormed) (place : Place) (n : Nat)
    (hpath : '\n' ∉ place.file.display) (hline : '\n' ∉ s.line m.name) :
    '\n' ∉ s.replaced m.definition place n := by
  simp only [line, List.mem_append, List.mem_cons, not_or] at hline
  obtain ⟨⟨hbefore, -⟩, -, -, hlist, -, hclosing⟩ := hline
  have hargs : ∀ a ∈ s.arguments, '\n' ∉ a :=
    fun a ha hc => hlist (mem_readArguments s.list a _ ha hc)
  have hadmits : Template.Admits (· ≠ '\n') place s.arguments :=
    Template.admits_ne '\n' place s.arguments (by decide) (by decide) (by decide) hpath hargs
  have hfilled : ∀ t ∈ (s.filled m.definition place n).1, ∀ c ∈ t, c ≠ '\n' := by
    apply hadmits.fillAll
    rintro t ht c hc rfl
    exact (hm.templates_solid t (List.mem_of_mem_drop ht)).no_feed hc
  have hwritten : '\n' ∉ writeArguments (s.arguments ++ (s.filled m.definition place n).1) := by
    intro hmem
    rcases mem_writeArguments _ _ hmem with hcomma | ⟨a, ha, hc⟩
    · revert hcomma
      decide
    · rcases List.mem_append.mp ha with ha | ha
      · exact hargs a ha hc
      · exact hfilled a ha _ hc rfl
  simp [replaced, hbefore, hm.target_solid.no_feed, hwritten, hclosing]

theorem prefix_of_not_mem {u v tail : Text} {a : Char} (h : u <+: v ++ a :: tail) (ha : a ∉ u) :
    u <+: v := by
  obtain ⟨t, ht⟩ := h
  rcases List.append_eq_append_iff.mp ht with ⟨w, rfl, -⟩ | ⟨w, rfl, hw⟩
  · exact List.prefix_append u w
  · cases w with
    | nil => simp
    | cons b w =>
      obtain ⟨rfl, -⟩ := List.cons.inj hw
      simp at ha

theorem concat_prefix_of_not_mem {u v w : Text} {c : Char} (h : u ++ [c] <+: v ++ w)
    (hc : c ∉ w) : u ++ [c] <+: v := by
  obtain ⟨t, ht⟩ := h
  rcases List.append_eq_append_iff.mp ht with ⟨x, rfl, -⟩ | ⟨x, hx, rfl⟩
  · exact List.prefix_append _ x
  · rcases List.eq_nil_or_concat' x with rfl | ⟨init, last, rfl⟩
    · rw [List.append_nil] at hx
      exact hx ▸ List.prefix_rfl
    · rw [← List.append_assoc] at hx
      obtain ⟨-, hlast⟩ := List.append_inj' hx rfl
      obtain rfl := (List.cons.inj hlast).1
      simp at hc

/-- A replaced line declares nothing: the marker ends before the parenthesis and a blank follows
it, which stands before the target, so that the line was a comment already. -/
theorem read?_replaced (style : CommentStyle) (s : Site) (m : Macro) (hm : m.WellFormed)
    (place : Place) (n : Nat) (hopen : '(' ∉ style.opener)
    (hcomment : style.isComment (s.line m.name) = false) :
    Declaration.read? style (s.replaced m.definition place n) = none := by
  cases hread : Declaration.read? style (s.replaced m.definition place n) with
  | none => rfl
  | some d =>
    obtain ⟨⟨c, rest, hblank, htrim⟩, -⟩ := Declaration.read?_eq_some style _ d hread
    have hstart : style.marker ++ [c] <+: Text.trimStart (s.replaced m.definition place n) := by
      refine List.IsPrefix.trans ?_ (Text.trim_prefix _)
      exact ⟨rest, by rw [htrim]; simp⟩
    rw [replaced, Text.trimStart_append_solid _ _ _ hm.target_ne_nil hm.target_solid] at hstart
    have hmarker : '(' ∉ style.marker ++ [c] := by
      have hc : '(' ≠ c := by
        rintro rfl
        revert hblank
        decide
      simp [CommentStyle.marker, hopen, hc]
    have htarget : c ∉ m.definition.target := by
      intro hmem
      rw [hm.target_solid c hmem] at hblank
      cases hblank
    have hbefore := concat_prefix_of_not_mem (prefix_of_not_mem hstart hmarker) htarget
    have hopener : style.opener <+: Text.trimStart (s.line m.name) := by
      rw [line, Text.trimStart_append_solid _ _ _ hm.name_ne_nil hm.name_solid, List.append_assoc]
      refine List.IsPrefix.trans ?_ (hbefore.trans (List.prefix_append _ _))
      rw [CommentStyle.marker, List.append_assoc]
      exact List.prefix_append _ _
    have hyes : style.isComment (s.line m.name) = true := List.isPrefixOf_iff_prefix.mpr hopener
    rw [hcomment] at hyes
    cases hyes

end Site

end CommentMacros
