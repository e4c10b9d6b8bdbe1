import CommentMacros.Proofs.Expansion
import CommentMacros.Proofs.Slices

namespace CommentMacros

namespace Sliced

def counterLimit : Nat := 2 ^ 64

def next? (n : Nat) : Option Nat := if n + 1 < counterLimit then some (n + 1) else none

def advance? (n : Nat) : Hole → Option Nat
  | .index => next? n
  | _ => some n

/-- All holes, the arguments by their numbers. There would be none if a number had no hole. -/
def holes? : Option (List Hole) :=
  ((List.range 4).mapM Hole.arg?).map fun args => [.index, .file, .filePath, .line] ++ args

def leading? (s : Text) : Option (Option Hole) :=
  holes?.map fun holes => holes.find? fun p => p.token.isPrefixOf s

/-- Fills a template: what has been read is cut off at the front. -/
def fill (place : Place) (args : List Text) : Text → Nat → Option (Text × Nat)
  | [], n => some ([], n)
  | c :: s, n =>
    match leading? (c :: s) with
    | none => none
    | some none =>
      match _hcut : Text.from? (c :: s) c.utf8Size with
      | none => none
      | some rest => (fill place args rest n).map fun filled => (c :: filled.1, filled.2)
    | some (some p) =>
      match _hcut : Text.from? (c :: s) p.token.byteLength with
      | none => none
      | some rest =>
        match advance? n p with
        | none => none
        | some k =>
          (fill place args rest k).map fun filled =>
            (Template.value place args n p ++ filled.1, filled.2)
termination_by s => s.length
decreasing_by
  · exact Text.length_from? (c :: s) rest _ c.utf8Size_pos _hcut
  · have hpos : 0 < p.token.byteLength := by
      have hall : ∀ q ∈ Hole.all, 0 < Text.byteLength q.token := by decide
      exact hall p (Hole.mem_all p)
    exact Text.length_from? (c :: s) rest _ hpos _hcut

def fillAll (place : Place) (args : List Text) : List Text → Nat → Option (List Text × Nat)
  | [], n => some ([], n)
  | t :: ts, n =>
    (fill place args t n).bind fun first =>
      (fillAll place args ts first.2).map fun rest => (first.1 :: rest.1, rest.2)

def slotsFrom? (ts : List Text) (k : Nat) : Option (List Text) :=
  if k ≤ ts.length then some (ts.drop k) else none

def expand (call : Call) (d : Definition) (place : Place) (n : Nat) :
    Option (Except Failure (Text × Nat)) :=
  if d.arity < call.arguments.length then
    some (.error (.tooManyArguments call.name call.arguments.length d.arity))
  else
    (slotsFrom? d.templates call.arguments.length).bind fun ts =>
      (fillAll place call.arguments ts n).map fun filled =>
        .ok (call.before ++ d.target ++ '(' :: writeArguments (call.arguments ++ filled.1) ++
          call.closing, filled.2)

def replaceAt (line : Text) (i : Nat) (name : Text) (d : Definition) (place : Place) (n : Nat) :
    Option (Except Failure (Text × Nat)) :=
  (parseAt line i name).bind fun parsed =>
    match parsed with
    | .error f => some (.error (.atLine line place.file f))
    | .ok call => (expand call d place n).map (Except.mapError (.atLine line place.file))

theorem leading?_eq (s : Text) : leading? s = some (Hole.leading? s) := rfl

theorem advance?_eq (n : Nat) (p : Hole) (h : n + Template.advance p < counterLimit) :
    advance? n p = some (n + Template.advance p) := by
  cases p with
  | index => exact if_pos h
  | _ => rfl

/-- A template is cut behind a character or behind a token. -/
theorem fill_eq (place : Place) (args : List Text) (t : Text) (n : Nat)
    (h : (Template.fill place args (Template.pieces t) n).2 < counterLimit) :
    fill place args t n = some (Template.fill place args (Template.pieces t) n) := by
  induction t using Template.pieces_induction generalizing n with
  | nil =>
    rw [fill]
    rfl
  | char c s hlead ih =>
    have hcut : Text.from? (c :: s) c.utf8Size = some s := Text.from?_byteLength [c] s
    rw [Template.pieces_char c s hlead] at h ⊢
    rw [fill, leading?_eq, hlead]
    dsimp only
    split
    · rename_i hnone
      rw [hcut] at hnone
      cases hnone
    · rename_i rest hrest
      obtain rfl := Option.some.inj (hcut.symm.trans hrest)
      rw [ih n h]
      rfl
  | token p s ih =>
    have hlead : Hole.leading? (p.token ++ s) = some p :=
      Hole.leading?_eq_some_iff.mpr (List.prefix_append p.token s)
    have hcut : Text.from? (p.token ++ s) p.token.byteLength = some s :=
      Text.from?_byteLength p.token s
    rw [Template.pieces_token p s] at h ⊢
    have hrest : (Template.fill place args (Template.pieces s) (n + Template.advance p)).2 <
        counterLimit := h
    have hadvance := advance?_eq n p (Nat.lt_of_le_of_lt (Template.le_fill place args _ _) hrest)
    -- `fill` looks at the first character before it looks for a token
    obtain ⟨c, token, htoken⟩ := List.exists_cons_of_ne_nil p.token_ne_nil
    rw [htoken, List.cons_append] at hlead hcut ⊢
    rw [fill, leading?_eq, hlead]
    dsimp only
    rw [← htoken] at hcut
    split
    · rename_i hnone
      rw [hcut] at hnone
      cases hnone
    · rename_i rest hafter
      obtain rfl := Option.some.inj (hcut.symm.trans hafter)
      rw [hadvance]
      dsimp only
      rw [ih _ hrest]
      rfl

theorem fillAll_eq (place : Place) (args : List Text) (ts : List Text) (n : Nat)
    (h : (Template.fillAll place args ts n).2 < counterLimit) :
    fillAll place args ts n = some (Template.fillAll place args ts n) := by
  induction ts generalizing n with
  | nil => rfl
  | cons t ts ih =>
    have hrest : (Template.fillAll place args ts
        (Template.fill place args (Template.pieces t) n).2).2 < counterLimit := h
    have hfirst := fill_eq place args t n
      (Nat.lt_of_le_of_lt (Template.le_fillAll place args ts _) hrest)
    rw [fillAll, hfirst, Option.bind_some, ih _ hrest]
    rfl

theorem expand_eq (call : Call) (d : Definition) (place : Place) (n : Nat)
    (h : ∀ out k, call.expand d place n = .ok (out, k) → k < counterLimit) :
    expand call d place n = some (call.expand d place n) := by
  rw [Call.expand] at h ⊢
  rw [expand]
  split_ifs at h ⊢ with harity
  · rfl
  · have hslots : slotsFrom? d.templates call.arguments.length =
        some (d.templates.drop call.arguments.length) := if_pos (Nat.le_of_not_lt harity)
    rw [hslots, Option.bind_some, fillAll_eq place call.arguments _ n (h _ _ rfl)]
    rfl

theorem replaceAt_eq (before name rest : Text) (d : Definition) (place : Place) (n : Nat)
    (h : ∀ out k, Call.replaceAt (before ++ name ++ rest) before.byteLength name d place n =
      .ok (out, k) → k < counterLimit) :
    replaceAt (before ++ name ++ rest) before.byteLength name d place n =
      some (Call.replaceAt (before ++ name ++ rest) before.byteLength name d place n) := by
  rw [replaceAt, parseAt_eq, Option.bind_some]
  rw [Call.replaceAt] at h ⊢
  cases hparse : Call.parseAt (before ++ name ++ rest) before.byteLength name with
  | error f =>
    obtain rfl := Call.parseAt_eq_error before name rest f hparse
    rfl
  | ok call =>
    rw [hparse] at h
    simp only [Except.bind] at h ⊢
    have hexpand := expand_eq call d place n (by
      intro out k hok
      apply h out k
      rw [hok])
    rw [hexpand, Option.map_some, Call.expand]
    split_ifs with harity
    · rfl
    · rfl

/-- Reads a line as a declaration: its second and third word are asked for only if there are
three. -/
def readDeclaration (style : CommentStyle) (line : Text) : Option (Option Declaration) :=
  match afterLead? style.marker line.trim with
  | none => some none
  | some rest =>
    if rest.head?.any isBlank then
      if line.trim.words.length < 3 then some none
      else
        line.trim.words[1]?.bind fun signature =>
          line.trim.words[2]?.map fun expansion => some ⟨line.trim, signature, expansion⟩
    else some none

def add (t : MacroTable) (d : Declaration) : Option (Except DefinitionFault MacroTable) :=
  (signatureName d.signature).bind fun named =>
    match named with
    | .error fault => some (.error fault)
    | .ok name =>
      if t.names.contains name then some (.error (.duplicate name))
      else
        (parseDefinition d.expansion).map fun parsed =>
          parsed.map fun definition => ⟨t.macros ++ [⟨name, definition⟩]⟩

def addLines (style : CommentStyle) (file : Path) :
    MacroTable → List Text → Option (Except Failure MacroTable)
  | t, [] => some (.ok t)
  | t, line :: lines =>
    match readDeclaration style line with
    | none => none
    | some none => addLines style file t lines
    | some (some d) =>
      match add t d with
      | none => none
      | some (.error fault) => some (.error (.atDeclaration d.text file (.badDefinition fault)))
      | some (.ok t) => addLines style file t lines

def expandLine (style : CommentStyle) (place : Place) :
    List Macro → Text → Nat → Option (Counted (Text × Bool))
  | [], line, n => some ⟨.ok (line, false), n⟩
  | m :: ms, line, n =>
    match find? style m.name line with
    | none => none
    | some none => expandLine style place ms line n
    | some (some i) =>
      match replaceAt line i m.name m.definition place n with
      | none => none
      | some (.error f) => some ⟨.error f, n⟩
      | some (.ok (line, n)) =>
        (expandLine style place ms line n).map fun rest => rest.map fun r => (r.1, true)

def expandLines (style : CommentStyle) (file : Path) (ms : List Macro) :
    Nat → List Line → Nat → Option (Counted (List (Line × Bool)))
  | _, [], n => some ⟨.ok [], n⟩
  | number, l :: ls, n =>
    match expandLine style ⟨number, file⟩ ms l.body n with
    | none => none
    | some ⟨.error f, n⟩ => some ⟨.error f, n⟩
    | some ⟨.ok (body, hit), n⟩ =>
      (expandLines style file ms (number + 1) ls n).map fun rest =>
        rest.map ((⟨body, l.terminator⟩, hit) :: ·)

def ofSource (style : CommentStyle) (file : Path) (source : Text) (n : Nat) : Option Attempt :=
  match addLines style file .empty ((Line.split source).map (·.body)) with
  | none => none
  | some (.error f) => some ⟨[], ⟨.error f, n⟩⟩
  | some (.ok table) =>
    (expandLines style file table.macros 1 (Line.split source) n).map fun lines =>
      ⟨table.names, lines.map fun done =>
        { text := Line.join
            (done.map fun l => l.1.withTerminator (Line.newline (Line.split source)))
          linesHit := done.countP (·.2)
          symbols := table.names }⟩

theorem readDeclaration_eq (style : CommentStyle) (line : Text) :
    readDeclaration style line = some (Declaration.read? style line) := by
  unfold readDeclaration Declaration.read?
  dsimp only
  cases afterLead? style.marker line.trim with
  | none => rfl
  | some rest =>
    dsimp only
    split_ifs with hblank hfew
    · cases hwords : line.trim.words with
      | nil => rfl
      | cons marker words =>
        rw [hwords] at hfew
        match words with
        | [] => rfl
        | [signature] => rfl
        | signature :: expansion :: more =>
          simp only [List.length_cons] at hfew
          omega
    · cases hwords : line.trim.words with
      | nil => simp [hwords] at hfew
      | cons marker words =>
        rw [hwords] at hfew
        match words with
        | [] => simp at hfew
        | [signature] => simp at hfew
        | signature :: expansion :: more => rfl
    · rfl

theorem add_eq (t : MacroTable) (d : Declaration) : add t d = some (t.add d) := by
  rw [add, signatureName_eq, Option.bind_some, MacroTable.add]
  cases CommentMacros.signatureName d.signature with
  | error fault => rfl
  | ok name =>
    dsimp only
    rw [parseDefinition_eq, if_congr List.contains_iff_mem rfl rfl]
    split_ifs with htaken
    · rfl
    · cases Definition.parse d.expansion with
      | error fault => rfl
      | ok definition => rfl

theorem addLines_eq (style : CommentStyle) (file : Path) (t : MacroTable) (lines : List Text) :
    addLines style file t lines =
      some (MacroTable.addAll file t (lines.filterMap (Declaration.read? style))) := by
  induction lines generalizing t with
  | nil => rfl
  | cons line lines ih =>
    rw [addLines, readDeclaration_eq, List.filterMap_cons]
    cases Declaration.read? style line with
    | none => exact ih t
    | some d =>
      dsimp only
      rw [add_eq, MacroTable.addAll]
      cases t.add d with
      | error fault => rfl
      | ok t' => exact ih t'

/-- Every macro is replaced where it has just been found, in the line as it then is. -/
theorem expandLine_eq (style : CommentStyle) (place : Place) (ms : List Macro) (line : Text)
    (n : Nat) (h : (CommentMacros.expandLine style place ms line n).counter < counterLimit) :
    expandLine style place ms line n = some (CommentMacros.expandLine style place ms line n) := by
  -- the counter never goes back, so that its last value bounds it in every call
  induction ms generalizing line n with
  | nil => rfl
  | cons m ms ih =>
    rw [CommentMacros.expandLine] at h ⊢
    rw [expandLine, find?_eq]
    cases hfind : Occurrence.find? style m.name line with
    | none =>
      rw [hfind] at h
      exact ih line n h
    | some offset =>
      rw [hfind] at h
      dsimp only at h ⊢
      obtain ⟨-, -, before, rest, rfl, rfl, -⟩ :=
        Occurrence.find?_eq_some style m.name line offset hfind
      have hreplace := replaceAt_eq before m.name rest m.definition place n (by
        intro out k hok
        rw [Call.replaceOn_ok hok] at h
        exact Nat.lt_of_le_of_lt (le_expandLine style place ms out k) h)
      rw [hreplace]
      cases hok : Call.replaceAt (before ++ m.name ++ rest) before.byteLength m.name
          m.definition place n with
      | error f =>
        rw [Call.replaceOn_error hok]
      | ok result =>
        rw [Call.replaceOn_ok hok] at h ⊢
        dsimp only
        rw [ih result.1 result.2 h]
        rfl

theorem expandLines_eq (style : CommentStyle) (file : Path) (ms : List Macro) (number : Nat)
    (ls : List Line) (n : Nat)
    (h : (CommentMacros.expandLines style file ms number ls n).counter < counterLimit) :
    expandLines style file ms number ls n =
      some (CommentMacros.expandLines style file ms number ls n) := by
  induction ls generalizing number n with
  | nil => rfl
  | cons l ls ih =>
    rw [CommentMacros.expandLines] at h ⊢
    rw [expandLines]
    have hle := le_expandLines style file ms (number + 1) ls
    have hline := expandLine_eq style ⟨number, file⟩ ms l.body n
    rcases hbody : CommentMacros.expandLine style ⟨number, file⟩ ms l.body n with
      ⟨⟨f⟩ | ⟨body, hit⟩, k⟩
    · rw [hbody] at h hline
      rw [hline h]
    · rw [hbody] at h hline
      rw [hline (Nat.lt_of_le_of_lt (hle k) h)]
      dsimp only
      rw [ih (number + 1) k h]
      rfl

end Sliced

/-- As long as the counter has room, expanding a source on byte offsets has a result, the same as
expanding it directly: all offsets lie in the texts that are cut there and between two characters
of them, all slots and words that are asked for exist, and every hole has a token. What fails is a
declaration or a call. -/
theorem expansion_slices_in_range (style : CommentStyle) (file : Path) (source : Text) (n : Nat)
    (hcounter : (Attempt.ofSource style file source n).result.counter < Sliced.counterLimit) :
    Sliced.ofSource style file source n = some (Attempt.ofSource style file source n) ∧
    ∀ f, (Attempt.ofSource style file source n).result.outcome = .error f → f.InSource file := by
  refine ⟨?_, Attempt.ofSource_eq_error style file source n⟩
  unfold Attempt.ofSource at hcounter ⊢
  dsimp only at hcounter ⊢
  rw [Sliced.ofSource, Sliced.addLines_eq]
  rw [MacroTable.ofLines] at hcounter ⊢
  cases htable : MacroTable.addAll file .empty
      (((Line.split source).map (·.body)).filterMap (Declaration.read? style)) with
  | error f => rfl
  | ok table =>
    rw [htable] at hcounter
    dsimp only
    rw [Sliced.expandLines_eq style file table.macros 1 _ n hcounter]
    rfl

/-- Letters of more than one byte stand around the name, in the path and in the template; the
counter is used up to its last value. -/
theorem expansion_slices_multibyte :
    (Attempt.ofSource .standard [195, 188] "//#DEFINE é() ü(__INDEX__,__FILE__ö)\nñ é (); x".toList
      (2 ^ 64 - 2)).result.counter = 2 ^ 64 - 1 ∧
    Sliced.ofSource .standard [195, 188]
      "//#DEFINE é() ü(__INDEX__,__FILE__ö)\nñ é (); x".toList (2 ^ 64 - 2) =
      some (Attempt.ofSource .standard [195, 188]
        "//#DEFINE é() ü(__INDEX__,__FILE__ö)\nñ é (); x".toList (2 ^ 64 - 2)) := by
  have hcounter : (Attempt.ofSource .standard [195, 188]
      "//#DEFINE é() ü(__INDEX__,__FILE__ö)\nñ é (); x".toList (2 ^ 64 - 2)).result.counter =
      2 ^ 64 - 1 := by
    decide +kernel
  refine ⟨hcounter, (expansion_slices_in_range .standard [195, 188] _ _ ?_).1⟩
  rw [hcounter]
  decide +kernel

end CommentMacros
