import CommentMacros.Proofs.Expansion
import CommentMacros.Proofs.Lines
import CommentMacros.Proofs.Skeleton

namespace CommentMacros

/-- The kind of a failure: its root, less the line in which no call could be read. -/
def Failure.kind (f : Failure) : Failure :=
  match f.rootCause with
  | .notACall _ => .notACall []
  | root => root

/-- For all starts `n` of the counter the results `r n` are one and the same: a value with places
for the counter, or a failure of one kind. The counter advances by the same amount. -/
inductive Shifts {α β : Type} (render : Nat → α → β) (r : Nat → Counted β) : Prop
  | done (a : α) (k : Nat) (h : ∀ n, r n = ⟨.ok (render n a), n + k⟩)
  | failed (kind : Failure) (k : Nat) (h : ∀ n, ∃ f, r n = ⟨.error f, n + k⟩ ∧ f.kind = kind)

theorem Shifts.map {α β γ δ : Type} {render : Nat → α → β} {r : Nat → Counted β}
    (h : Shifts render r) (render' : Nat → γ → δ) (f : Nat → β → δ) (g : α → γ)
    (hf : ∀ n a, f n (render n a) = render' n (g a)) :
    Shifts render' fun n => (r n).map (f n) := by
  cases h with
  | done a k h =>
    refine .done (g a) k ?_
    intro n
    rw [h n, ← hf n a]
    rfl
  | failed kind k h =>
    refine .failed kind k ?_
    intro n
    obtain ⟨cause, hr, hkind⟩ := h n
    exact ⟨cause, by rw [hr]; rfl, hkind⟩

namespace Skeleton

theorem value_render (place : Place) (args : List Skeleton) (k : Nat) (p : Hole) :
    ∃ v, ∀ n, Template.value place (args.map (render n)) (n + k) p = render n v := by
  cases p with
  | index => exact ⟨[.index k], fun n => by simp [Template.value]⟩
  | file => exact ⟨ofText _, fun n => (render_ofText n _).symm⟩
  | filePath => exact ⟨ofText _, fun n => (render_ofText n _).symm⟩
  | line => exact ⟨ofText _, fun n => (render_ofText n _).symm⟩
  | arg i =>
    cases harg : args[i.val]? with
    | none =>
      refine ⟨ofText (Hole.arg i).token, ?_⟩
      intro n
      rw [Template.value, List.getElem?_map, harg, render_ofText]
      rfl
    | some a =>
      refine ⟨.char '\'' :: (a ++ [.char '\'']), ?_⟩
      intro n
      rw [Template.value, List.getElem?_map, harg]
      simp [Template.quoted]

theorem fill_render (place : Place) (args : List Skeleton) (ps : List Piece) (k : Nat) :
    ∃ out k', ∀ n,
      Template.fill place (args.map (render n)) ps (n + k) = (render n out, n + k') := by
  induction ps generalizing k with
  | nil => exact ⟨[], k, fun n => rfl⟩
  | cons piece ps ih =>
    cases piece with
    | char c =>
      obtain ⟨out, k', hout⟩ := ih k
      refine ⟨.char c :: out, k', ?_⟩
      intro n
      simp only [Template.fill, hout n, render_char]
    | hole p =>
      obtain ⟨v, hv⟩ := value_render place args k p
      obtain ⟨out, k', hout⟩ := ih (k + Template.advance p)
      refine ⟨v ++ out, k', ?_⟩
      intro n
      simp only [Template.fill, Nat.add_assoc, hout n, hv n, render_append]

theorem fillAll_render (place : Place) (args : List Skeleton) (ts : List Text) (k : Nat) :
    ∃ (outs : List Skeleton) (k' : Nat), ∀ n,
      Template.fillAll place (args.map (render n)) ts (n + k) = (outs.map (render n), n + k') := by
  induction ts generalizing k with
  | nil => exact ⟨[], k, fun n => rfl⟩
  | cons t ts ih =>
    obtain ⟨out, k', hout⟩ := fill_render place args (Template.pieces t) k
    obtain ⟨outs, k'', houts⟩ := ih k'
    refine ⟨out :: outs, k'', ?_⟩
    intro n
    simp only [Template.fillAll, hout n, houts n, List.map_cons]

end Skeleton

section Line

open Skeleton

variable (style : CommentStyle) (place : Place)

/-- The macro is applied behind `before` alike for all starts of the counter: the line becomes one
skeleton again, or the failure is of one kind. -/
def Call.ReplacedAlike (m : Macro) (w before : Skeleton) (k : Nat) : Prop :=
  (∃ w' k', ∀ n, replaceAt (render n w) (render n before).byteLength m.name m.definition place
      (n + k) = .ok (render n w', n + k')) ∨
    ∃ kind, ∀ n, ∃ f, replaceAt (render n w) (render n before).byteLength m.name m.definition place
      (n + k) = .error f ∧ f.kind = kind

/-- The number of arguments is a matter of the skeleton, and so are the arguments written out. -/
theorem Call.replaceAt_closed (m : Macro) (w before gap list closing : Skeleton) (k : Nat)
    (hgap : Cell.char '(' ∉ gap) (hclosing : Cell.char ')' ∉ closing)
    (hw : ∀ n, render n w = render n before ++ m.name ++
      render n (gap ++ .char '(' :: (list ++ .char ')' :: closing))) :
    ReplacedAlike place m w before k := by
  obtain ⟨args, hargs⟩ := readArguments_render list
  have hsharp (n : Nat) : Site.Sharp ⟨render n before, render n gap, render n list,
      render n closing⟩ :=
    ⟨fun hmem => hgap ((mem_render n gap '(' (by decide)).mp hmem),
      fun hmem => hclosing ((mem_render n closing ')' (by decide)).mp hmem)⟩
  have hline (n : Nat) : render n w = Site.line ⟨render n before, render n gap, render n list,
      render n closing⟩ m.name := by
    rw [hw n]
    simp [Site.line]
  have hreplace (n : Nat) := replaceAt_line _ (hsharp n) m.name m.definition place (n + k)
  simp only [← hline, Site.arguments, hargs, List.length_map] at hreplace
  by_cases harity : m.definition.arity < args.length
  · refine Or.inr ⟨.tooManyArguments m.name args.length m.definition.arity, ?_⟩
    intro n
    exact ⟨_, (hreplace n).trans (if_pos harity), rfl⟩
  · obtain ⟨outs, k', houts⟩ :=
      Skeleton.fillAll_render place args (m.definition.templates.drop args.length) k
    refine Or.inl ⟨before ++ ofText m.definition.target ++ (.char '(' ::
      ([Cell.char ','].intercalate (args ++ outs) ++ .char ')' :: closing)), k', ?_⟩
    intro n
    rw [hreplace n, if_neg harity]
    simp [Site.replaced, Site.filled, Site.arguments, hargs, houts, render_intercalate,
      writeArguments]

theorem Call.replaceAt_render (m : Macro) (w before rest : Skeleton) (k : Nat)
    (hw : ∀ n, render n w = render n before ++ m.name ++ render n rest) :
    ReplacedAlike place m w before k := by
  have hunclosed (hno : ∀ n gap tail, cutFirst '(' (render n rest) = some (gap, tail) →
      cutLast ')' tail = none) : ReplacedAlike place m w before k := by
    refine Or.inr ⟨.notACall [], ?_⟩
    intro n
    refine ⟨.atLine (render n w) place.file (.notACall (render n w)), ?_, rfl⟩
    rw [hw n]
    exact replaceAt_of_unclosed _ _ _ _ _ _ (hno n)
  cases hopen : cutFirst (Cell.char '(') rest with
  | none =>
    apply hunclosed
    intro n gap tail hsome
    rw [cutFirst_render n rest '(' (by decide), hopen] at hsome
    cases hsome
  | some parts =>
    obtain ⟨gap, tail⟩ := parts
    cases hclose : cutLast (Cell.char ')') tail with
    | none =>
      apply hunclosed
      intro n gap' tail' hsome
      rw [cutFirst_render n rest '(' (by decide), hopen] at hsome
      obtain ⟨-, rfl⟩ := Prod.mk.inj (Option.some.inj hsome)
      rw [cutLast_render n tail ')' (by decide), hclose]
      rfl
    | some parts =>
      obtain ⟨list, closing⟩ := parts
      obtain ⟨rfl, hgap⟩ := cutFirst_eq_some hopen
      obtain ⟨rfl, hclosing⟩ := cutLast_eq_some hclose
      exact replaceAt_closed place m w before gap list closing k hgap hclosing hw

/-- A line that is one skeleton for all starts of the counter stays one. -/
theorem expandLine_shifts (hopener : ∀ c ∈ style.opener, c.isDigit = false) (ms : List Macro)
    (hms : ∀ m ∈ ms, ∀ c ∈ m.name, c.isDigit = false) (w : Skeleton) (k : Nat) :
    Shifts (fun n (a : Skeleton × Bool) => (render n a.1, a.2))
      fun n => expandLine style place ms (render n w) (n + k) := by
  induction ms generalizing w k with
  | nil => exact .done (w, false) k fun n => rfl
  | cons m ms ih =>
    obtain ⟨hm, hms⟩ := List.forall_mem_cons.mp hms
    obtain ⟨found, hfound⟩ := find?_render style hopener m.name hm w
    cases found with
    | none =>
      have hskip (n : Nat) : expandLine style place (m :: ms) (render n w) (n + k) =
          expandLine style place ms (render n w) (n + k) := by
        rw [expandLine, (hfound n).1]
        rfl
      simp only [hskip]
      exact ih hms w k
    | some o =>
      obtain ⟨before, rest⟩ := o
      have hfind (n : Nat) : Occurrence.find? style m.name (render n w) =
          some (render n before).byteLength := (hfound n).1
      rcases Call.replaceAt_render place m w before rest k (fun n => (hfound n).2 _ rfl) with
        ⟨w', k', hreplace⟩ | ⟨kind, hreplace⟩
      · -- the numbers put in are cells of `w'`, which the next macros are looked for in
        have hstep (n : Nat) : expandLine style place (m :: ms) (render n w) (n + k) =
            (expandLine style place ms (render n w') (n + k')).map fun r => (r.1, true) := by
          rw [expandLine, hfind n]
          dsimp only
          rw [Call.replaceOn_ok (hreplace n)]
        simp only [hstep]
        exact (ih hms w' k').map _ (fun _ r => (r.1, true)) (fun a => (a.1, true))
          (fun _ _ => rfl)
      · refine .failed kind k ?_
        intro n
        obtain ⟨f, hf, hkind⟩ := hreplace n
        refine ⟨f, ?_, hkind⟩
        rw [expandLine, hfind n]
        dsimp only
        rw [Call.replaceOn_error hf]

end Line

structure OpenLine where
  body : Skeleton
  terminator : Terminator
  hit : Bool

namespace OpenLine

def render (n : Nat) (l : OpenLine) : Line × Bool := (⟨l.body.render n, l.terminator⟩, l.hit)

def join (t : Terminator) (ls : List OpenLine) : Skeleton :=
  ls.flatMap fun l =>
    l.body ++ Skeleton.ofText (if l.terminator = .missing then .missing else t : Terminator).text

theorem render_join (t : Terminator) (n : Nat) (ls : List OpenLine) :
    (join t ls).render n =
      Line.join ((ls.map (render n)).map fun l => l.1.withTerminator t) := by
  induction ls with
  | nil => rfl
  | cons l ls ih =>
    have hline : ((l.render n).1.withTerminator t).text =
        l.body.render n ++ (if l.terminator = .missing then .missing else t : Terminator).text := by
      rw [Line.text, Line.withTerminator_body, Line.withTerminator_terminator]
      rfl
    have hleft : join t (l :: ls) = l.body ++ Skeleton.ofText
        (if l.terminator = .missing then .missing else t : Terminator).text ++ join t ls := rfl
    have hright (d : Line) (ds : List Line) : Line.join (d :: ds) = d.text ++ Line.join ds := rfl
    rw [hleft, Skeleton.render_append, Skeleton.render_append, Skeleton.render_ofText, ih,
      List.map_cons, List.map_cons, hright, hline]

theorem countP_render (n : Nat) (ls : List OpenLine) :
    (ls.map (render n)).countP (·.2) = ls.countP (·.hit) := by
  rw [List.countP_map]
  rfl

end OpenLine

section Source

variable (style : CommentStyle) (file : Path)

theorem expandLines_shifts (hopener : ∀ c ∈ style.opener, c.isDigit = false) (ms : List Macro)
    (hms : ∀ m ∈ ms, ∀ c ∈ m.name, c.isDigit = false) (number : Nat) (ls : List Line) (k : Nat) :
    Shifts (fun n (a : List OpenLine) => a.map (OpenLine.render n))
      fun n => expandLines style file ms number ls (n + k) := by
  induction ls generalizing number k with
  | nil => exact .done [] k fun n => rfl
  | cons l ls ih =>
    have hline := expandLine_shifts style ⟨number, file⟩ hopener ms hms (.ofText l.body) k
    simp only [Skeleton.render_ofText] at hline
    cases hline with
    | done a k' h =>
      have hstep (n : Nat) : expandLines style file ms number (l :: ls) (n + k) =
          (expandLines style file ms (number + 1) ls (n + k')).map
            (OpenLine.render n ⟨a.1, l.terminator, a.2⟩ :: ·) := by
        rw [expandLines, h n]
        rfl
      simp only [hstep]
      exact (ih (number + 1) k').map _
        (fun n rest => OpenLine.render n ⟨a.1, l.terminator, a.2⟩ :: rest)
        (fun rest => ⟨a.1, l.terminator, a.2⟩ :: rest) (fun _ _ => rfl)
    | failed kind k' h =>
      refine .failed kind k' ?_
      intro n
      obtain ⟨f, hf, hkind⟩ := h n
      exact ⟨f, by rw [expandLines, hf], hkind⟩

theorem ofSource_shifts (source : Text) (hopener : ∀ c ∈ style.opener, c.isDigit = false)
    (hnames : ∀ table,
      MacroTable.ofLines style file ((Line.split source).map (·.body)) = .ok table →
      ∀ name ∈ table.names, ∀ c ∈ name, c.isDigit = false) :
    Shifts (fun n (a : Skeleton × Nat × List Text) => (⟨a.1.render n, a.2.1, a.2.2⟩ : Expanded))
      fun n => (Attempt.ofSource style file source n).result := by
  cases htable : MacroTable.ofLines style file ((Line.split source).map (·.body)) with
  | error f =>
    refine .failed f.kind 0 ?_
    intro n
    refine ⟨f, ?_, rfl⟩
    rw [Attempt.ofSource, htable]
    rfl
  | ok table =>
    have hms : ∀ m ∈ table.macros, ∀ c ∈ m.name, c.isDigit = false :=
      fun m hm => hnames table htable m.name (List.mem_map_of_mem hm)
    have hresult (n : Nat) : (Attempt.ofSource style file source n).result =
        (expandLines style file table.macros 1 (Line.split source) (n + 0)).map fun done =>
          ⟨Line.join (done.map fun l => l.1.withTerminator (Line.newline (Line.split source))),
            done.countP (·.2), table.names⟩ := by
      rw [Attempt.ofSource, htable]
      rfl
    simp only [hresult]
    refine (expandLines_shifts style file hopener table.macros hms 1 (Line.split source) 0).map
      _ _ (fun a => (OpenLine.join (Line.newline (Line.split source)) a, a.countP (·.hit),
        table.names)) ?_
    intro n a
    rw [OpenLine.render_join, OpenLine.countP_render]

end Source

/-- A source does not notice where the counter starts, if there are no digits in the comment opener
and in the names of its macros. It is expanded from every start `n`, to the text of one skeleton and
with as many lines hit, or it fails from every start in the same way; the counter advances by the
same amount. The counter is a natural number, so that no start is too large. -/
theorem expansion_shifts_with_counter (style : CommentStyle) (file : Path) (source : Text)
    (hopener : ∀ c ∈ style.opener, c.isDigit = false)
    (hnames : ∀ table,
      MacroTable.ofLines style file ((Line.split source).map (·.body)) = .ok table →
      ∀ name ∈ table.names, ∀ c ∈ name, c.isDigit = false) :
    ∃ (k : Nat) (w : Skeleton), ∀ n,
      (Attempt.ofSource style file source n).result.counter = n + k ∧
      ((∃ e e₀, (Attempt.ofSource style file source n).result.outcome = .ok e ∧
          (Attempt.ofSource style file source 0).result.outcome = .ok e₀ ∧
          e.text = w.render n ∧ e.linesHit = e₀.linesHit ∧ e.symbols = e₀.symbols) ∨
        ∃ f f₀, (Attempt.ofSource style file source n).result.outcome = .error f ∧
          (Attempt.ofSource style file source 0).result.outcome = .error f₀ ∧
          f.kind = f₀.kind) := by
  cases ofSource_shifts style file source hopener hnames with
  | done a k h =>
    refine ⟨k, a.1, ?_⟩
    intro n
    rw [h n, h 0]
    exact ⟨rfl, Or.inl ⟨_, _, rfl, rfl, rfl, rfl, rfl⟩⟩
  | failed kind k h =>
    refine ⟨k, [], ?_⟩
    intro n
    obtain ⟨f, hf, hkind⟩ := h n
    obtain ⟨f₀, hf₀, hkind₀⟩ := h 0
    rw [hf, hf₀]
    exact ⟨rfl, Or.inr ⟨f, f₀, rfl, rfl, hkind.trans hkind₀.symm⟩⟩

/-- The value that the first macro puts in is an argument for the second, which quotes it and adds
another value. From every start, both macros are applied in one line. -/
theorem expansion_shifts_chained :
    let source := "//#DEFINE E() F(__INDEX__)\n//#DEFINE F(a) g(a,__ARG0__,__INDEX__)\nE()".toList
    ∃ w : Skeleton, ∀ n, (Attempt.ofSource .standard [97] source n).result.counter = n + 2 ∧
      ∃ e, (Attempt.ofSource .standard [97] source n).result.outcome = .ok e ∧
        e.text = w.render n ∧ e.linesHit = 1 ∧ e.symbols = ["E".toList, "F".toList] := by
  intro source
  have hzero : (Attempt.ofSource .standard [97] source 0).result.outcome.toOption.map
      (fun e => (e.linesHit, e.symbols)) = some (1, ["E".toList, "F".toList]) := by
    decide +kernel
  have hcounter : (Attempt.ofSource .standard [97] source 0).result.counter = 2 := by
    decide +kernel
  cases hok : (Attempt.ofSource .standard [97] source 0).result.outcome with
  | error f =>
    rw [hok] at hzero
    cases hzero
  | ok e₀ =>
    rw [hok] at hzero
    obtain ⟨hhit, hsymbols⟩ := Prod.mk.inj (Option.some.inj hzero)
    obtain ⟨table, done, htable, -, he₀⟩ := Attempt.ofSource_eq_ok .standard [97] source 0 e₀ hok
    have hnames : table.names = ["E".toList, "F".toList] := by
      rw [← hsymbols, he₀]
    obtain ⟨k, w, h⟩ := expansion_shifts_with_counter .standard [97] source
      (by simp [CommentStyle.standard, Char.isDigit])
      (by
        intro table' htable'
        obtain rfl := Except.ok.inj (htable.symm.trans htable')
        simp [hnames, Char.isDigit])
    have hk : k = 2 := by
      have hadvance := (h 0).1
      omega
    refine ⟨w, ?_⟩
    intro n
    refine ⟨by rw [(h n).1, hk], ?_⟩
    rcases (h n).2 with ⟨e, e₁, he, he₁, htext, hhit', hsymbols'⟩ | ⟨f, f₀, -, hf₀, -⟩
    · obtain rfl := Except.ok.inj (hok.symm.trans he₁)
      exact ⟨e, he, htext, hhit'.trans hhit, hsymbols'.trans hsymbols⟩
    · cases hok.symm.trans hf₀

end CommentMacros
