import CommentMacros.Call
import CommentMacros.MacroTable
import CommentMacros.Occurrence
import CommentMacros.Text.Lines

namespace CommentMacros

/-- An outcome together with the counter, which a failure keeps as well. -/
structure Counted (α : Type) where
  outcome : Except Failure α
  counter : Nat

def Counted.map {α β : Type} (f : α → β) (r : Counted α) : Counted β :=
  ⟨r.outcome.map f, r.counter⟩

def Counted.of {α : Type} (n : Nat) : Except Failure (α × Nat) → Counted α
  | .ok (a, k) => ⟨.ok a, k⟩
  | .error f => ⟨.error f, n⟩

/-- Replaces the call at an offset on the counter of a run. -/
def Call.replaceOn (line : Text) (offset : Nat) (name : Text) (d : Definition) (place : Place)
    (n : Nat) : Counted Text :=
  .of n (replaceAt line offset name d place n)

theorem Call.replaceOn_ok {line name out : Text} {offset n k : Nat} {d : Definition}
    {place : Place} (h : replaceAt line offset name d place n = .ok (out, k)) :
    replaceOn line offset name d place n = ⟨.ok out, k⟩ := by
  rw [replaceOn, h]
  rfl

theorem Call.replaceOn_error {line name : Text} {offset n : Nat} {d : Definition} {place : Place}
    {f : Failure} (h : replaceAt line offset name d place n = .error f) :
    replaceOn line offset name d place n = ⟨.error f, n⟩ := by
  rw [replaceOn, h]
  rfl

/-- Applies each macro once to a line, in the order of the table, so that a later macro sees what
an earlier one left. The flag tells whether any was applied. -/
def expandLine (style : CommentStyle) (place : Place) :
    List Macro → Text → Nat → Counted (Text × Bool)
  | [], line, n => ⟨.ok (line, false), n⟩
  | m :: ms, line, n =>
    match Occurrence.find? style m.name line with
    | none => expandLine style place ms line n
    | some offset =>
      match Call.replaceOn line offset m.name m.definition place n with
      | ⟨.error f, n⟩ => ⟨.error f, n⟩
      | ⟨.ok line, n⟩ => (expandLine style place ms line n).map fun r => (r.1, true)

/-- Expands lines up to the first failure. The first of them has the given number. -/
def expandLines (style : CommentStyle) (file : Path) (ms : List Macro) :
    Nat → List Line → Nat → Counted (List (Line × Bool))
  | _, [], n => ⟨.ok [], n⟩
  | number, l :: ls, n =>
    match expandLine style ⟨number, file⟩ ms l.body n with
    | ⟨.error f, n⟩ => ⟨.error f, n⟩
    | ⟨.ok (body, hit), n⟩ =>
      (expandLines style file ms (number + 1) ls n).map ((⟨body, l.terminator⟩, hit) :: ·)

structure Expanded where
  text : Text
  linesHit : Nat
  symbols : List Text
  deriving DecidableEq, Repr

def Expanded.isChanged (e : Expanded) : Bool := 0 < e.linesHit

structure Attempt where
  added : List Text
  result : Counted Expanded

/-- Expands a source with the macros it declares. The lines come out with one terminator for all of
them. -/
def Attempt.ofSource (style : CommentStyle) (file : Path) (source : Text) (n : Nat) : Attempt :=
  let lines := Line.split source
  let newline := Line.newline lines
  match MacroTable.ofLines style file (lines.map (·.body)) with
  | .error f => ⟨[], ⟨.error f, n⟩⟩
  | .ok table =>
    ⟨table.names,
      (expandLines style file table.macros 1 lines n).map fun done =>
        { text := Line.join (done.map fun l => l.1.withTerminator newline)
          linesHit := done.countP (·.2)
          symbols := table.names }⟩

end CommentMacros
