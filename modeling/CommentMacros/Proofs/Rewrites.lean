import CommentMacros.Proofs.Expansion
import CommentMacros.Proofs.Segments

namespace CommentMacros

/-- A replaced call with the counter at that moment. -/
structure Rewrite where
  place : Place
  rule : Macro
  call : Call
  counter : Nat

namespace Rewrite

variable (w : Rewrite)

/-- The templates of the slots that the call leaves open. -/
def slots : List Text := w.rule.definition.templates.drop w.call.arguments.length

def values : List (List Nat) := Template.indicesAll w.slots w.counter

def indices : List Nat := w.values.flatten

def filled : List Text :=
  List.zipWith (fun t vs => Template.render w.place w.call.arguments (Template.pieces t) vs)
    w.slots w.values

def text : Text :=
  w.call.before ++ w.rule.definition.target ++
    '(' :: writeArguments (w.call.arguments ++ w.filled) ++ w.call.closing

theorem indices_eq_range :
    w.indices = List.range' w.counter (w.slots.map Template.indexCount).sum :=
  Template.flatten_indicesAll w.slots w.counter

theorem length_indices : w.indices.length = (w.slots.map Template.indexCount).sum := by
  rw [w.indices_eq_range, List.length_range']

theorem fillAll_slots :
    Template.fillAll w.place w.call.arguments w.slots w.counter =
      (w.filled, w.counter + w.indices.length) :=
  Template.fillAll_eq_render w.place w.call.arguments w.slots w.counter

theorem expand_call (h : w.call.arguments.length ≤ w.rule.definition.arity) :
    w.call.expand w.rule.definition w.place w.counter =
      .ok (w.text, w.counter + w.indices.length) := by
  have hfill := w.fillAll_slots
  rw [slots] at hfill
  rw [Call.expand, if_neg (Nat.not_lt.mpr h), hfill]
  rfl

/-- The number `k` stands in the line holes of the slots that the call leaves open. -/
def Numbered (k : Nat) : Prop :=
  ∀ (j : Nat) (t s : Text), w.slots[j]? = some t → w.filled[j]? = some s →
    ∃ d : Segments, d.Cuts t ∧ ∃ vs : List Text, vs.length = d.holes.length ∧
      s = d.withValues vs ∧
      ∀ i : Nat, d.holes[i]? = some .line → vs[i]? = some (Text.decimal k)

theorem numbered : w.Numbered w.place.line := by
  intro j t s ht hs
  have hfilled : w.filled =
      (Template.fillAll w.place w.call.arguments w.slots w.counter).1 := by
    rw [w.fillAll_slots]
  rw [hfilled] at hs
  obtain ⟨k, rfl⟩ :=
    Template.getElem?_fillAll w.place w.call.arguments w.slots w.counter j t s ht hs
  obtain ⟨d, hcuts, vs, hlength, hfill, hfits⟩ :=
    Segments.exists_values w.place w.call.arguments t k
  refine ⟨d, hcuts, vs, hlength, congrArg Prod.fst hfill, ?_⟩
  intro i hline
  obtain ⟨hi, -⟩ := List.getElem?_eq_some_iff.mp hline
  have hvs : i < vs.length := hlength ▸ hi
  have hvalue : vs[i]? = some vs[i] := List.getElem?_eq_getElem hvs
  rw [hvalue, hfits i .line _ hline hvalue]

end Rewrite

theorem Call.expand_of_replaceAt (line : Text) (offset : Nat) (name : Text) (d : Definition)
    (place : Place) (n : Nat) (result : Text × Nat)
    (h : replaceAt line offset name d place n = .ok result) :
    ∃ call, parseAt line offset name = .ok call ∧ call.expand d place n = .ok result ∧
      call.arguments.length ≤ d.arity := by
  rw [replaceAt] at h
  cases hparse : parseAt line offset name with
  | error f =>
    rw [hparse] at h
    cases f <;> cases h
  | ok call =>
    rw [hparse, Except.bind] at h
    cases hexpand : call.expand d place n with
    | error f =>
      rw [hexpand] at h
      cases f <;> cases h
    | ok r =>
      rw [hexpand] at h
      obtain rfl := Except.ok.inj h
      refine ⟨call, rfl, hexpand, ?_⟩
      rw [expand] at hexpand
      split_ifs at hexpand with harity
      exact Nat.le_of_not_lt harity

/-- The values are those from `n` on, and the counter stands at `n'` behind them. -/
structure Runs (n : Nat) (values : List Nat) (n' : Nat) : Prop where
  consecutive : values = List.range' n values.length
  counter : n' = n + values.length

theorem Runs.nil (n : Nat) : Runs n [] n := ⟨rfl, rfl⟩

theorem Runs.append {a b c : Nat} {vs ws : List Nat} (h : Runs a vs b) (h' : Runs b ws c) :
    Runs a (vs ++ ws) c where
  consecutive := by
    rw [List.length_append, ← List.range'_append_1, ← h.counter, ← h.consecutive,
      ← h'.consecutive]
  counter := by
    rw [h'.counter, h.counter, List.length_append, Nat.add_assoc]

theorem Rewrite.runs (w : Rewrite) : Runs w.counter w.indices (w.counter + w.indices.length) :=
  ⟨by rw [w.length_indices]; exact w.indices_eq_range, rfl⟩

section Line

variable (style : CommentStyle) (place : Place)

def rewritesOfLine : List Macro → Text → Nat → List Rewrite
  | [], _, _ => []
  | m :: ms, line, n =>
    match Occurrence.find? style m.name line with
    | none => rewritesOfLine ms line n
    | some offset =>
      match Call.parseAt line offset m.name with
      | .error _ => []
      | .ok call =>
        match call.expand m.definition place n with
        | .error _ => []
        | .ok (line', n') => ⟨place, m, call, n⟩ :: rewritesOfLine ms line' n'

/-- The text that a line has when these calls are replaced in it one after the other. -/
def lastText (line : Text) (ws : List Rewrite) : Text := ws.foldl (fun _ w => w.text) line

/-- Calls are replaced in a line in the order of their macros, each in what those before it have
left. A call takes as many values as its open slots have counter holes. -/
structure Replaces (ms : List Macro) (line : Text) (ws : List Rewrite) : Prop where
  rules : (ws.map (·.rule)).Sublist ms
  found : ∀ i w, ws[i]? = some w → ∃ offset,
    Occurrence.find? style w.rule.name (lastText line (ws.take i)) = some offset ∧
      Call.parseAt (lastText line (ws.take i)) offset w.rule.name = .ok w.call
  expanded : ∀ w ∈ ws, w.place = place ∧
    w.call.expand w.rule.definition place w.counter =
      .ok (w.text, w.counter + w.indices.length) ∧
    w.indices.length = (w.slots.map Template.indexCount).sum
  untouched : style.isComment line = true ∨
    (∀ m ∈ ms, Occurrence.find? style m.name line = none) → ws = []

variable {style place}

theorem Replaces.skip {m : Macro} {ms : List Macro} {line : Text} {ws : List Rewrite}
    (h : Replaces style place ms line ws) : Replaces style place (m :: ms) line ws where
  rules := h.rules.cons m
  found := h.found
  expanded := h.expanded
  untouched := by
    rintro (hcomment | hnone)
    · exact h.untouched (Or.inl hcomment)
    · exact h.untouched (Or.inr fun d hd => hnone d (List.mem_cons_of_mem m hd))

theorem Replaces.cons {ms : List Macro} {line : Text} {ws : List Rewrite} {w : Rewrite}
    {offset : Nat} (hfind : Occurrence.find? style w.rule.name line = some offset)
    (hparse : Call.parseAt line offset w.rule.name = .ok w.call) (hplace : w.place = place)
    (harity : w.call.arguments.length ≤ w.rule.definition.arity)
    (h : Replaces style place ms w.text ws) :
    Replaces style place (w.rule :: ms) line (w :: ws) where
  rules := h.rules.cons_cons w.rule
  found := by
    intro i v hv
    cases i with
    | zero =>
      obtain rfl := Option.some.inj hv
      exact ⟨offset, hfind, hparse⟩
    | succ i => exact h.found i v hv
  expanded := by
    refine List.forall_mem_cons.mpr ⟨⟨hplace, ?_, w.length_indices⟩, h.expanded⟩
    rw [← hplace]
    exact w.expand_call harity
  untouched := by
    rintro (hcomment | hnone)
    · rw [Occurrence.find?_of_isComment style w.rule.name line hcomment] at hfind
      cases hfind
    · rw [hnone w.rule List.mem_cons_self] at hfind
      cases hfind

theorem Replaces.numbered {ms : List Macro} {line : Text} {ws : List Rewrite}
    (h : Replaces style place ms line ws) : ∀ w ∈ ws, w.Numbered place.line := by
  intro w hw
  rw [← (h.expanded w hw).1]
  exact w.numbered

variable (style place)

/-- A line comes out as its last replacement leaves it, and the counter has gone through the values
of its replacements. -/
theorem expandLine_rewrites (ms : List Macro) (line line' : Text) (n n' : Nat) (hit : Bool)
    (h : expandLine style place ms line n = ⟨.ok (line', hit), n'⟩) :
    line' = lastText line (rewritesOfLine style place ms line n) ∧
    hit = !(rewritesOfLine style place ms line n).isEmpty ∧
    Runs n ((rewritesOfLine style place ms line n).flatMap Rewrite.indices) n' ∧
    Replaces style place ms line (rewritesOfLine style place ms line n) := by
  induction ms generalizing line n hit with
  | nil =>
    obtain ⟨hok, rfl⟩ := Counted.mk.inj h
    obtain ⟨rfl, rfl⟩ := Prod.mk.inj (Except.ok.inj hok)
    exact ⟨rfl, rfl, Runs.nil n, List.Sublist.slnil, by simp [rewritesOfLine],
      by simp [rewritesOfLine], fun _ => rfl⟩
  | cons m ms ih =>
    rcases expandLine_step style place m ms line line' n n' hit h with
      ⟨hfind, hrest⟩ | ⟨offset, mid, k, more, rfl, hfind, hreplace, hrest⟩
    · obtain ⟨hline, hhit, hruns, hreplaces⟩ := ih line n hit hrest
      simp only [rewritesOfLine, hfind]
      exact ⟨hline, hhit, hruns, hreplaces.skip⟩
    · obtain ⟨call, hparse, hexpand, harity⟩ :=
        Call.expand_of_replaceAt line offset m.name m.definition place n (mid, k) hreplace
      have hcall := Rewrite.expand_call ⟨place, m, call, n⟩ harity
      obtain ⟨rfl, rfl⟩ := Prod.mk.inj (Except.ok.inj (hexpand.symm.trans hcall))
      obtain ⟨hline, -, hruns, hreplaces⟩ := ih _ _ more hrest
      simp only [rewritesOfLine, hfind, hparse, hexpand]
      refine ⟨hline, rfl, (Rewrite.runs ⟨place, m, call, n⟩).append hruns, ?_⟩
      exact Replaces.cons (w := ⟨place, m, call, n⟩) hfind hparse rfl harity hreplaces

end Line

section Source

variable (style : CommentStyle) (file : Path)

def traceLines (ms : List Macro) : Nat → List Line → Nat → List (Line × List Rewrite)
  | _, [], _ => []
  | number, l :: ls, n =>
    (l, rewritesOfLine style ⟨number, file⟩ ms l.body n) ::
      traceLines ms (number + 1) ls (expandLine style ⟨number, file⟩ ms l.body n).counter

def traceSource (source : Text) (n : Nat) : List (Line × List Rewrite) :=
  match MacroTable.ofLines style file ((Line.split source).map (·.body)) with
  | .error _ => []
  | .ok table => traceLines style file table.macros 1 (Line.split source) n

def leftBy (traced : Line × List Rewrite) : Line × Bool :=
  (⟨lastText traced.1.body traced.2, traced.1.terminator⟩, !traced.2.isEmpty)

theorem expandLines_trace (ms : List Macro) (number : Nat) (ls : List Line) (n n' : Nat)
    (done : List (Line × Bool)) (h : expandLines style file ms number ls n = ⟨.ok done, n'⟩) :
    done = (traceLines style file ms number ls n).map leftBy ∧
    Runs n (((traceLines style file ms number ls n).flatMap (·.2)).flatMap Rewrite.indices) n' ∧
    (traceLines style file ms number ls n).map (·.1) = ls ∧
    ∀ i t, (traceLines style file ms number ls n)[i]? = some t →
      Replaces style ⟨number + i, file⟩ ms t.1.body t.2 := by
  induction ls generalizing number n done with
  | nil =>
    obtain ⟨hdone, rfl⟩ := Counted.mk.inj h
    exact ⟨(Except.ok.inj hdone).symm, Runs.nil n, rfl, by simp [traceLines]⟩
  | cons l ls ih =>
    obtain ⟨body, hit, c, rest, rfl, hline, hrest⟩ :=
      expandLines_cons style file ms number l ls n n' done h
    obtain ⟨hbody, hhit, hruns, hreplaces⟩ :=
      expandLine_rewrites style ⟨number, file⟩ ms l.body body n c hit hline
    obtain ⟨hleft, hrunsrest, hlines, hrestlines⟩ := ih (number + 1) c rest hrest
    rw [traceLines, hline, List.flatMap_cons, List.flatMap_append, List.map_cons, ← hleft]
    refine ⟨?_, hruns.append hrunsrest, ?_, ?_⟩
    · rw [leftBy, ← hbody, ← hhit]
    · rw [List.map_cons, hlines]
    · intro i t ht
      cases i with
      | zero =>
        obtain rfl := Option.some.inj ht
        exact hreplaces
      | succ i =>
        have hnext := hrestlines i t ht
        rw [Nat.add_assoc, Nat.add_comm 1] at hnext
        exact hnext

/-- An expanded source is what the replaced calls make of its lines. -/
theorem ofSource_trace (source : Text) (n : Nat) (e : Expanded)
    (h : (Attempt.ofSource style file source n).result.outcome = .ok e) :
    ∃ table, MacroTable.ofLines style file ((Line.split source).map (·.body)) = .ok table ∧
      e.text = Line.join ((traceSource style file source n).map fun t =>
        (leftBy t).1.withTerminator (Line.newline (Line.split source))) ∧
      e.linesHit = (traceSource style file source n).countP (fun t => !t.2.isEmpty) ∧
      Runs n (((traceSource style file source n).flatMap (·.2)).flatMap Rewrite.indices)
        (Attempt.ofSource style file source n).result.counter ∧
      (traceSource style file source n).map (·.1) = Line.split source ∧
      ∀ i t, (traceSource style file source n)[i]? = some t →
        Replaces style ⟨i + 1, file⟩ table.macros t.1.body t.2 := by
  obtain ⟨table, done, htable, hlines, rfl⟩ := Attempt.ofSource_eq_ok style file source n e h
  obtain ⟨hdone, hruns, hsplit, hreplaces⟩ :=
    expandLines_trace style file table.macros 1 (Line.split source) n _ done hlines
  rw [traceSource, htable]
  refine ⟨table, rfl, ?_, ?_, hruns, hsplit, ?_⟩
  · rw [hdone, List.map_map, List.map_map]
    rfl
  · rw [hdone, List.countP_map]
    rfl
  · intro i t ht
    rw [Nat.add_comm]
    exact hreplaces i t ht

/-- A source without a rewritten line takes no value. -/
theorem rewrites_of_unchanged (source : Text) (n : Nat) (e : Expanded)
    (h : (Attempt.ofSource style file source n).result.outcome = .ok e)
    (hsame : e.isChanged = false) :
    (traceSource style file source n).flatMap (·.2) = [] ∧
      (Attempt.ofSource style file source n).result.counter = n := by
  obtain ⟨-, -, -, hhit, hruns, -, -⟩ := ofSource_trace style file source n e h
  have hzero : e.linesHit = 0 := by
    simpa [Expanded.isChanged] using hsame
  have hnone : (traceSource style file source n).flatMap (·.2) = [] := by
    rw [List.flatMap_eq_nil_iff]
    intro t ht
    have hempty := List.countP_eq_zero.mp (hhit.symm.trans hzero) t ht
    simpa using hempty
  refine ⟨hnone, ?_⟩
  rw [hruns.counter, hnone]
  rfl

end Source

end CommentMacros
