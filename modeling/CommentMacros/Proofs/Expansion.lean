import CommentMacros.Expansion
import CommentMacros.Proofs.Site
import Mathlib.Data.List.Forall2

namespace CommentMacros

def Applies (style : CommentStyle) (place : Place) (m : Macro) (line : Text) (n : Nat)
    (line' : Text) (n' : Nat) : Prop :=
  ∃ s : Site, s.Sharp ∧ style.isComment line = false ∧
    Bounded s.before (s.gap ++ '(' :: (s.list ++ ')' :: s.closing)) ∧
    s.arguments.length ≤ m.definition.arity ∧ line = s.line m.name ∧
    line' = s.replaced m.definition place n ∧ n' = (s.filled m.definition place n).2

theorem Counted.map_eq_ok {α β : Type} (f : α → β) (r : Counted α) (b : β) (n : Nat)
    (h : r.map f = ⟨.ok b, n⟩) : ∃ a, r = ⟨.ok a, n⟩ ∧ f a = b := by
  obtain ⟨outcome, counter⟩ := r
  obtain ⟨houtcome, rfl⟩ := Counted.mk.inj h
  cases outcome with
  | error e => cases houtcome
  | ok a => exact ⟨a, rfl, Except.ok.inj houtcome⟩

theorem Counted.map_eq_error {α β : Type} (f : α → β) (r : Counted α) (e : Failure)
    (h : (r.map f).outcome = .error e) : r.outcome = .error e := by
  obtain ⟨outcome, counter⟩ := r
  cases outcome with
  | error e' => exact congrArg Except.error (Except.error.inj h)
  | ok a => cases h

/-- What can go wrong in a source: a declaration is faulty, or a macro is named in a line and no
argument list follows, or one that is too long. -/
inductive Failure.InSource (file : Path) : Failure → Prop
  | declaration (text : Text) (fault : DefinitionFault) :
      InSource file (.atDeclaration text file (.badDefinition fault))
  | noCall (line : Text) : InSource file (.atLine line file (.notACall line))
  | arity (line name : Text) (supplied declared : Nat) :
      InSource file (.atLine line file (.tooManyArguments name supplied declared))

section Line

variable (style : CommentStyle) (place : Place)

theorem expandLine_step (m : Macro) (ms : List Macro) (line line' : Text) (n n' : Nat)
    (hit : Bool) (h : expandLine style place (m :: ms) line n = ⟨.ok (line', hit), n'⟩) :
    (Occurrence.find? style m.name line = none ∧
      expandLine style place ms line n = ⟨.ok (line', hit), n'⟩) ∨
    ∃ offset mid k more, hit = true ∧ Occurrence.find? style m.name line = some offset ∧
      Call.replaceAt line offset m.name m.definition place n = .ok (mid, k) ∧
      expandLine style place ms mid k = ⟨.ok (line', more), n'⟩ := by
  rw [expandLine] at h
  cases hfind : Occurrence.find? style m.name line with
  | none =>
    rw [hfind] at h
    exact Or.inl ⟨rfl, h⟩
  | some offset =>
    rw [hfind] at h
    dsimp only at h
    cases hreplace : Call.replaceAt line offset m.name m.definition place n with
    | error f =>
      rw [Call.replaceOn_error hreplace] at h
      cases (Counted.mk.inj h).1
    | ok result =>
      obtain ⟨mid, k⟩ := result
      rw [Call.replaceOn_ok hreplace] at h
      obtain ⟨⟨final, more⟩, hrest, hflag⟩ := Counted.map_eq_ok _ _ _ _ h
      obtain ⟨rfl, rfl⟩ := Prod.mk.inj hflag
      exact Or.inr ⟨offset, mid, k, more, rfl, rfl, hreplace, hrest⟩

/-- A macro is passed over or applied. -/
theorem expandLine_cons (m : Macro) (ms : List Macro) (line line' : Text) (n n' : Nat)
    (hit : Bool) (h : expandLine style place (m :: ms) line n = ⟨.ok (line', hit), n'⟩) :
    (Occurrence.find? style m.name line = none ∧
      expandLine style place ms line n = ⟨.ok (line', hit), n'⟩) ∨
    ∃ mid k more, hit = true ∧ Applies style place m line n mid k ∧
      expandLine style place ms mid k = ⟨.ok (line', more), n'⟩ := by
  rcases expandLine_step style place m ms line line' n n' hit h with
    hnone | ⟨offset, mid, k, more, hhit, hfind, hreplace, hrest⟩
  · exact Or.inl hnone
  · obtain ⟨-, hcomment, -⟩ := Occurrence.find?_eq_some style m.name line offset hfind
    obtain ⟨s, hs, hline, -, hbound, harity, hmid, hk⟩ :=
      Call.replaceAt_eq_ok style m.name line offset m.definition place n mid k hfind hreplace
    exact Or.inr ⟨mid, k, more, hhit, ⟨s, hs, hcomment, hbound, harity, hline, hmid, hk⟩, hrest⟩

/-- What every application of a macro keeps holds of the line that comes out. -/
theorem expandLine_invariant (P : Text → Prop) (ms : List Macro) (line line' : Text) (n n' : Nat)
    (hit : Bool)
    (hstep : ∀ m ∈ ms, ∀ a k b l, Applies style place m a k b l → P a → P b)
    (h : expandLine style place ms line n = ⟨.ok (line', hit), n'⟩) (hline : P line) :
    P line' := by
  induction ms generalizing line n hit with
  | nil =>
    obtain ⟨rfl, -⟩ := Prod.mk.inj (Except.ok.inj (Counted.mk.inj h).1)
    exact hline
  | cons m ms ih =>
    have htail : ∀ d ∈ ms, ∀ a k b l, Applies style place d a k b l → P a → P b :=
      fun d hd => hstep d (List.mem_cons_of_mem m hd)
    rcases expandLine_cons style place m ms line line' n n' hit h with
      ⟨-, hrest⟩ | ⟨mid, k, more, -, happly, hrest⟩
    · exact ih line n hit htail hrest hline
    · exact ih mid k more htail hrest
        (hstep m List.mem_cons_self line n mid k happly hline)

theorem expandLine_of_absent (ms : List Macro) (line : Text) (n : Nat)
    (h : ∀ m ∈ ms, Occurrence.find? style m.name line = none) :
    expandLine style place ms line n = ⟨.ok (line, false), n⟩ := by
  induction ms with
  | nil => rfl
  | cons m ms ih =>
    rw [expandLine, h m List.mem_cons_self]
    exact ih (fun d hd => h d (List.mem_cons_of_mem m hd))

theorem unhit_of_absent (ms : List Macro) (line line' : Text) (n n' : Nat) (hit : Bool)
    (habsent : ∀ m ∈ ms, Occurrence.find? style m.name line = none)
    (h : expandLine style place ms line n = ⟨.ok (line', hit), n'⟩) :
    hit = false ∧ line' = line := by
  rw [expandLine_of_absent style place ms line n habsent] at h
  obtain ⟨hline, hhit⟩ := Prod.mk.inj (Except.ok.inj (Counted.mk.inj h).1)
  exact ⟨hhit.symm, hline.symm⟩

theorem absent_of_expandLine (ms : List Macro) (line line' : Text) (n n' : Nat)
    (h : expandLine style place ms line n = ⟨.ok (line', false), n'⟩) :
    line' = line ∧ n' = n ∧ ∀ m ∈ ms, Occurrence.find? style m.name line = none := by
  induction ms with
  | nil =>
    obtain ⟨hok, rfl⟩ := Counted.mk.inj h
    obtain ⟨rfl, -⟩ := Prod.mk.inj (Except.ok.inj hok)
    exact ⟨rfl, rfl, by simp⟩
  | cons m ms ih =>
    rcases expandLine_cons style place m ms line line' n n' false h with
      ⟨hfind, hrest⟩ | ⟨-, -, -, hhit, -⟩
    · obtain ⟨hline, hcounter, habsent⟩ := ih hrest
      exact ⟨hline, hcounter, List.forall_mem_cons.mpr ⟨hfind, habsent⟩⟩
    · cases hhit

theorem le_expandLine (ms : List Macro) (line : Text) (n : Nat) :
    n ≤ (expandLine style place ms line n).counter := by
  induction ms generalizing line n with
  | nil => exact Nat.le_refl n
  | cons m ms ih =>
    rw [expandLine]
    cases Occurrence.find? style m.name line with
    | none => exact ih line n
    | some offset =>
      dsimp only
      cases hreplace : Call.replaceAt line offset m.name m.definition place n with
      | error f =>
        rw [Call.replaceOn_error hreplace]
      | ok result =>
        rw [Call.replaceOn_ok hreplace]
        have hle := Call.le_replaceAt line offset m.name m.definition place n result.1 result.2
          hreplace
        exact Nat.le_trans hle (ih result.1 result.2)

theorem expandLine_eq_error (ms : List Macro) (line : Text) (n : Nat) (f : Failure)
    (h : (expandLine style place ms line n).outcome = .error f) : f.InSource place.file := by
  induction ms generalizing line n with
  | nil => cases h
  | cons m ms ih =>
    rw [expandLine] at h
    cases hfind : Occurrence.find? style m.name line with
    | none =>
      rw [hfind] at h
      exact ih line n h
    | some offset =>
      rw [hfind] at h
      dsimp only at h
      obtain ⟨-, -, before, rest, rfl, rfl, -⟩ :=
        Occurrence.find?_eq_some style m.name line offset hfind
      cases hreplace : Call.replaceAt (before ++ m.name ++ rest) before.byteLength m.name
          m.definition place n with
      | error g =>
        rw [Call.replaceOn_error hreplace] at h
        obtain rfl := Except.error.inj h
        rcases Call.replaceAt_eq_error before m.name rest m.definition place n g hreplace with
          rfl | ⟨supplied, rfl⟩
        · exact .noCall _
        · exact .arity _ _ supplied _
      | ok result =>
        rw [Call.replaceOn_ok hreplace] at h
        exact ih result.1 result.2 (Counted.map_eq_error _ _ f h)

end Line

section Source

variable (style : CommentStyle) (file : Path)

theorem expandLines_cons (ms : List Macro) (number : Nat) (l : Line) (ls : List Line) (n n' : Nat)
    (done : List (Line × Bool))
    (h : expandLines style file ms number (l :: ls) n = ⟨.ok done, n'⟩) :
    ∃ body hit c rest, done = (⟨body, l.terminator⟩, hit) :: rest ∧
      expandLine style ⟨number, file⟩ ms l.body n = ⟨.ok (body, hit), c⟩ ∧
      expandLines style file ms (number + 1) ls c = ⟨.ok rest, n'⟩ := by
  rw [expandLines] at h
  rcases hline : expandLine style ⟨number, file⟩ ms l.body n with ⟨⟨f⟩ | ⟨body, hit⟩, c⟩
  · rw [hline] at h
    cases (Counted.mk.inj h).1
  · rw [hline] at h
    obtain ⟨rest, hrest, hdone⟩ := Counted.map_eq_ok _ _ _ _ h
    exact ⟨body, hit, c, rest, hdone.symm, rfl, hrest⟩

theorem le_expandLines (ms : List Macro) (number : Nat) (ls : List Line) (n : Nat) :
    n ≤ (expandLines style file ms number ls n).counter := by
  induction ls generalizing number n with
  | nil => exact Nat.le_refl n
  | cons l ls ih =>
    have hle := le_expandLine style ⟨number, file⟩ ms l.body n
    rw [expandLines]
    rcases hline : expandLine style ⟨number, file⟩ ms l.body n with ⟨⟨f⟩ | ⟨body, hit⟩, k⟩
    · rw [hline] at hle
      exact hle
    · rw [hline] at hle
      exact Nat.le_trans hle (ih (number + 1) k)

theorem expandLines_eq_error (ms : List Macro) (number : Nat) (ls : List Line) (n : Nat)
    (f : Failure) (h : (expandLines style file ms number ls n).outcome = .error f) :
    f.InSource file := by
  induction ls generalizing number n with
  | nil => cases h
  | cons l ls ih =>
    rw [expandLines] at h
    rcases hline : expandLine style ⟨number, file⟩ ms l.body n with ⟨⟨g⟩ | ⟨body, hit⟩, k⟩
    · rw [hline] at h
      apply expandLine_eq_error style ⟨number, file⟩ ms l.body n f
      rw [hline]
      exact congrArg Except.error (Except.error.inj h)
    · rw [hline] at h
      exact ih (number + 1) k (Counted.map_eq_error _ _ f h)

theorem expandLines_getElem? (ms : List Macro) (number : Nat) (ls : List Line) (n n' : Nat)
    (done : List (Line × Bool))
    (h : expandLines style file ms number ls n = ⟨.ok done, n'⟩) :
    done.length = ls.length ∧ ∀ i l, ls[i]? = some l → ∃ body hit c c',
      done[i]? = some (⟨body, l.terminator⟩, hit) ∧
      expandLine style ⟨number + i, file⟩ ms l.body c = ⟨.ok (body, hit), c'⟩ := by
  induction ls generalizing number n done with
  | nil =>
    obtain rfl := Except.ok.inj (Counted.mk.inj h).1
    exact ⟨rfl, by simp⟩
  | cons l ls ih =>
    obtain ⟨body, hit, c, rest, rfl, hline, hrest⟩ :=
      expandLines_cons style file ms number l ls n n' done h
    obtain ⟨hlength, hget⟩ := ih (number + 1) c rest hrest
    refine ⟨by simp [hlength], ?_⟩
    intro i l' hl'
    cases i with
    | zero =>
      obtain rfl : l = l' := by simpa using hl'
      exact ⟨body, hit, n, c, by simp, hline⟩
    | succ i =>
      obtain ⟨body', hit', k, k', hdone, hexpand⟩ := hget i l' (by simpa using hl')
      rw [Nat.add_assoc, Nat.add_comm 1 i] at hexpand
      exact ⟨body', hit', k, k', by simpa using hdone, hexpand⟩

/-- What holds of every line and its expansion holds of the lines in step. -/
theorem expandLines_forall₂ (R : Line → Line × Bool → Prop) (ms : List Macro) (number : Nat)
    (ls : List Line) (n n' : Nat) (done : List (Line × Bool))
    (hline : ∀ l ∈ ls, ∀ place c body hit c', place.file = file →
      expandLine style place ms l.body c = ⟨.ok (body, hit), c'⟩ →
      R l (⟨body, l.terminator⟩, hit))
    (h : expandLines style file ms number ls n = ⟨.ok done, n'⟩) : List.Forall₂ R ls done := by
  obtain ⟨hlength, hget⟩ := expandLines_getElem? style file ms number ls n n' done h
  apply List.forall₂_iff_get.mpr
  refine ⟨hlength.symm, ?_⟩
  intro i hi hi'
  obtain ⟨body, hit, c, c', hdone, hexpand⟩ := hget i ls[i] (List.getElem?_eq_getElem hi)
  have hd : done.get ⟨i, hi'⟩ = (⟨body, ls[i].terminator⟩, hit) := by
    rw [List.getElem?_eq_getElem hi'] at hdone
    exact Option.some.inj hdone
  rw [hd]
  exact hline ls[i] (List.getElem_mem hi) _ c body hit c' rfl hexpand

theorem expandLines_of_absent (ms : List Macro) (number : Nat) (ls : List Line) (n : Nat)
    (h : ∀ l ∈ ls, ∀ m ∈ ms, Occurrence.find? style m.name l.body = none) :
    expandLines style file ms number ls n = ⟨.ok (ls.map fun l => (l, false)), n⟩ := by
  induction ls generalizing number with
  | nil => rfl
  | cons l ls ih =>
    rw [expandLines, expandLine_of_absent style _ ms l.body n (h l List.mem_cons_self)]
    dsimp only
    rw [ih (number + 1) (fun d hd => h d (List.mem_cons_of_mem l hd))]
    rfl

/-- A source that is expanded was read, and all its lines were expanded. -/
theorem Attempt.ofSource_eq_ok (source : Text) (n : Nat) (e : Expanded)
    (h : (Attempt.ofSource style file source n).result.outcome = .ok e) :
    ∃ table done,
      MacroTable.ofLines style file ((Line.split source).map (·.body)) = .ok table ∧
      expandLines style file table.macros 1 (Line.split source) n =
        ⟨.ok done, (Attempt.ofSource style file source n).result.counter⟩ ∧
      e = ⟨Line.join ((done.map (·.1)).map
          (Line.withTerminator (Line.newline (Line.split source)))),
        done.countP (·.2), table.names⟩ := by
  unfold Attempt.ofSource at h ⊢
  dsimp only at h ⊢
  cases htable : MacroTable.ofLines style file ((Line.split source).map (·.body)) with
  | error f =>
    rw [htable] at h
    cases h
  | ok table =>
    rw [htable] at h
    dsimp only at h ⊢
    rcases hlines : expandLines style file table.macros 1 (Line.split source) n with
      ⟨⟨f⟩ | done, c⟩
    · rw [hlines] at h
      cases h
    · rw [hlines] at h
      refine ⟨table, done, rfl, hlines, ?_⟩
      rw [List.map_map]
      exact (Except.ok.inj h).symm

theorem Attempt.ofSource_eq_error (source : Text) (n : Nat) (f : Failure)
    (h : (Attempt.ofSource style file source n).result.outcome = .error f) : f.InSource file := by
  unfold Attempt.ofSource at h
  dsimp only at h
  cases htable : MacroTable.ofLines style file ((Line.split source).map (·.body)) with
  | error g =>
    rw [htable] at h
    obtain rfl := Except.error.inj h
    obtain ⟨text, fault, rfl⟩ := MacroTable.addAll_eq_error file _ _ g htable
    exact .declaration text fault
  | ok table =>
    rw [htable] at h
    exact expandLines_eq_error style file table.macros 1 _ n f (Counted.map_eq_error _ _ f h)

end Source

end CommentMacros
