import CommentMacros.Text.Lines
import Mathlib.Data.List.Basic
import Mathlib.Tactic.SplitIfs

namespace CommentMacros

theorem exists_mem_of_forall₂ {α β : Type} {R : α → β → Prop} {as : List α} {bs : List β}
    (h : List.Forall₂ R as bs) {a : α} (ha : a ∈ as) : ∃ b ∈ bs, R a b := by
  induction h with
  | nil => simp at ha
  | @cons c d as bs hcd _ ih =>
    rcases List.mem_cons.mp ha with rfl | ha
    · exact ⟨d, List.mem_cons_self, hcd⟩
    · obtain ⟨b, hb, hab⟩ := ih ha
      exact ⟨b, List.mem_cons_of_mem d hb, hab⟩

namespace Line

/-- A sequence of lines as a source is cut into: line feeds occur in terminators only, a carriage
return right before a line feed belongs to the terminator, and a line without terminator is the
last one and not empty. -/
def Proper : List Line → Prop
  | [] => True
  | l :: ls =>
    '\n' ∉ l.body ∧ (l.terminator = .lf → l.body.getLast? ≠ some '\r') ∧
      (l.terminator = .missing → l.body ≠ [] ∧ ls = []) ∧ Proper ls

theorem push_proper (c : Char) (ls : List Line) (h : Proper ls) : Proper (push c ls) := by
  unfold push
  split_ifs with hc
  · exact ⟨by simp, by simp, by simp, h⟩
  · cases ls with
    | nil => exact ⟨by simp [Ne.symm hc], by simp, by simp, trivial⟩
    | cons l rest =>
      obtain ⟨hfeed, hreturn, hmissing, hrest⟩ := h
      dsimp only
      by_cases hjoin : c = '\r' ∧ l.body = [] ∧ l.terminator = .lf
      · rw [if_pos hjoin]
        exact ⟨by simp, by simp, by simp, hrest⟩
      · rw [if_neg hjoin]
        refine ⟨by simp [Ne.symm hc, hfeed], ?_, ?_, hrest⟩
        · intro hlf
          cases hb : l.body with
          | nil =>
            intro hlast
            have hr : c = '\r' := by simpa using hlast
            exact hjoin ⟨hr, hb, hlf⟩
          | cons d ds =>
            have hkeep := hreturn hlf
            rw [hb] at hkeep
            simpa using hkeep
        · intro hm
          exact ⟨by simp, (hmissing hm).2⟩

theorem split_proper (source : Text) : Proper (split source) := by
  induction source with
  | nil => trivial
  | cons c s ih => exact push_proper c (split s) ih

theorem split_append (s t : Text) : split (s ++ t) = s.foldr push (split t) :=
  List.foldr_append

/-- Characters other than line feeds go in front of the first line, unless a carriage return
meets a bare line feed. -/
theorem foldr_push (body rest : Text) (t : Terminator) (ls : List Line) (hfeed : '\n' ∉ body)
    (hreturn : rest = [] → t = .lf → body.getLast? ≠ some '\r') :
    body.foldr push (⟨rest, t⟩ :: ls) = ⟨body ++ rest, t⟩ :: ls := by
  induction body with
  | nil => rfl
  | cons c body ih =>
    simp only [List.mem_cons, not_or] at hfeed
    have htail : rest = [] → t = .lf → body.getLast? ≠ some '\r' := by
      intro hr ht
      have h := hreturn hr ht
      cases body with
      | nil => simp
      | cons d ds => simpa using h
    have hjoin : ¬(c = '\r' ∧ body ++ rest = [] ∧ t = .lf) := by
      rintro ⟨rfl, hnil, ht⟩
      obtain ⟨rfl, hr⟩ := List.append_eq_nil_iff.mp hnil
      exact hreturn hr ht (by simp)
    rw [List.foldr_cons, ih hfeed.2 htail, push, if_neg (Ne.symm hfeed.1)]
    simp only [hjoin, if_false, List.cons_append]

/-- Joined lines are cut where they were joined. -/
theorem split_join (ls : List Line) (h : Proper ls) : split (join ls) = ls := by
  induction ls with
  | nil => rfl
  | cons l ls ih =>
    obtain ⟨hfeed, hreturn, hmissing, hls⟩ := h
    have hcut : split (join (l :: ls)) =
        l.body.foldr push (split (l.terminator.text ++ join ls)) := by
      rw [← split_append, ← List.append_assoc]
      rfl
    rw [hcut, split_append, ih hls]
    obtain ⟨body, t⟩ := l
    cases t with
    | lf =>
      change body.foldr push (⟨[], .lf⟩ :: ls) = _
      rw [foldr_push body [] .lf ls hfeed (fun _ => hreturn), List.append_nil]
    | crlf =>
      change body.foldr push (⟨[], .crlf⟩ :: ls) = _
      rw [foldr_push body [] .crlf ls hfeed (by simp), List.append_nil]
    | missing =>
      obtain ⟨hne, rfl⟩ := hmissing rfl
      obtain ⟨init, last, rfl⟩ := (List.eq_nil_or_concat' body).resolve_left hne
      have hlast : last ≠ '\n' := by
        rintro rfl
        simp at hfeed
      have hinit : '\n' ∉ init := fun hm => hfeed (by simp [hm])
      change (init ++ [last]).foldr push [] = _
      rw [List.foldr_append, List.foldr_cons, List.foldr_nil, push, if_neg hlast,
        foldr_push init [last] .missing [] hinit (by simp)]

theorem Proper.of_mem {ls : List Line} (h : Proper ls) {l : Line} (hl : l ∈ ls) :
    '\n' ∉ l.body ∧ (l.terminator = .missing → l.body ≠ []) := by
  induction ls with
  | nil => simp at hl
  | cons d ls ih =>
    obtain ⟨hfeed, -, hmissing, hls⟩ := h
    rcases List.mem_cons.mp hl with rfl | hl
    · exact ⟨hfeed, fun hm => (hmissing hm).1⟩
    · exact ih hls hl

theorem getLast?_join (ls : List Line) (h : Proper ls) :
    (join ls).getLast? = some '\n' ↔ ∃ l, ls.getLast? = some l ∧ l.terminator ≠ .missing := by
  rcases List.eq_nil_or_concat' ls with rfl | ⟨init, l, rfl⟩
  · simp [join]
  · obtain ⟨hfeed, hmissing⟩ := h.of_mem (show l ∈ init ++ [l] by simp)
    have hjoin : join (init ++ [l]) = (join init ++ l.body) ++ l.terminator.text := by
      simp [join, text]
    rw [hjoin]
    cases ht : l.terminator with
    | lf => simp [Terminator.text, ht]
    | crlf => simp [Terminator.text, ht]
    | missing =>
      have hne := hmissing ht
      have hlast : (join init ++ l.body).getLast? = l.body.getLast? := by
        rw [List.getLast?_append, Option.or_of_isSome (by simpa using hne)]
      have hbody : l.body.getLast? ≠ some '\n' := fun hn => hfeed (List.mem_of_getLast? hn)
      simp [Terminator.text, ht, hlast, hbody]

/-- What may change of a line without touching its neighbours. -/
structure Keeps (l l' : Line) : Prop where
  terminator : l'.terminator = l.terminator
  last : l'.body.getLast? = l.body.getLast?
  feed : '\n' ∉ l'.body

theorem newline_eq_crlf_iff (ls : List Line) :
    newline ls = .crlf ↔ ∃ l ∈ ls, l.terminator = .crlf := by
  unfold newline
  split_ifs with h
  · simpa using h
  · simpa using h

theorem newline_eq_lf (ls : List Line) (h : newline ls ≠ .crlf) : newline ls = .lf := by
  unfold newline at h ⊢
  split_ifs at h ⊢ with hc
  · exact absurd rfl h
  · rfl

theorem newline_ne_missing (ls : List Line) : newline ls ≠ .missing := by
  unfold newline
  split_ifs <;> simp

theorem withTerminator_body (t : Terminator) (l : Line) : (l.withTerminator t).body = l.body := by
  unfold withTerminator
  split_ifs <;> rfl

theorem map_body_withTerminator (t : Terminator) (ls : List Line) :
    (ls.map (withTerminator t)).map (·.body) = ls.map (·.body) := by
  rw [List.map_map]
  exact List.map_congr_left fun l _ => withTerminator_body t l

theorem withTerminator_terminator (t : Terminator) (l : Line) :
    (l.withTerminator t).terminator = if l.terminator = .missing then .missing else t := by
  unfold withTerminator
  split_ifs with h
  · exact h
  · rfl

theorem withTerminator_twice (t : Terminator) (l : Line) :
    (l.withTerminator t).withTerminator t = l.withTerminator t := by
  unfold withTerminator
  split_ifs <;> simp_all

/-- Changed lines with one terminator for all are again lines of a source. -/
theorem withTerminator_proper (t : Terminator) (ls ls' : List Line) (h : Proper ls)
    (ht : t ≠ .missing) (hlf : t = .lf → ∀ l ∈ ls, l.terminator ≠ .crlf)
    (hkeep : List.Forall₂ Keeps ls ls') : Proper (ls'.map (withTerminator t)) := by
  induction hkeep with
  | nil => trivial
  | @cons l l' ls ls' hl hls ih =>
    obtain ⟨-, hreturn, hmissing, hrest⟩ := h
    refine ⟨?_, ?_, ?_, ih hrest (fun he d hd => hlf he d (List.mem_cons_of_mem l hd))⟩
    · rw [withTerminator_body]
      exact hl.feed
    · rw [withTerminator_body, withTerminator_terminator, hl.terminator, hl.last]
      intro he
      split_ifs at he with hm
      have hne := hlf he l List.mem_cons_self
      apply hreturn
      cases hterm : l.terminator with
      | lf => rfl
      | crlf => exact absurd hterm hne
      | missing => exact absurd hterm hm
    · rw [withTerminator_body, withTerminator_terminator, hl.terminator]
      intro he
      split_ifs at he with hm
      · obtain ⟨hne, rfl⟩ := hmissing hm
        have hnil : ls' = [] := by cases hls; rfl
        refine ⟨?_, by rw [hnil]; rfl⟩
        intro hempty
        have hlast := hl.last
        rw [hempty, List.getLast?_nil] at hlast
        exact hne (List.getLast?_eq_none_iff.mp hlast.symm)
      · exact absurd he ht

theorem newline_proper (ls ls' : List Line) (h : Proper ls) (hkeep : List.Forall₂ Keeps ls ls') :
    Proper (ls'.map (withTerminator (newline ls))) := by
  apply withTerminator_proper (newline ls) ls ls' h (newline_ne_missing ls) _ hkeep
  intro hlf l hl hcrlf
  have hc := (newline_eq_crlf_iff ls).mpr ⟨l, hl, hcrlf⟩
  rw [hlf] at hc
  cases hc

theorem newline_withTerminator (ls ls' : List Line) (hkeep : List.Forall₂ Keeps ls ls') :
    newline (ls'.map (withTerminator (newline ls))) = newline ls := by
  by_cases hcrlf : newline ls = .crlf
  · obtain ⟨l, hl, ht⟩ := (newline_eq_crlf_iff ls).mp hcrlf
    obtain ⟨l', hl', hk⟩ := exists_mem_of_forall₂ hkeep hl
    rw [hcrlf]
    apply (newline_eq_crlf_iff _).mpr
    refine ⟨_, List.mem_map_of_mem hl', ?_⟩
    rw [withTerminator_terminator, hk.terminator, ht]
    rfl
  · have hlf := newline_eq_lf ls hcrlf
    rw [hlf]
    apply newline_eq_lf
    intro hc
    obtain ⟨d, hd, ht⟩ := (newline_eq_crlf_iff _).mp hc
    obtain ⟨l', -, rfl⟩ := List.mem_map.mp hd
    rw [withTerminator_terminator] at ht
    split_ifs at ht

theorem terminated_iff (t : Terminator) (ht : t ≠ .missing) (ls ls' : List Line)
    (hkeep : List.Forall₂ Keeps ls ls') :
    (∃ l, (ls'.map (withTerminator t)).getLast? = some l ∧ l.terminator ≠ .missing) ↔
      ∃ l, ls.getLast? = some l ∧ l.terminator ≠ .missing := by
  induction hkeep with
  | nil => simp
  | @cons l l' ls ls' hl hls ih =>
    cases hls with
    | nil =>
      have hterm : (l'.withTerminator t).terminator ≠ .missing ↔ l.terminator ≠ .missing := by
        rw [withTerminator_terminator, hl.terminator]
        split_ifs with hm
        · simp [hm]
        · simp [ht, hm]
      simpa using hterm
    | cons hd hds => simpa only [List.map_cons, List.getLast?_cons_cons] using ih

end Line

end CommentMacros
