import CommentMacros.Path
import Mathlib.Data.List.Basic
import Mathlib.Tactic.SplitIfs

namespace CommentMacros

namespace Utf8

theorem lead_ascii (b : UInt8) (hb : b < 0x80) : lead b = .whole (Char.ofNat b.toNat) := by
  have h : b.toNat < 0x80 := hb
  simp only [lead, h, if_true]

theorem least_of_lead (b : UInt8) (q : Partial) (h : lead b = .begins q) : 0x80 ≤ q.least := by
  unfold lead at h
  dsimp only at h
  split_ifs at h
  all_goals
    obtain rfl := Lead.begins.inj h
    dsimp only
    decide

/-- What is owed cannot be an ASCII byte. -/
def Awaits (st : Option Partial) : Prop := ∀ p, st = some p → 0x80 ≤ p.least

theorem awaits_none : Awaits none := by
  intro p hp
  cases hp

theorem awaits_lead (b : UInt8) (q : Partial) (h : lead b = .begins q) : Awaits (some q) := by
  intro p hp
  obtain rfl := Option.some.inj hp
  exact least_of_lead b q h

theorem awaits_next (n bits : Nat) : Awaits (some ⟨n, 0x80, 0xBF, bits⟩) := by
  intro p hp
  obtain rfl := Option.some.inj hp
  exact UInt8.le_refl _

section Scan

variable (p q : Partial) (b : UInt8) (bs : Bytes)

theorem scan_whole (c : Char) (h : lead b = .whole c) :
    scan none (b :: bs) = some c :: scan none bs := by
  rw [scan, h]

theorem scan_begins (h : lead b = .begins q) : scan none (b :: bs) = scan (some q) bs := by
  rw [scan, h]

theorem scan_stray (h : lead b = .stray) : scan none (b :: bs) = none :: scan none bs := by
  rw [scan, h]

theorem scan_last (h : p.least ≤ b ∧ b ≤ p.greatest) (howed : p.owed = 0) :
    scan (some p) (b :: bs) = some (Char.ofNat (p.take b)) :: scan none bs := by
  rw [scan, if_pos h, howed]

theorem scan_more (n : Nat) (h : p.least ≤ b ∧ b ≤ p.greatest) (howed : p.owed = n + 1) :
    scan (some p) (b :: bs) = scan (some ⟨n, 0x80, 0xBF, p.take b⟩) bs := by
  rw [scan, if_pos h, howed]

theorem scan_refused (h : ¬(p.least ≤ b ∧ b ≤ p.greatest)) :
    scan (some p) (b :: bs) = none :: scan none (b :: bs) := by
  conv_lhs => rw [scan, if_neg h]
  conv_rhs => rw [scan]

end Scan

/-- Reading breaks at every ASCII byte. -/
theorem scan_append (st : Option Partial) (bs rest : Bytes) (b : UInt8) (hb : b < 0x80)
    (hst : Awaits st) :
    scan st (bs ++ b :: rest) = scan st bs ++ some (Char.ofNat b.toNat) :: scan none rest := by
  induction bs generalizing st with
  | nil =>
    cases st with
    | none => exact scan_whole b rest _ (lead_ascii b hb)
    | some p =>
      have hlow : ¬(p.least ≤ b ∧ b ≤ p.greatest) := by
        rintro ⟨hle, -⟩
        exact UInt8.not_lt.mpr (UInt8.le_trans (hst p rfl) hle) hb
      rw [List.nil_append, scan_refused p b rest hlow, scan_whole b rest _ (lead_ascii b hb)]
      rfl
  | cons a bs ih =>
    have hfirst : scan none (a :: (bs ++ b :: rest)) =
        scan none (a :: bs) ++ some (Char.ofNat b.toNat) :: scan none rest := by
      cases hlead : lead a with
      | whole c => rw [scan_whole a _ c hlead, scan_whole a _ c hlead, ih none awaits_none,
          List.cons_append]
      | begins q => rw [scan_begins q a _ hlead, scan_begins q a _ hlead,
          ih (some q) (awaits_lead a q hlead)]
      | stray => rw [scan_stray a _ hlead, scan_stray a _ hlead, ih none awaits_none,
          List.cons_append]
    rw [List.cons_append]
    cases st with
    | none => exact hfirst
    | some p =>
      by_cases hin : p.least ≤ a ∧ a ≤ p.greatest
      · cases howed : p.owed with
        | zero => rw [scan_last p a _ hin howed, scan_last p a _ hin howed, ih none awaits_none,
            List.cons_append]
        | succ n => rw [scan_more p a _ n hin howed, scan_more p a _ n hin howed,
            ih _ (awaits_next n _)]
      · rw [scan_refused p a _ hin, scan_refused p a _ hin, hfirst, List.cons_append]

theorem lossy_append (bs rest : Bytes) (b : UInt8) (hb : b < 0x80) :
    lossy (bs ++ b :: rest) = lossy bs ++ Char.ofNat b.toNat :: lossy rest := by
  simp only [lossy, scan_append none bs rest b hb awaits_none, List.map_append, List.map_cons,
    Option.getD_some]

end Utf8

namespace Path

theorem display_append (p q : Path) : display (p ++ slash :: q) = display p ++ '/' :: display q :=
  Utf8.lossy_append p q slash (by decide)

theorem display_intercalate (names : List Bytes) (name : Bytes) (h : name ∈ names) :
    display name <:+: display ([slash].intercalate names) := by
  induction names with
  | nil => simp at h
  | cons first names ih =>
    cases names with
    | nil =>
      obtain rfl := List.mem_singleton.mp h
      simp
    | cons second names =>
      rw [List.intercalate_cons_cons, List.append_assoc, List.singleton_append, display_append]
      rcases List.mem_cons.mp h with rfl | h
      · exact (List.prefix_append _ _).isInfix
      · exact (ih h).trans ⟨display first ++ ['/'], [], by simp⟩

/-- The name of a file is shown as it is in the path. -/
theorem display_fileName (p : Path) (name : Bytes) (h : p.fileName? = some name) :
    display name <:+: display p := by
  unfold fileName? at h
  obtain ⟨hlast, -⟩ := Option.filter_eq_some_iff.mp h
  have hstep : name ∈ p.steps := List.mem_of_getLast? hlast
  have hname : name ∈ p.splitOn slash := (List.mem_filter.mp hstep).1
  have hinfix := display_intercalate (p.splitOn slash) name hname
  rwa [List.intercalate_splitOn] at hinfix

end Path

end CommentMacros
