import CommentMacros.Proofs.Display
import Mathlib.Data.Nat.Basic

namespace CommentMacros.Utf8

def Tail (b : UInt8) : Prop := 0x80 ≤ b.toNat ∧ b.toNat ≤ 0xBF

/-- The bytes of one character and its code point. The bounds on the second byte shut out overlong
forms, surrogates and what lies past the last code point. -/
inductive Spells : Bytes → Nat → Prop where
  | one (a : UInt8) (ha : a.toNat < 0x80) : Spells [a] a.toNat
  | two (a b : UInt8) (ha : 0xC2 ≤ a.toNat ∧ a.toNat < 0xE0) (hb : Tail b) :
      Spells [a, b] ((a.toNat - 0xC0) * 64 + (b.toNat - 0x80))
  | three (a b c : UInt8) (ha : 0xE0 ≤ a.toNat ∧ a.toNat < 0xF0)
      (hb : Tail b ∧ (a.toNat = 0xE0 → 0xA0 ≤ b.toNat) ∧ (a.toNat = 0xED → b.toNat ≤ 0x9F))
      (hc : Tail c) :
      Spells [a, b, c] (((a.toNat - 0xE0) * 64 + (b.toNat - 0x80)) * 64 + (c.toNat - 0x80))
  | four (a b c d : UInt8) (ha : 0xF0 ≤ a.toNat ∧ a.toNat ≤ 0xF4)
      (hb : Tail b ∧ (a.toNat = 0xF0 → 0x90 ≤ b.toNat) ∧ (a.toNat = 0xF4 → b.toNat ≤ 0x8F))
      (hc : Tail c) (hd : Tail d) :
      Spells [a, b, c, d]
        ((((a.toNat - 0xF0) * 64 + (b.toNat - 0x80)) * 64 + (c.toNat - 0x80)) * 64 +
          (d.toNat - 0x80))

section Lead

variable (a : UInt8)

theorem lead_two (ha : 0xC2 ≤ a.toNat ∧ a.toNat < 0xE0) :
    lead a = .begins ⟨0, 0x80, 0xBF, a.toNat - 0xC0⟩ := by
  unfold lead
  dsimp only
  rw [if_neg (by omega), if_neg (by omega), if_pos (by omega)]

theorem between_iff (low high b : UInt8) :
    low ≤ b ∧ b ≤ high ↔ low.toNat ≤ b.toNat ∧ b.toNat ≤ high.toNat := by
  rw [UInt8.le_iff_toNat_le, UInt8.le_iff_toNat_le]

theorem lead_three (ha : 0xE0 ≤ a.toNat ∧ a.toNat < 0xF0) :
    ∃ low high, lead a = .begins ⟨1, low, high, a.toNat - 0xE0⟩ ∧ ∀ b : UInt8,
      low ≤ b ∧ b ≤ high ↔
        Tail b ∧ (a.toNat = 0xE0 → 0xA0 ≤ b.toNat) ∧ (a.toNat = 0xED → b.toNat ≤ 0x9F) := by
  unfold lead Tail
  dsimp only
  rw [if_neg (by omega), if_neg (by omega), if_neg (by omega)]
  by_cases he0 : a.toNat = 0xE0
  · rw [if_pos he0]
    refine ⟨0xA0, 0xBF, rfl, fun b => ?_⟩
    rw [between_iff]
    change 0xA0 ≤ b.toNat ∧ b.toNat ≤ 0xBF ↔ _
    omega
  · rw [if_neg he0]
    by_cases hed : a.toNat = 0xED
    · rw [if_pos hed]
      refine ⟨0x80, 0x9F, rfl, fun b => ?_⟩
      rw [between_iff]
      change 0x80 ≤ b.toNat ∧ b.toNat ≤ 0x9F ↔ _
      omega
    · rw [if_neg hed, if_pos ha.2]
      refine ⟨0x80, 0xBF, rfl, fun b => ?_⟩
      rw [between_iff]
      change 0x80 ≤ b.toNat ∧ b.toNat ≤ 0xBF ↔ _
      omega

theorem lead_four (ha : 0xF0 ≤ a.toNat ∧ a.toNat ≤ 0xF4) :
    ∃ low high, lead a = .begins ⟨2, low, high, a.toNat - 0xF0⟩ ∧ ∀ b : UInt8,
      low ≤ b ∧ b ≤ high ↔
        Tail b ∧ (a.toNat = 0xF0 → 0x90 ≤ b.toNat) ∧ (a.toNat = 0xF4 → b.toNat ≤ 0x8F) := by
  unfold lead Tail
  dsimp only
  rw [if_neg (by omega), if_neg (by omega), if_neg (by omega), if_neg (by omega),
    if_neg (by omega), if_neg (by omega)]
  by_cases hf0 : a.toNat = 0xF0
  · rw [if_pos hf0]
    refine ⟨0x90, 0xBF, rfl, fun b => ?_⟩
    rw [between_iff]
    change 0x90 ≤ b.toNat ∧ b.toNat ≤ 0xBF ↔ _
    omega
  · rw [if_neg hf0]
    by_cases hf4 : a.toNat = 0xF4
    · rw [if_neg (by omega), if_pos hf4]
      refine ⟨0x80, 0x8F, rfl, fun b => ?_⟩
      rw [between_iff]
      change 0x80 ≤ b.toNat ∧ b.toNat ≤ 0x8F ↔ _
      omega
    · rw [if_pos (by omega)]
      refine ⟨0x80, 0xBF, rfl, fun b => ?_⟩
      rw [between_iff]
      change 0x80 ≤ b.toNat ∧ b.toNat ≤ 0xBF ↔ _
      omega

theorem lead_stray (ha : (0x80 ≤ a.toNat ∧ a.toNat < 0xC2) ∨ 0xF4 < a.toNat) :
    lead a = .stray := by
  unfold lead
  dsimp only
  rcases ha with ha | ha
  · rw [if_neg (by omega), if_pos ha.2]
  · rw [if_neg (by omega), if_neg (by omega), if_neg (by omega), if_neg (by omega),
      if_neg (by omega), if_neg (by omega), if_neg (by omega), if_neg (by omega),
      if_neg (by omega)]

end Lead

theorem tail_iff (b : UInt8) : 0x80 ≤ b ∧ b ≤ 0xBF ↔ Tail b :=
  between_iff 0x80 0xBF b

/-- Reading takes the bytes of a character for that character. -/
theorem Spells.scan {front : Bytes} {v : Nat} (h : Spells front v) (rest : Bytes) :
    Utf8.scan none (front ++ rest) = some (Char.ofNat v) :: Utf8.scan none rest := by
  cases h with
  | one a ha => exact scan_whole a rest _ (lead_ascii a ha)
  | two a b ha hb =>
    rw [List.cons_append, List.cons_append, List.nil_append, scan_begins _ a _ (lead_two a ha),
      scan_last _ b rest ((tail_iff b).mpr hb) rfl]
    rfl
  | three a b c ha hb hc =>
    obtain ⟨low, high, hlead, hsecond⟩ := lead_three a ha
    rw [List.cons_append, List.cons_append, List.cons_append, List.nil_append,
      scan_begins _ a _ hlead, scan_more _ b _ 0 ((hsecond b).mpr hb) rfl,
      scan_last _ c rest ((tail_iff c).mpr hc) rfl]
    rfl
  | four a b c d ha hb hc hd =>
    obtain ⟨low, high, hlead, hsecond⟩ := lead_four a ha
    rw [List.cons_append, List.cons_append, List.cons_append, List.cons_append, List.nil_append,
      scan_begins _ a _ hlead, scan_more _ b _ 1 ((hsecond b).mpr hb) rfl,
      scan_more _ c _ 0 ((tail_iff c).mpr hc) rfl, scan_last _ d rest ((tail_iff d).mpr hd) rfl]
    rfl

theorem val_ofNat (v : Nat) (h : v < 0xD800 ∨ 0xDFFF < v ∧ v < 0x110000) :
    (Char.ofNat v).val.toNat = v := by
  have hvalid : v.isValidChar := h
  rw [Char.ofNat, dif_pos hvalid]
  rfl

theorem ofNat_eq (n : Nat) (a : UInt8) (h : n = a.toNat) : UInt8.ofNat n = a := by
  rw [h, UInt8.ofNat_toNat]

theorem Spells.encode {front : Bytes} {v : Nat} (h : Spells front v) :
    String.utf8EncodeChar (Char.ofNat v) = front := by
  unfold String.utf8EncodeChar
  cases h with
  | one a ha =>
    rw [val_ofNat a.toNat (by omega)]
    dsimp only
    rw [if_pos (by omega), UInt8.ofNat_toNat]
  | two a b ha hb =>
    unfold Tail at hb
    rw [val_ofNat _ (by omega)]
    dsimp only
    rw [if_neg (by omega), if_pos (by omega), ofNat_eq _ a (by omega), ofNat_eq _ b (by omega)]
  | three a b c ha hb hc =>
    unfold Tail at hb hc
    rw [val_ofNat _ (by omega)]
    dsimp only
    rw [if_neg (by omega), if_neg (by omega), if_pos (by omega), ofNat_eq _ a (by omega),
      ofNat_eq _ b (by omega), ofNat_eq _ c (by omega)]
  | four a b c d ha hb hc hd =>
    unfold Tail at hb hc hd
    rw [val_ofNat _ (by omega)]
    dsimp only
    rw [if_neg (by omega), if_neg (by omega), if_neg (by omega), ofNat_eq _ a (by omega),
      ofNat_eq _ b (by omega), ofNat_eq _ c (by omega), ofNat_eq _ d (by omega)]

theorem exists_byte (n : Nat) (h : n < 256) : ∃ a : UInt8, a.toNat = n :=
  ⟨UInt8.ofNat n, UInt8.toNat_ofNat_of_lt h⟩

theorem exists_spells (c : Char) : ∃ front, Spells front c.toNat := by
  have hvalid : c.toNat < 0xD800 ∨ 0xDFFF < c.toNat ∧ c.toNat < 0x110000 := c.valid
  generalize c.toNat = v at hvalid
  have tail (n : Nat) : ∃ b : UInt8, Tail b ∧ b.toNat = n % 64 + 0x80 := by
    obtain ⟨b, hb⟩ := exists_byte (n % 64 + 0x80) (by omega)
    exact ⟨b, ⟨by omega, by omega⟩, hb⟩
  obtain ⟨x, hx, hxv⟩ := tail v
  obtain ⟨y, hy, hyv⟩ := tail (v / 64)
  obtain ⟨z, hz, hzv⟩ := tail (v / 4096)
  by_cases hone : v < 0x80
  · obtain ⟨a, rfl⟩ := exists_byte v (by omega)
    exact ⟨[a], .one a hone⟩
  by_cases htwo : v < 0x800
  · obtain ⟨a, ha⟩ := exists_byte (v / 64 + 0xC0) (by omega)
    have hspells := Spells.two a x (by omega) hx
    rw [show (a.toNat - 0xC0) * 64 + (x.toNat - 0x80) = v by omega] at hspells
    exact ⟨_, hspells⟩
  by_cases hthree : v < 0x10000
  · obtain ⟨a, ha⟩ := exists_byte (v / 4096 + 0xE0) (by omega)
    have hspells := Spells.three a y x (by omega) ⟨hy, by omega, by omega⟩ hx
    rw [show ((a.toNat - 0xE0) * 64 + (y.toNat - 0x80)) * 64 + (x.toNat - 0x80) = v by omega]
      at hspells
    exact ⟨_, hspells⟩
  · obtain ⟨a, ha⟩ := exists_byte (v / 262144 + 0xF0) (by omega)
    have hspells := Spells.four a z y x (by omega) ⟨hz, by omega, by omega⟩ hy hx
    rw [show (((a.toNat - 0xF0) * 64 + (z.toNat - 0x80)) * 64 + (y.toNat - 0x80)) * 64 +
      (x.toNat - 0x80) = v by omega] at hspells
    exact ⟨_, hspells⟩

theorem scan_encode (s : Text) : scan none (encode s) = s.map some := by
  induction s with
  | nil => rfl
  | cons c s ih =>
    obtain ⟨front, hspells⟩ := exists_spells c
    have hfront := hspells.encode
    have hscan := hspells.scan (encode s)
    rw [Char.ofNat_toNat] at hfront hscan
    have hcons : encode (c :: s) = front ++ encode s := by
      rw [encode, List.flatMap_cons, hfront]
      rfl
    rw [hcons, hscan, ih, List.map_cons]

theorem scan_owed (p : Partial) (bs : Bytes) (c : Char) (cs : List (Option Char))
    (h : scan (some p) bs = some c :: cs) :
    ∃ b rest, bs = b :: rest ∧ (p.least ≤ b ∧ b ≤ p.greatest) ∧
      (p.owed = 0 → c = Char.ofNat (p.take b) ∧ scan none rest = cs) ∧
      ∀ n, p.owed = n + 1 → scan (some ⟨n, 0x80, 0xBF, p.take b⟩) rest = some c :: cs := by
  cases bs with
  | nil => simp [scan] at h
  | cons b rest =>
    by_cases hin : p.least ≤ b ∧ b ≤ p.greatest
    · refine ⟨b, rest, rfl, hin, ?_, ?_⟩
      · intro howed
        rw [scan_last p b rest hin howed] at h
        obtain ⟨hc, hcs⟩ := List.cons.inj h
        exact ⟨(Option.some.inj hc).symm, hcs⟩
      · intro n howed
        rw [scan_more p b rest n hin howed] at h
        exact h
    · rw [scan_refused p b rest hin] at h
      cases (List.cons.inj h).1

/-- What is read as a character is spelled by the bytes in front. -/
theorem exists_spells_of_scan (bs : Bytes) (c : Char) (cs : List (Option Char))
    (h : scan none bs = some c :: cs) :
    ∃ front rest v, bs = front ++ rest ∧ Spells front v ∧ c = Char.ofNat v ∧
      scan none rest = cs := by
  cases bs with
  | nil => simp [scan] at h
  | cons a bs =>
    by_cases hone : a.toNat < 0x80
    · rw [scan_whole a bs _ (lead_ascii a hone)] at h
      obtain ⟨hc, hcs⟩ := List.cons.inj h
      exact ⟨[a], bs, _, rfl, .one a hone, (Option.some.inj hc).symm, hcs⟩
    by_cases hstray : a.toNat < 0xC2 ∨ 0xF4 < a.toNat
    · rw [scan_stray a bs (lead_stray a (by omega))] at h
      cases (List.cons.inj h).1
    by_cases htwo : a.toNat < 0xE0
    · have ha : 0xC2 ≤ a.toNat ∧ a.toNat < 0xE0 := by omega
      rw [scan_begins _ a bs (lead_two a ha)] at h
      obtain ⟨x, rest, rfl, hx, hlast, -⟩ := scan_owed _ bs c cs h
      obtain ⟨hc, hcs⟩ := hlast rfl
      exact ⟨[a, x], rest, _, rfl, .two a x ha ((tail_iff x).mp hx), hc, hcs⟩
    by_cases hthree : a.toNat < 0xF0
    · have ha : 0xE0 ≤ a.toNat ∧ a.toNat < 0xF0 := by omega
      obtain ⟨low, high, hlead, hsecond⟩ := lead_three a ha
      rw [scan_begins _ a bs hlead] at h
      obtain ⟨x, rest, rfl, hx, -, hmore⟩ := scan_owed _ bs c cs h
      obtain ⟨y, rest, rfl, hy, hlast, -⟩ := scan_owed _ rest c cs (hmore 0 rfl)
      obtain ⟨hc, hcs⟩ := hlast rfl
      exact ⟨[a, x, y], rest, _, rfl, .three a x y ha ((hsecond x).mp hx) ((tail_iff y).mp hy),
        hc, hcs⟩
    · have ha : 0xF0 ≤ a.toNat ∧ a.toNat ≤ 0xF4 := by omega
      obtain ⟨low, high, hlead, hsecond⟩ := lead_four a ha
      rw [scan_begins _ a bs hlead] at h
      obtain ⟨x, rest, rfl, hx, -, hmore⟩ := scan_owed _ bs c cs h
      obtain ⟨y, rest, rfl, hy, -, hmore⟩ := scan_owed _ rest c cs (hmore 1 rfl)
      obtain ⟨z, rest, rfl, hz, hlast, -⟩ := scan_owed _ rest c cs (hmore 0 rfl)
      obtain ⟨hc, hcs⟩ := hlast rfl
      exact ⟨[a, x, y, z], rest, _, rfl, .four a x y z ha ((hsecond x).mp hx)
        ((tail_iff y).mp hy) ((tail_iff z).mp hz), hc, hcs⟩

/-- Nothing is read only where nothing is owed and nothing is there. -/
theorem scan_owed_ne_nil (p : Partial) (bs : Bytes) : scan (some p) bs ≠ [] := by
  induction bs generalizing p with
  | nil => simp [scan]
  | cons b bs ih =>
    by_cases hin : p.least ≤ b ∧ b ≤ p.greatest
    · cases howed : p.owed with
      | zero => simp [scan_last p b bs hin howed]
      | succ n =>
        rw [scan_more p b bs n hin howed]
        exact ih _
    · simp [scan_refused p b bs hin]

theorem scan_ne_nil (a : UInt8) (bs : Bytes) : scan none (a :: bs) ≠ [] := by
  cases hlead : lead a with
  | whole c => simp [scan_whole a bs c hlead]
  | begins q =>
    rw [scan_begins q a bs hlead]
    exact scan_owed_ne_nil q bs
  | stray => simp [scan_stray a bs hlead]

theorem eq_encode_of_scan (bs : Bytes) (s : Text) (h : scan none bs = s.map some) :
    bs = encode s := by
  induction s generalizing bs with
  | nil =>
    cases bs with
    | nil => rfl
    | cons a bs => exact absurd h (scan_ne_nil a bs)
  | cons c s ih =>
    obtain ⟨front, rest, v, rfl, hspells, rfl, hrest⟩ := exists_spells_of_scan bs c _ h
    rw [encode, List.flatMap_cons, hspells.encode, ih rest hrest]
    rfl

theorem decode?_eq_some_iff_scan (bs : Bytes) (s : Text) :
    decode? bs = some s ↔ scan none bs = s.map some := by
  unfold decode?
  generalize scan none bs = l
  induction l generalizing s with
  | nil => cases s <;> simp
  | cons o l ih =>
    cases o with
    | none => cases s <;> simp
    | some c =>
      rw [List.mapM_cons, id, Option.bind_eq_bind, Option.bind_some, Option.bind_eq_bind,
        Option.bind_eq_some_iff]
      cases s with
      | nil => simp
      | cons d s =>
        rw [List.map_cons]
        constructor
        · rintro ⟨t, ht, heq⟩
          obtain ⟨rfl, rfl⟩ := List.cons.inj (Option.some.inj heq)
          rw [(ih t).mp ht]
        · intro heq
          obtain ⟨hc, hl⟩ := List.cons.inj heq
          refine ⟨s, (ih s).mpr hl, ?_⟩
          rw [Option.some.inj hc]
          rfl

/-- Bytes are read as a text exactly if it is written with them. -/
theorem decode?_eq_some_iff (bs : Bytes) (s : Text) : decode? bs = some s ↔ bs = encode s := by
  rw [decode?_eq_some_iff_scan]
  constructor
  · exact eq_encode_of_scan bs s
  · rintro rfl
    exact scan_encode s

theorem decode?_encode (s : Text) : decode? (encode s) = some s :=
  (decode?_eq_some_iff (encode s) s).mpr rfl

theorem decode?_ascii (b : UInt8) (bs : Bytes) (hb : b < 0x80) :
    decode? (b :: bs) = (decode? bs).map (Char.ofNat b.toNat :: ·) := by
  rw [decode?, decode?, scan_whole b bs _ (lead_ascii b hb), List.mapM_cons]
  cases (scan none bs).mapM id <;> rfl

theorem mem_encode_of_mem (b : UInt8) (c : Char) (s : Text) (hc : c ∈ s)
    (hb : b ∈ String.utf8EncodeChar c) : b ∈ encode s :=
  List.mem_flatMap.mpr ⟨c, hc, hb⟩

end CommentMacros.Utf8
