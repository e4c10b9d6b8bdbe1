import CommentMacros.Options.Parser
import CommentMacros.Proofs.Utf8

namespace CommentMacros

namespace Options

/-- The value looks like an option: it begins with a dash and goes on. -/
def Dashed (value : Bytes) : Prop := value.head? = some 0x2D ∧ value ≠ [0x2D]

instance (value : Bytes) : Decidable (Dashed value) := inferInstanceAs (Decidable (_ ∧ _))

theorem dashed_iff (value : Bytes) : Dashed value ↔ ∃ b bs, value = 0x2D :: b :: bs := by
  unfold Dashed
  cases value with
  | nil => simp
  | cons a bs => cases bs <;> simp

namespace Reader

variable (r : Reader)

/-- The reader with an option whose value is there but has not been looked at. -/
def hold (o : Opt) (value : Bytes) : Reader := { r with pending := some (o, some value) }

theorem resolve_of_none (h : r.pending = none) : r.resolve = .ok r := by
  rw [resolve, h]

theorem resolve_hold (o : Opt) (value : Bytes) (h : r.pending = none) :
    (r.hold o value).resolve = r.accept o value := by
  have hsame : { r.hold o value with pending := none } = r := by
    unfold hold
    rw [← h]
  change { r.hold o value with pending := none }.accept o value = r.accept o value
  rw [hsame]

theorem pending_accept (r' : Reader) (o : Opt) (value : Bytes) (h : r.accept o value = .ok r') :
    r'.pending = r.pending := by
  unfold accept at h
  cases o with
  | dirs =>
    dsimp only at h
    split_ifs at h
    cases h
    rfl
  | mask =>
    dsimp only at h
    split_ifs at h
    cases hmask : Utf8.decode? value with
    | none => simp [hmask] at h
    | some mask =>
      rw [hmask] at h
      cases h
      rfl
  | opener =>
    dsimp only at h
    split_ifs at h
    cases hopener : Utf8.decode? value with
    | none => simp [hopener] at h
    | some opener =>
      rw [hopener] at h
      cases h
      rfl
  | dryRun =>
    cases h
    rfl
  | log =>
    cases h
    rfl
  | help =>
    cases h
    rfl

theorem pending_resolve (r' : Reader) (h : r.resolve = .ok r') : r'.pending = none := by
  unfold resolve at h
  split at h
  · rename_i hnone
    cases h
    exact hnone
  · cases h
  · exact pending_accept _ r' _ _ h

section Waiting

variable (o : Opt) (h : r.pending = some (o, none))

include h

theorem resolve_waiting : r.resolve = .error (.missingValue o) := by
  rw [resolve, h]

theorem await_waiting (p : Opt) : r.await p = .error (.missingValue o) := by
  rw [await, r.resolve_waiting o h]

theorem attach_waiting (p : Opt) (v : Bytes) : r.attach p v = .error (.missingValue o) := by
  rw [attach, r.resolve_waiting o h]

theorem switch_waiting (p : Opt) : r.switch p = .error (.missingValue o) := by
  rw [switch, r.resolve_waiting o h]

theorem readLong_waiting (body : Bytes) : ∃ e, r.readLong body = .error e := by
  unfold readLong
  dsimp only
  split
  · exact ⟨_, rfl⟩
  · split_ifs
    · exact ⟨_, r.await_waiting o h _⟩
    · exact ⟨_, r.switch_waiting o h _⟩
  · split_ifs
    · exact ⟨_, r.attach_waiting o h _ _⟩
    · exact ⟨_, rfl⟩

theorem readLetters_waiting (b : UInt8) (bs : Bytes) : ∃ e, r.readLetters (b :: bs) = .error e := by
  unfold readLetters
  split
  · exact ⟨_, rfl⟩
  · split_ifs
    · split
      · exact ⟨_, r.await_waiting o h _⟩
      · exact ⟨_, r.attach_waiting o h _ _⟩
      · exact ⟨_, r.attach_waiting o h _ _⟩
    · rw [r.switch_waiting o h]
      exact ⟨_, rfl⟩

/-- While a value is waited for, nothing fits that looks like an option. -/
theorem readArgument_dashed (v : Bytes) (hv : Dashed v) (hdashes : v ≠ [0x2D, 0x2D]) :
    ∃ e, r.readArgument v = .error e := by
  obtain ⟨b, bs, rfl⟩ := (dashed_iff v).mp hv
  unfold readArgument
  split
  · exact r.readLong_waiting o h _
  · exact r.readLetters_waiting o h _ _
  · rename_i hletters
    exact absurd rfl (hletters b bs)

theorem readArgument_value (v : Bytes) (hv : ¬Dashed v) : r.readArgument v = .ok (r.hold o v) := by
  have hplain : r.readArgument v = r.readPlain v := by
    unfold readArgument
    split
    · exact absurd ((dashed_iff _).mpr ⟨_, _, rfl⟩) hv
    · exact absurd ((dashed_iff _).mpr ⟨_, _, rfl⟩) hv
    · rfl
  rw [hplain, readPlain, h]
  rfl

end Waiting

theorem readAll_cons (arg : Bytes) (args : List Bytes) (h : arg ≠ [0x2D, 0x2D]) :
    r.readAll (arg :: args) = (r.readArgument arg).bind fun r => r.readAll args := by
  rw [readAll.eq_def]
  dsimp only
  rw [if_neg h]
  cases r.readArgument arg <;> rfl

theorem accept_mask (v : Text) (h : r.mask = none) :
    r.accept .mask (Utf8.encode v) = .ok { r.use .mask with mask := some v } := by
  rw [accept]
  dsimp only
  rw [h, Utf8.decode?_encode]
  rfl

theorem accept_opener (v : Text) (h : r.opener = none) :
    r.accept .opener (Utf8.encode v) = .ok { r.use .opener with opener := some v } := by
  rw [accept]
  dsimp only
  rw [h, Utf8.decode?_encode]
  rfl

end Reader

end Options

end CommentMacros
