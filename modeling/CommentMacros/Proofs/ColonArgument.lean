import CommentMacros.Options.Parser
import CommentMacros.Proofs.Utf8

namespace CommentMacros

namespace Options

/-- An argument `-d:value`, `-f:value` or `-c:value`. Directories may be any bytes. -/
inductive ColonArgument where
  | dirs (value : Bytes)
  | mask (value : Text)
  | opener (value : Text)
  deriving DecidableEq, Repr

namespace ColonArgument

def opt : ColonArgument → Opt
  | dirs _ => .dirs
  | mask _ => .mask
  | opener _ => .opener

def value : ColonArgument → Bytes
  | dirs v => v
  | mask v => Utf8.encode v
  | opener v => Utf8.encode v

def spelled (a : ColonArgument) : Bytes := Utf8.encode ['-', a.opt.letter, ':'] ++ a.value

def pieces : ColonArgument → List Path
  | dirs v => v.splitOn 0x2C
  | _ => []

def mask? : ColonArgument → Option Text
  | mask v => some v
  | _ => none

def opener? : ColonArgument → Option Text
  | opener v => some v
  | _ => none

def IsText (a : ColonArgument) : Prop := (Utf8.decode? a.value).isSome

instance (a : ColonArgument) : Decidable a.IsText := inferInstanceAs (Decidable (_ = true))

/-- The argument whose value is what arrives. -/
def arriving (a : ColonArgument) : ColonArgument :=
  if a.IsText then a else .dirs (0x3A :: a.value)

end ColonArgument

/-- A command line of such arguments behind the name of the program, with one mask and one opener at
most and a name for every directory. -/
structure ColonLine (program : Bytes) (items : List ColonArgument) : Prop where
  program : 0x3A ∉ program
  mask : (items.filterMap ColonArgument.mask?).length ≤ 1
  opener : (items.filterMap ColonArgument.opener?).length ≤ 1
  dirs : ∀ a ∈ items, [] ∉ a.pieces

def verbatim (items : List ColonArgument) : Options where
  dirs := items.flatMap ColonArgument.pieces
  mask := (items.filterMap ColonArgument.mask?).head?.getD "*".toList
  opener := (items.filterMap ColonArgument.opener?).head?.getD "//".toList
  dryRun := false
  log := false

namespace ColonArgument

variable (a : ColonArgument)

theorem eq_dirs_of_not_isText (h : ¬a.IsText) : a = .dirs a.value := by
  unfold IsText at h
  cases a with
  | dirs v => rfl
  | mask v => simp [value, Utf8.decode?_encode] at h
  | opener v => simp [value, Utf8.decode?_encode] at h

theorem decode?_spelled :
    Utf8.decode? a.spelled =
      (Utf8.decode? a.value).map fun t => '-' :: a.opt.letter :: ':' :: t := by
  have hbytes (b : UInt8) (hb : b < 0x80) :
      Utf8.decode? (0x2D :: b :: 0x3A :: a.value) =
        (Utf8.decode? a.value).map fun t => '-' :: Char.ofNat b.toNat :: ':' :: t := by
    rw [Utf8.decode?_ascii 0x2D _ (by decide), Utf8.decode?_ascii b _ hb,
      Utf8.decode?_ascii 0x3A _ (by decide), Option.map_map, Option.map_map]
    rfl
  cases a with
  | dirs v => exact hbytes 0x64 (by decide)
  | mask v => exact hbytes 0x66 (by decide)
  | opener v => exact hbytes 0x63 (by decide)

theorem isAlpha_letter : a.opt.letter.isAlpha = true := by
  cases a <;> rfl

theorem splitColon_of_isText (h : a.IsText) :
    splitColon a.spelled = [Utf8.encode ['-', a.opt.letter], a.value] := by
  obtain ⟨t, ht⟩ := Option.isSome_iff_exists.mp h
  have hvalue := (Utf8.decode?_eq_some_iff a.value t).mp ht
  rw [splitColon, a.decode?_spelled, ht, Option.map_some]
  simp only
  rw [if_pos a.isAlpha_letter, hvalue]

theorem splitColon_of_not_isText (h : ¬a.IsText) : splitColon a.spelled = [a.spelled] := by
  have hnone : Utf8.decode? a.value = none := Option.not_isSome_iff_eq_none.mp h
  rw [splitColon, a.decode?_spelled, hnone]
  rfl

theorem pieces_colon (v : Bytes) :
    (dirs (0x3A :: v)).pieces = (dirs v).pieces.modifyHead (0x3A :: ·) := by
  simp [pieces, List.splitOn_eq_splitOnP, List.splitOnP_cons_eq_if_modifyHead]

theorem exists_pieces_dirs (v : Bytes) : ∃ first rest, (dirs v).pieces = first :: rest :=
  List.exists_cons_of_ne_nil (List.splitOn_ne_nil 0x2C v)

/-- What is not text gains a colon, and so does the first of its directories. -/
theorem pieces_arriving_of_not_isText (h : ¬a.IsText) :
    ∃ first rest, a.pieces = first :: rest ∧ a.arriving.pieces = (0x3A :: first) :: rest := by
  have hdirs := a.eq_dirs_of_not_isText h
  obtain ⟨first, rest, hpieces⟩ := exists_pieces_dirs a.value
  refine ⟨first, rest, hdirs ▸ hpieces, ?_⟩
  rw [arriving, if_neg h, pieces_colon, hpieces]
  rfl

theorem length_pieces_arriving : a.arriving.pieces.length = a.pieces.length := by
  by_cases h : a.IsText
  · rw [arriving, if_pos h]
  · obtain ⟨first, rest, hpieces, harriving⟩ := a.pieces_arriving_of_not_isText h
    rw [hpieces, harriving]
    rfl

theorem nil_not_mem_pieces_arriving (hnil : [] ∉ a.pieces) : [] ∉ a.arriving.pieces := by
  by_cases h : a.IsText
  · rw [arriving, if_pos h]
    exact hnil
  · obtain ⟨first, rest, hpieces, harriving⟩ := a.pieces_arriving_of_not_isText h
    rw [hpieces] at hnil
    rw [harriving]
    simpa using fun hrest => hnil (List.mem_cons_of_mem first hrest)

theorem isText_of_pieces_arriving (heq : a.arriving.pieces = a.pieces) : a.IsText := by
  by_contra h
  obtain ⟨first, rest, hpieces, harriving⟩ := a.pieces_arriving_of_not_isText h
  rw [hpieces, harriving] at heq
  have hlength := congrArg List.length (List.cons.inj heq).1
  simp at hlength

theorem mask?_arriving : a.arriving.mask? = a.mask? := by
  by_cases h : a.IsText
  · rw [arriving, if_pos h]
  · rw [arriving, if_neg h, a.eq_dirs_of_not_isText h]
    rfl

theorem opener?_arriving : a.arriving.opener? = a.opener? := by
  by_cases h : a.IsText
  · rw [arriving, if_pos h]
  · rw [arriving, if_neg h, a.eq_dirs_of_not_isText h]
    rfl

theorem filterMap_mask?_arriving (items : List ColonArgument) :
    (items.map arriving).filterMap mask? = items.filterMap mask? := by
  rw [List.filterMap_map]
  exact List.filterMap_congr fun a _ => a.mask?_arriving

theorem filterMap_opener?_arriving (items : List ColonArgument) :
    (items.map arriving).filterMap opener? = items.filterMap opener? := by
  rw [List.filterMap_map]
  exact List.filterMap_congr fun a _ => a.opener?_arriving

theorem isText_of_flatMap_arriving (items : List ColonArgument)
    (h : (items.map arriving).flatMap pieces = items.flatMap pieces) : ∀ a ∈ items, a.IsText := by
  induction items with
  | nil => simp
  | cons a items ih =>
    rw [List.map_cons, List.flatMap_cons, List.flatMap_cons] at h
    obtain ⟨hpieces, hrest⟩ := List.append_inj h a.length_pieces_arriving
    exact List.forall_mem_cons.mpr ⟨a.isText_of_pieces_arriving hpieces, ih hrest⟩

end ColonArgument

theorem splitColon_of_no_colon (arg : Bytes) (h : 0x3A ∉ arg) : splitColon arg = [arg] := by
  unfold splitColon
  split
  · rename_i x value heq
    have harg := (Utf8.decode?_eq_some_iff arg _).mp heq
    refine absurd ?_ h
    rw [harg]
    exact Utf8.mem_encode_of_mem 0x3A ':' _ (by simp) (by decide)
  · rfl

end Options

end CommentMacros
