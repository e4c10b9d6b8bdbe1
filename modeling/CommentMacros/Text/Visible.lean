import CommentMacros.Text.Basic

namespace CommentMacros.Text

/-- How far into a control sequence a reader is. A sequence without or with parameters ends at its
last character, a command at a bell; a message to the device has a head, which ends with a letter,
and a body, which the byte 156 ends. -/
inductive Control where
  | outside
  | escape
  | plain
  | parameters
  | command
  | deviceHead
  | deviceParameters
  | deviceLetter
  | deviceBody
  deriving DecidableEq, Repr

def isSpacing (c : Char) : Bool := c = '\t' || c = '\n' || c = '\x0c' || c = '\r'

/-- Everything but the control characters; those beyond ASCII are not held to be such. -/
def isShown (c : Char) : Bool := isSpacing c || (0x20 ≤ c.toNat && c.toNat != 0x7F)

namespace Control

def showsSpacing : Control → Bool
  | .escape => true
  | .plain => true
  | .parameters => true
  | _ => false

/-- The place behind a character from `' '` to `'~'`, in a sequence that no terminator ends. -/
def behind : Control → Char → Control
  | .escape, c =>
    if c < '0' then .plain
    else if c = '[' then .parameters
    else if c = ']' then .command
    else if c = 'P' then .deviceHead
    else if c = 'X' || c = '^' || c = '_' then .deviceBody
    else .outside
  | .plain, c => if c < '0' then .plain else .outside
  | .parameters, c => if c < '@' then .parameters else .outside
  | .deviceHead, c =>
    if c < '0' then .deviceLetter else if c < '@' then .deviceParameters else .deviceBody
  | .deviceParameters, c =>
    if c < '0' then .deviceLetter else if c < '<' then .deviceParameters else .deviceBody
  | .deviceLetter, c => if c < '0' then .deviceLetter else .deviceBody
  | k, _ => k

end Control

/-- Spacing interrupts a sequence. What follows is then shown as if it stood outside: a control
character resumes the sequence, a character beyond ASCII gives it up. -/
structure ControlReader where
  within : Control
  interrupted : Bool
  deriving DecidableEq, Repr

namespace ControlReader

def start : ControlReader := ⟨.outside, false⟩

/-- Reads a character, and tells whether it is shown. An escape character begins anew wherever it
stands, and the two characters that cancel a sequence do so everywhere. -/
def step (r : ControlReader) (c : Char) : ControlReader × Bool :=
  if c = '\x1b' then (⟨.escape, false⟩, false)
  else if c = '\x18' ∨ c = '\x1a' then (start, false)
  else if r.interrupted then
    if isShown c then (if c.toNat < 0x80 then r else start, true) else (⟨r.within, false⟩, false)
  else
    match r.within with
    | .outside => (start, isShown c)
    | .command => (if c = '\x07' then start else r, false)
    | .deviceBody => (if 0x9C ∈ String.utf8EncodeChar c then start else r, false)
    | k =>
      if isSpacing c then (⟨k, k.showsSpacing⟩, k.showsSpacing)
      else if ' ' ≤ c ∧ c ≤ '~' then (⟨k.behind c, false⟩, false)
      else (r, false)

end ControlReader

def visibleFrom (r : ControlReader) : Text → Text
  | [] => []
  | c :: s =>
    let next := r.step c
    if next.2 then c :: visibleFrom next.1 s else visibleFrom next.1 s

/-- The text without the controls of a terminal: control characters, apart from those that only
leave space, and the sequences that an escape character begins. -/
def visible (s : Text) : Text := visibleFrom .start s

end CommentMacros.Text
