import CommentMacros.Options.UsageError
import CommentMacros.Job

namespace CommentMacros

structure Options where
  dirs : List Path
  mask : Text
  opener : Text
  dryRun : Bool
  log : Bool
  deriving DecidableEq, Repr

namespace Options

def job (o : Options) : Except Failure Job :=
  if o.dirs = [] then .error .noDirectory else .ok ⟨o.dirs, o.mask, ⟨o.opener⟩, o.dryRun⟩

/-- Takes `-x:value` as `-x value` if the argument is UTF-8 and `x` is an ASCII letter. -/
def splitColon (arg : Bytes) : List Bytes :=
  match Utf8.decode? arg with
  | some ('-' :: x :: ':' :: value) =>
    if x.isAlpha then [Utf8.encode ['-', x], Utf8.encode value] else [arg]
  | _ => [arg]

def splitColons (args : List Bytes) : List Bytes := args.flatMap splitColon

/-- The options read so far, with those given in the order of their first use. The last one is
pending if its value is still to come or, where it stands apart, still to be looked at. -/
structure Reader where
  dirs : List Path
  mask : Option Text
  opener : Option Text
  dryRun : Bool
  log : Bool
  used : List Opt
  pending : Option (Opt × Option Bytes)
  deriving DecidableEq, Repr

namespace Reader

def start : Reader := ⟨[], none, none, false, false, [], none⟩

def use (r : Reader) (o : Opt) : Reader := { r with used := o.addTo r.used }

/-- The options that count as given when the next argument is at fault. The pending one counts as
soon as it has a value, whatever the value is; but an option that may be given once and is given
again does not count at all. -/
def given (r : Reader) : List Opt :=
  match r.pending with
  | some (o, some _) => if o ≠ .dirs ∧ o ∈ r.used then r.used.erase o else o.addTo r.used
  | _ => r.used

/-- Gives an option its value. Directories add up and each needs a name; the others are given
once. -/
def accept (r : Reader) (o : Opt) (value : Bytes) : Except UsageError Reader :=
  match o with
  | .dirs =>
    let dirs := value.splitOn 0x2C
    if [] ∈ dirs then .error (.missingValue .dirs)
    else .ok { r.use .dirs with dirs := r.dirs ++ dirs }
  | .mask =>
    if r.mask.isSome then .error (.repeated .mask)
    else
      match Utf8.decode? value with
      | none => .error .notText
      | some mask => .ok { r.use .mask with mask := some mask }
  | .opener =>
    if r.opener.isSome then .error (.repeated .opener)
    else
      match Utf8.decode? value with
      | none => .error .notText
      | some opener => .ok { r.use .opener with opener := some opener }
  | _ => .ok r

def resolve (r : Reader) : Except UsageError Reader :=
  match r.pending with
  | none => .ok r
  | some (o, none) => .error (.missingValue o)
  | some (o, some value) => { r with pending := none }.accept o value

def switch (r : Reader) (o : Opt) : Except UsageError Reader :=
  match r.resolve with
  | .error e => .error e
  | .ok r =>
    match o with
    | .dryRun =>
      if r.dryRun then .error (.repeated .dryRun) else .ok { r.use .dryRun with dryRun := true }
    | .log => if r.log then .error (.repeated .log) else .ok { r.use .log with log := true }
    | _ => .error .helpWanted

def attach (r : Reader) (o : Opt) (value : Bytes) : Except UsageError Reader :=
  match r.resolve with
  | .error e => .error e
  | .ok r => r.accept o value

def await (r : Reader) (o : Opt) : Except UsageError Reader :=
  match r.resolve with
  | .error e => .error e
  | .ok r => .ok { r with pending := some (o, none) }

def readLong (r : Reader) (body : Bytes) : Except UsageError Reader :=
  let name := body.takeWhile (· != 0x3D)
  let value := (body.dropWhile (· != 0x3D)).tail?
  match Opt.ofName? name, value with
  | none, _ => .error (.unknownName (Utf8.lossy name) r.given)
  | some o, none => if o.valueName?.isSome then r.await o else r.switch o
  | some o, some v =>
    if o.valueName?.isSome then r.attach o v
    else .error (.unwantedValue o (Utf8.lossy v) r.used)

def unknownLetter (rest : Bytes) : UsageError :=
  match Utf8.scan none rest with
  | some c :: _ => .unexpected ['-', c]
  | _ => .unexpected ('-' :: Utf8.lossy rest)

/-- Letters behind one dash. The first that takes a value takes all that follows it. -/
def readLetters : Reader → Bytes → Except UsageError Reader
  | r, [] => .ok r
  | r, b :: bs =>
    match Opt.ofLetter? b with
    | none => .error (unknownLetter (b :: bs))
    | some o =>
      if o.valueName?.isSome then
        match bs with
        | [] => r.await o
        | 0x3D :: value => r.attach o value
        | value => r.attach o value
      else
        match r.switch o with
        | .error e => .error e
        | .ok r => readLetters r bs

def readPlain (r : Reader) (arg : Bytes) : Except UsageError Reader :=
  match r.pending with
  | some (o, none) => .ok { r with pending := some (o, some arg) }
  | _ => .error (.unexpected (Utf8.lossy arg))

def readArgument (r : Reader) : Bytes → Except UsageError Reader
  | 0x2D :: 0x2D :: b :: bs => r.readLong (b :: bs)
  | 0x2D :: b :: bs => r.readLetters (b :: bs)
  | arg => r.readPlain arg

/-- Reads the arguments. Nothing fits behind `--`. -/
def readAll : Reader → List Bytes → Except UsageError Reader
  | r, [] => r.resolve
  | r, arg :: args =>
    if arg = [0x2D, 0x2D] then
      match args with
      | [] => r.resolve
      | next :: _ => .error (.unexpected (Utf8.lossy next))
    else
      match r.readArgument arg with
      | .error e => .error e
      | .ok r => readAll r args

def finish (r : Reader) : Options :=
  { dirs := r.dirs
    mask := r.mask.getD (Opt.mask.default?.getD [])
    opener := r.opener.getD (Opt.opener.default?.getD [])
    dryRun := r.dryRun
    log := r.log }

end Reader

/-- Reads a command line, of which the first word is the name of the program. -/
def parse (args : List Bytes) : Except UsageError Options :=
  (Reader.start.readAll (splitColons args).tail).map Reader.finish

end Options

end CommentMacros
