import CommentMacros.Options.Basic
import CommentMacros.Text.Visible

namespace CommentMacros

/-- Why a command line is turned down. In `given` are the options before the fault, in the order
of their first use. -/
inductive UsageError where
  | unexpected (argument : Text)
  | unknownName (name : Text) (given : List Opt)
  | missingValue (o : Opt)
  | repeated (o : Opt)
  | unwantedValue (o : Opt) (value : Text) (given : List Opt)
  | notText
  | helpWanted
  deriving DecidableEq, Repr

namespace Usage

def ofGiven (given : List Opt) : Text :=
  if given = [] then "[OPTIONS]".toList else " ".toList.intercalate (given.map Opt.label)

def choice : Text :=
  "<".toList ++ "|".toList.intercalate ((Opt.all.erase .help).map Opt.label) ++ ">".toList

/-- The arguments that a usage line shows when `o` has a value but takes none. Behind other options
stands the choice among all of them, which covers `o` too unless it is the help. -/
def ofUnwanted (o : Opt) (given : List Opt) : Text :=
  if given = [] then o.label
  else if o = .help then o.label ++ " ".toList ++ choice
  else choice

end Usage

namespace UsageError

def exitCode : UsageError → Nat
  | .helpWanted => 0
  | _ => 2

private def hint : Text := "\nFor more information, try '--help'.\n".toList

private def usageLine (arguments : Text) : Text :=
  "\nUsage: ".toList ++ Usage.program ++ " ".toList ++ arguments ++ "\n".toList

private def unexpectedLine (argument : Text) : Text :=
  "error: unexpected argument '".toList ++ argument.visible ++ "' found\n".toList

private def tipLine (o : Opt) : Text :=
  "\n  tip: a similar argument exists: '--".toList ++ o.name ++ "'\n".toList

def message : UsageError → Text
  | .unexpected argument => unexpectedLine argument ++ usageLine (Usage.ofGiven []) ++ hint
  | .unknownName name given =>
    unexpectedLine ("--".toList ++ name) ++
      (match Opt.nearest? name with
        | none => usageLine (Usage.ofGiven given)
        | some o => tipLine o ++ usageLine (Usage.ofGiven (o.addTo given))) ++ hint
  | .missingValue o =>
    "error: a value is required for '".toList ++ o.label ++ "' but none was supplied\n".toList ++
      hint
  | .repeated o =>
    "error: the argument '".toList ++ o.label ++ "' cannot be used multiple times\n".toList ++
      usageLine (Usage.ofGiven []) ++ hint
  | .unwantedValue o value given =>
    "error: unexpected value '".toList ++ value.visible ++ "' for '".toList ++ o.label ++
      "' found; no more were expected\n".toList ++ usageLine (Usage.ofUnwanted o given) ++ hint
  | .notText =>
    "error: invalid UTF-8 was detected in one or more arguments\n".toList ++
      usageLine (Usage.ofGiven []) ++ hint
  | .helpWanted => Usage.help

end UsageError

end CommentMacros
