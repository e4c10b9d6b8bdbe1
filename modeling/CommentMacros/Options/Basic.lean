import CommentMacros.Text.Similarity
import CommentMacros.Utf8

namespace CommentMacros

inductive Opt where
  | dirs
  | mask
  | opener
  | dryRun
  | log
  | help
  deriving DecidableEq, Repr

namespace Opt

def all : List Opt := [.dirs, .mask, .opener, .dryRun, .log, .help]

def letter : Opt → Char
  | .dirs => 'd'
  | .mask => 'f'
  | .opener => 'c'
  | .dryRun => 'n'
  | .log => 'l'
  | .help => 'h'

def name : Opt → Text
  | .dirs => "dirs".toList
  | .mask => "mask".toList
  | .opener => "comment-prefix".toList
  | .dryRun => "dry-run".toList
  | .log => "log".toList
  | .help => "help".toList

/-- What the value of an option is called; the other options take none. -/
def valueName? : Opt → Option Text
  | .dirs => some "DIRS".toList
  | .mask => some "MASK".toList
  | .opener => some "COMMENT_PREFIX".toList
  | _ => none

def default? : Opt → Option Text
  | .mask => some "*".toList
  | .opener => some "//".toList
  | _ => none

def purpose : Opt → Text
  | .dirs => "Comma separated list of directories to process recursively".toList
  | .mask => "File name mask".toList
  | .opener => "Prefix marking a comment line (definitions live behind it)".toList
  | .dryRun => "Report what would change without writing files".toList
  | .log => "Also write the run log under logs/".toList
  | .help => "Print help".toList

def label (o : Opt) : Text :=
  "--".toList ++ o.name ++
    match o.valueName? with
    | some v => " <".toList ++ v ++ ">".toList
    | none => []

def ofLetter? (b : UInt8) : Option Opt := all.find? fun o => o.letter.toNat == b.toNat

def ofName? (s : Bytes) : Option Opt := all.find? fun o => Utf8.encode o.name == s

def addTo (o : Opt) (used : List Opt) : List Opt := if o ∈ used then used else used ++ [o]

/-- Of two options with their likeness to a word, the one more like it; the second if they are
equally like it. -/
def closer (x y : Opt × Float) : Opt × Float := if y.2 < x.2 then x else y

/-- The option whose name is most like a word, if one is more than 0.7 like it. -/
def nearest? (word : Text) : Option Opt :=
  match (all.map fun o => (o, Text.similarity word o.name)).filter fun x => 0.7 < x.2 with
  | [] => none
  | x :: xs => some (xs.foldl closer x).1

def helpLines (o : Opt) : Text :=
  "  -".toList ++ o.letter :: ", ".toList ++ o.label ++ "\n          ".toList ++ o.purpose ++
    (match o.default? with
      | some v => " [default: ".toList ++ v ++ "]".toList
      | none => []) ++ "\n".toList

end Opt

namespace Usage

def program : Text := "define-expand".toList

def version : Text := "1.0.0".toList

def banner : Text :=
  program ++ " v. ".toList ++ version ++
    "\nA simple line-macro preprocessor for pretty much any file".toList

def help : Text :=
  "Expand //#DEFINE line macros in place across source trees\n\nUsage: ".toList ++ program ++
    " [OPTIONS]\n\nOptions:\n".toList ++ Opt.all.flatMap Opt.helpLines ++
    "\nExamples:\n  ".toList ++ program ++ " -d src/app,src/util -f '*.js'\n  ".toList ++
    program ++ " -d:src/app -f:*.js\n".toList

end Usage

end CommentMacros
