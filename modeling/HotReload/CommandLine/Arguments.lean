import HotReload.Path.Basic
import HotReload.Settings.Field
import HotReload.Text.DecimalDigit
import HotReload.Text.Quoted

/-!
# Command line arguments

Switches may stand anywhere, be cut short as long as they stay unique, and have their
value behind an equals sign. One plain word is the script root. After `--` every word is
plain, and a negative number is always plain.
-/
namespace HotReload.CommandLine

inductive Switch where
  | help
  | initScript
  | watch
  | pollInterval
  | noPreload
  deriving Repr, DecidableEq

namespace Switch

/-- The spellings of the switches, in the order in which they are listed. -/
def spellings : List (String × Switch) :=
  [("-h", help), ("--help", help), ("--init-script", initScript), ("--watch", watch),
    ("--poll-interval", pollInterval), ("--no-preload", noPreload)]

/-- All spellings of a switch. -/
def title (s : Switch) : String :=
  String.intercalate "/" ((spellings.filter (·.2 = s)).map (·.1))

def takesValue : Switch → Bool
  | initScript | watch | pollInterval => true
  | help | noPreload => false

def ofSpelling? (text : String) : Option Switch := (spellings.find? (·.1 = text)).map (·.2)

end Switch

inductive ArgumentFault where
  | ambiguous (text : String) (spellings : List String)
  | missingValue (s : Switch)
  | unusedValue (s : Switch) (value : String)
  | notInteger (s : Switch) (value : String)
  | unrecognized (texts : List String)
  deriving Repr, DecidableEq

namespace ArgumentFault

def message : ArgumentFault → String
  | ambiguous text spellings =>
    "ambiguous option: " ++ text ++ " could match " ++ String.intercalate ", " spellings
  | missingValue s => "argument " ++ s.title ++ ": expected one argument"
  | unusedValue s value =>
    "argument " ++ s.title ++ ": ignored explicit argument " ++ Text.quote value
  | notInteger s value => "argument " ++ s.title ++ ": invalid int value: " ++ Text.quote value
  | unrecognized texts => "unrecognized arguments: " ++ String.intercalate " " texts

end ArgumentFault

/-- A word of the command line. -/
inductive Word where
  | plain (text : String)
  /-- What makes all words behind it plain. -/
  | separator
  /-- A switch, perhaps with a value in the same word: joined to a short switch, or
  behind an equals sign. -/
  | switch (s : Switch) (isJoined : Bool) (value : Option String)
  | unknown (text : String)
  deriving Repr, DecidableEq

/-- The text before the first equals sign, and what stands behind it. -/
def splitAtEquals (cs : List Char) : List Char × Option (List Char) :=
  let stem := cs.takeWhile (· ≠ '=')
  match cs.dropWhile (· ≠ '=') with
  | [] => (stem, none)
  | _ :: value => (stem, some value)

def isNumeral (cs : List Char) : Bool := cs ≠ [] && cs.all fun c => (Text.digit? c).isSome

/-- Whether the text behind a minus sign makes it a negative number. -/
def isNegated (cs : List Char) : Bool :=
  isNumeral cs ||
    match cs.dropWhile (· ≠ '.') with
    | '.' :: fraction =>
      isNumeral fraction && (cs.takeWhile (· ≠ '.')).all fun c => (Text.digit? c).isSome
    | _ => false

namespace Word

/-- The switches that a word with no exact spelling may mean, each with its spelling. -/
def candidates (cs : List Char) : List (String × Word) :=
  match cs with
  | '-' :: '-' :: _ =>
    let (stem, value) := splitAtEquals cs
    (Switch.spellings.filter fun (spelling, _) => stem.isPrefixOf spelling.toList).map
      fun (spelling, s) => (spelling, switch s false (value.map String.ofList))
  | '-' :: c :: rest =>
    (Switch.spellings.filter fun (spelling, _) => spelling.toList = ['-', c]).map
      fun (spelling, s) => (spelling, switch s true (some (String.ofList rest)))
  | _ => []

/-- A word that spells a switch exactly, alone or before an equals sign. -/
def spelled? (cs : List Char) : Option Word :=
  match Switch.ofSpelling? (String.ofList cs) with
  | some s => some (switch s false none)
  | none =>
    match splitAtEquals cs with
    | (stem, some value) =>
      (Switch.ofSpelling? (String.ofList stem)).map fun s =>
        switch s false (some (String.ofList value))
    | (_, none) => none

/-- A word that comes before any separator. -/
def read (text : String) : Except ArgumentFault Word :=
  match text.toList with
  | '-' :: c :: rest =>
    let cs := '-' :: c :: rest
    match spelled? cs with
    | some word => .ok word
    | none =>
      match candidates cs with
      | [(_, word)] => .ok word
      | [] => .ok (if isNegated (c :: rest) || cs.contains ' ' then plain text else unknown text)
      | found => .error (.ambiguous text (found.map (·.1)))
  | _ => .ok (plain text)

def readAll : List String → Except ArgumentFault (List Word)
  | [] => .ok []
  | "--" :: rest => .ok (separator :: rest.map plain)
  | text :: rest => do return (← read text) :: (← readAll rest)

end Word

/-- What the command line asks for; what it leaves out is up to the settings. -/
structure Arguments where
  path : Option Path := none
  initScript : Option String := none
  /-- Further paths to watch. -/
  watched : List String := []
  pollIntervalMs : Option Int := none
  preloads : Bool := true
  deriving Repr, DecidableEq

/-- Digits that an integer may have. -/
def digitLimit : Nat := 4300

/-- The integer that a text spells, in the digits of any script. -/
def integer? (text : String) : Option Int :=
  let cs := (Text.stripClass Text.isWhiteSpace text.toList).map Text.asciiDigit
  if digitLimit < cs.countP Field.isDigit then none else Field.signed? cs

namespace Arguments

/-- Takes the value of a switch. -/
def setValue (args : Arguments) (s : Switch) (value : String) : Except ArgumentFault Arguments :=
  match s with
  | .initScript => .ok { args with initScript := some value }
  | .watch => .ok { args with watched := args.watched ++ [value] }
  | .pollInterval =>
    match integer? value with
    | some n => .ok { args with pollIntervalMs := some n }
    | none => .error (.notInteger s value)
  | .help | .noPreload => .error (.unusedValue s value)

/-- What is wrong with letters joined to the short help switch: they may repeat it, and
what is no switch is left to the help. -/
def joinedFault? : List Char → Option ArgumentFault
  | '-' :: rest => some (.unusedValue .help (String.ofList ('-' :: rest)))
  | 'h' :: '=' :: rest => some (.unusedValue .help (String.ofList rest))
  | 'h' :: rest => joinedFault? rest
  | _ => none

def helpFault? (isJoined : Bool) (value : String) : Option ArgumentFault :=
  if isJoined then joinedFault? value.toList else some (.unusedValue .help value)

/-- Takes words from left to right, and then refuses those that nothing takes. Nothing is
answered when help is asked for. -/
def ofWords : List Word → Arguments → List String → Except ArgumentFault (Option Arguments)
  | [], args, extras => if extras.isEmpty then .ok (some args) else .error (.unrecognized extras)
  | .unknown text :: rest, args, extras => ofWords rest args (extras ++ [text])
  | .switch .help _ none :: _, _, _ => .ok none
  | .switch .help isJoined (some value) :: _, _, _ =>
    match helpFault? isJoined value with
    | some fault => .error fault
    | none => .ok none
  | .switch .noPreload _ none :: rest, args, extras =>
    ofWords rest { args with preloads := false } extras
  | .switch s _ (some value) :: rest, args, extras => do
    ofWords rest (← args.setValue s value) extras
  | .switch s _ none :: .plain value :: rest, args, extras => do
    ofWords rest (← args.setValue s value) extras
  | .switch s _ none :: _, _, _ => .error (.missingValue s)
  | .plain text :: .separator :: rest, args, extras =>
    match args.path with
    | none => ofWords rest { args with path := some (Path.parse text) } extras
    | some _ => ofWords rest args (extras ++ [text, "--"])
  | .plain text :: rest, args, extras =>
    match args.path with
    | none => ofWords rest { args with path := some (Path.parse text) } extras
    | some _ => ofWords rest args (extras ++ [text])
  | .separator :: rest, args, extras =>
    match args.path with
    | none => ofWords rest args extras
    | some _ => ofWords rest args (extras ++ ["--"])

/-- The arguments of a command line; nothing when it asks for help. -/
def parse (texts : List String) : Except ArgumentFault (Option Arguments) := do
  ofWords (← Word.readAll texts) {} []

end Arguments

/-- How the program is called, on lines that start below its name. -/
def usage (program : String) : List String :=
  let margin := String.ofList (List.replicate (program.length + 8) ' ')
  ["usage: " ++ program ++ " [-h] [--init-script INIT_SCRIPT] [--watch WATCH]",
    margin ++ "[--poll-interval POLL_INTERVAL] [--no-preload]",
    margin ++ "[path]"]

def help (program : String) : List String :=
  usage program ++
    ["",
      "Run a directory of hot-reloaded scripts",
      "",
      "positional arguments:",
      "  path                  Script root directory",
      "",
      "options:",
      "  -h, --help            show this help message and exit",
      "  --init-script INIT_SCRIPT",
      "                        Script loaded first, relative to the root",
      "  --watch WATCH         Additional path to watch (repeatable)",
      "  --poll-interval POLL_INTERVAL",
      "                        Milliseconds between reconciliation cycles",
      "  --no-preload          Skip settling load chains before polling starts"]

end HotReload.CommandLine
