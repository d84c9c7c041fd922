import HotReload.Path.Basic
import HotReload.Text.Quoted

/-!
# Failures

What scripts, closers, file access and the host itself can raise. A failure has the
name of its kind and a message; some kinds are told apart because the host treats
them in their own way.
-/
namespace HotReload

/-- What can go wrong with a path in the file system. -/
inductive FileFault where
  | notFound
  | exists
  | notDirectory
  | isDirectory
  | nameTooLong
  | tooManyLinks
  /-- The path has a null character, and is not even asked about. -/
  | nullCharacter
  deriving Repr, DecidableEq

namespace FileFault

/-- The number of the fault, if it has one. -/
def code : FileFault → Nat
  | .notFound => 2
  | .exists => 17
  | .notDirectory => 20
  | .isDirectory => 21
  | .nameTooLong => 36
  | .tooManyLinks => 40
  | .nullCharacter => 0

def text : FileFault → String
  | .notFound => "No such file or directory"
  | .exists => "File exists"
  | .notDirectory => "Not a directory"
  | .isDirectory => "Is a directory"
  | .nameTooLong => "File name too long"
  | .tooManyLinks => "Too many levels of symbolic links"
  | .nullCharacter => "embedded null byte"

def kindName : FileFault → String
  | .notFound => "FileNotFoundError"
  | .exists => "FileExistsError"
  | .notDirectory => "NotADirectoryError"
  | .isDirectory => "IsADirectoryError"
  | .nameTooLong | .tooManyLinks => "OSError"
  | .nullCharacter => "ValueError"

end FileFault

/-- Where the text of a script is not a script. -/
structure TextFault where
  file : String
  line : Nat
  deriving Repr, DecidableEq

inductive Failure where
  /-- Raised with a kind and an argument, by a script, a closer or the host. -/
  | raised (kind argument : String)
  /-- Raised like that, and has no literal: who asks for one is raised a fault instead. -/
  | unprintable (kind argument : String) (fault : Failure)
  /-- A path could not be used. -/
  | file (fault : FileFault) (path : String)
  /-- A script's text could not be read as a script. -/
  | malformed (fault : TextFault)
  /-- A script could not be loaded. -/
  | loading (path : Path) (cause : Failure)
  /-- Resources failed to close; `late` when it was one resource that came after the
  registry had closed. -/
  | closing (errors : List Failure) (late : Bool)
  deriving Repr, Inhabited

namespace Failure

/-- The kinds that end a run instead of being handled by it. -/
def endingKinds : List String :=
  ["SystemExit", "KeyboardInterrupt", "GeneratorExit", "BaseException"]

/-- The kinds of a failing operating system call. -/
def systemKinds : List String :=
  ["OSError", "BlockingIOError", "ChildProcessError", "ConnectionError", "BrokenPipeError",
    "ConnectionAbortedError", "ConnectionRefusedError", "ConnectionResetError",
    "FileExistsError", "FileNotFoundError", "InterruptedError", "IsADirectoryError",
    "NotADirectoryError", "PermissionError", "ProcessLookupError", "TimeoutError"]

def textKinds : List String := ["SyntaxError", "IndentationError", "TabError"]

def stateKinds : List String := ["RuntimeError", "NotImplementedError", "RecursionError"]

/-- The failure of a kind with one argument. Two names mean `OSError`, and the failures
of text encodings cannot be made from one argument. -/
def ofKind (kind argument : String) : Failure :=
  if kind = "IOError" ∨ kind = "EnvironmentError" then .raised "OSError" argument
  else if kind = "UnicodeDecodeError" ∨ kind = "UnicodeEncodeError" then
    .raised "TypeError" "function takes exactly 5 arguments (1 given)"
  else if kind = "UnicodeTranslateError" then
    .raised "TypeError" "function takes exactly 4 arguments (1 given)"
  else .raised kind argument

def kindName : Failure → String
  | .raised kind _ | .unprintable kind _ _ => kind
  | .file fault _ => fault.kindName
  | .malformed _ => "SyntaxError"
  | .loading _ _ => "ScriptLoadError"
  | .closing _ _ => "CompositeClosingError"

/-- Whether the host handles the failure; the others end whatever is running. -/
def isOrdinary (f : Failure) : Bool := !endingKinds.contains f.kindName

/-- Whether the failure leaves an event loop that runs the failing code. -/
def leavesLoop (f : Failure) : Bool :=
  f.kindName = "SystemExit" || f.kindName = "KeyboardInterrupt"

/-- Whether an operating system call failed. -/
def isSystem (f : Failure) : Bool := systemKinds.contains f.kindName

/-- Whether the text of a script is at fault. -/
def isText (f : Failure) : Bool := textKinds.contains f.kindName

/-- Whether the failure says that something is in the wrong state for the call. -/
def isState (f : Failure) : Bool := stateKinds.contains f.kindName

def baseName (file : String) : String := (Path.parse file).name

/-- The literal of a text fault: what stands in the file at that line, and where. -/
def TextFault.literal (t : TextFault) : String :=
  "SyntaxError('invalid syntax', (" ++ Text.quote t.file ++ ", " ++ toString t.line
    ++ ", 5, " ++ Text.quote "def (:\n" ++ ", " ++ toString t.line ++ ", 6))"

mutual

/-- The text of a failure. -/
def message : Failure → String
  | .raised kind argument | .unprintable kind argument _ =>
    if kind = "KeyError" then Text.quote argument else argument
  | .file .nullCharacter _ => FileFault.nullCharacter.text
  | .file fault path =>
    "[Errno " ++ toString fault.code ++ "] " ++ fault.text ++ ": " ++ Text.quote path
  | .malformed t =>
    "invalid syntax (" ++ baseName t.file ++ ", line " ++ toString t.line ++ ")"
  | .loading path cause => "Cannot load script " ++ path.toText ++ ": " ++ cause.message
  | .closing errors _ =>
    toString errors.length ++ " resource(s) failed to close: ["
      ++ String.intercalate ", " (literals errors) ++ "]"

/-- The failure as a literal: its kind, and in brackets what it was made from. -/
def literal : Failure → String
  | .raised kind argument | .unprintable kind argument _ =>
    kind ++ "(" ++ Text.quote argument ++ ")"
  | .file .nullCharacter _ => "ValueError(" ++ Text.quote FileFault.nullCharacter.text ++ ")"
  | .file fault _ =>
    fault.kindName ++ "(" ++ toString fault.code ++ ", " ++ Text.quote fault.text ++ ")"
  | .malformed t => TextFault.literal t
  | .loading path cause =>
    "ScriptLoadError(" ++ Text.quote
      ("Cannot load script " ++ path.toText ++ ": " ++ cause.message) ++ ")"
  | .closing errors _ =>
    "CompositeClosingError("
      ++ Text.quote (toString errors.length ++ " resource(s) failed to close: ["
        ++ String.intercalate ", " (literals errors) ++ "]") ++ ")"

def literals : List Failure → List String
  | [] => []
  | f :: rest => f.literal :: literals rest

end

/-- What asking for the literal of a failure raises. -/
def literalFault? : Failure → Option Failure
  | .unprintable _ _ fault => some fault
  | _ => none

/-- The failures of closings, if they can be put together: the failure that stands for them has
their literals in its text. -/
def gather (errors : List Failure) : Except Failure (List Failure) :=
  match errors.findSome? literalFault? with
  | some fault => .error fault
  | none => .ok errors

/-- The failure that stands for those of closings, or the one that putting them together raises. -/
def composed (errors : List Failure) (late : Bool) : Failure :=
  match gather errors with
  | .ok errors => .closing errors late
  | .error fault => fault

/-- What a failure was raised from. -/
def cause? : Failure → Option Failure
  | .loading _ cause => some cause
  | .closing errors true => errors.head?
  | _ => none

end Failure

end HotReload
