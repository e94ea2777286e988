import EdgeTemplate.Condition
import EdgeTemplate.Context

/-!
# Errors

Everything that can go wrong, from the block markers of a template to the files of a command, with
the wording of each error.
-/
namespace EdgeTemplate

/-- Why a text does not hold the fields of an object. -/
inductive FieldsError where
  | notJson
  | notObject (value : Json)

def FieldsError.message : FieldsError → String
  | notJson => "not a JSON text"
  | notObject value => s!"expected an object, got {value.kind} {value.toText}"

inductive ConfigError where
  | unreadableDefines (cause : FieldsError)
  | notScalar (key : String) (value : Json)
  | headerWithoutColon (line : String)
  | headerWithoutName (line : String)
  | pairWithoutValue (pair : String)

def ConfigError.message : ConfigError → String
  | unreadableDefines cause => s!"invalid defines JSON: {cause.message}"
  | notScalar key value =>
    s!"define `{key}` must be a boolean, number or string, got {value.toText}"
  | headerWithoutColon line => s!"header `{line}` is not of the form `Name: value`"
  | headerWithoutName line => s!"header `{line}` has no name"
  | pairWithoutValue pair => s!"-D expects KEY=VALUE, got `{pair}`"

inductive FileError where
  | notFound
  | notDirectory
  | isDirectory
  | notText
  | brokenPipe
  | other (description : String)
deriving DecidableEq, Repr

def FileError.message : FileError → String
  | notFound => "No such file or directory (os error 2)"
  | notDirectory => "Not a directory (os error 20)"
  | isDirectory => "Is a directory (os error 21)"
  | notText => "stream did not contain valid UTF-8"
  | brokenPipe => "Broken pipe (os error 32)"
  | other description => description

/-- Why a template is not processed. Lines count from one. -/
inductive Error where
  /-- A closing marker stands where no region is open. -/
  | unmatchedClose (line : Nat)
  /-- Regions are left open at the end; the line is that of the outermost one. -/
  | unclosed (count line : Nat)
  /-- A condition has no value. -/
  | evaluation (line : Nat) (condition : String) (cause : ConditionError) (context : Context)
  | config (cause : ConfigError)
  | file (cause : FileError)

inductive ErrorKind where
  | nesting
  | evaluation
  | config
  | file
deriving DecidableEq, Repr

namespace Error

def kind : Error → ErrorKind
  | unmatchedClose _ | unclosed _ _ => .nesting
  | evaluation _ _ _ _ => .evaluation
  | config _ => .config
  | file _ => .file

def line? : Error → Option Nat
  | unmatchedClose line | unclosed _ line | evaluation line _ _ _ => some line
  | config _ | file _ => none

/-- What went wrong, without class and line. -/
def detail : Error → String
  | unmatchedClose _ => "unmatched /* @endif */ with no open /* @if(...) */"
  | unclosed count line =>
    s!"{count} unmatched /* @if(...) */ block(s); missing /* @endif */ for the block opened " ++
      s!"at line {line}"
  | evaluation _ _ cause _ => cause.message
  | config cause => cause.message
  | file cause => cause.message

def message (error : Error) : String :=
  match error with
  | unmatchedClose line | unclosed _ line => s!"structure error at line {line}: {error.detail}"
  | evaluation line condition _ context =>
    s!"evaluation error at line {line}: {error.detail} in `{condition}`; " ++
      s!"context: {context.toText}"
  | config _ => s!"config error: {error.detail}"
  | file _ => s!"io error: {error.detail}"

end Error

end EdgeTemplate
