import EdgeTemplate.Command.Arguments

/-!
# Invocations

What a well-formed command line stands for. Each option may be given once, except pairs and headers,
which add up; there is exactly one input; and paths are not empty.
-/
namespace EdgeTemplate

inductive DefinesSource where
  /-- A file, a text and pairs, each overriding those before it. -/
  | given (file text : Option String) (pairs : List String)
  /-- The header lines of a request. -/
  | request (lines : List String)
deriving DecidableEq, Repr

structure Command where
  input : String
  output : Option String
  printDefines : Bool
  source : DefinesSource
deriving DecidableEq, Repr

inductive Invocation where
  | version
  | run (command : Command)
deriving DecidableEq, Repr

namespace Command

def values (name : Setting) (arguments : List Argument) : List String :=
  arguments.filterMap fun
    | .setting other value => if other = name then some value else none
    | _ => none

def inputs (arguments : List Argument) : List String :=
  arguments.filterMap fun
    | .input path => some path
    | _ => none

/-- The value of a setting that is given at most once. -/
def single? (name : Setting) (arguments : List Argument) : Option (Option String) :=
  match values name arguments with
  | [] => some none
  | [value] => some (some value)
  | _ => none

def path? (name : Setting) (arguments : List Argument) : Option (Option String) :=
  (single? name arguments).filter (· != some "")

/-- Whether a switch is given, unless it is given twice. -/
def switch? (name : Switch) (arguments : List Argument) : Option Bool :=
  match arguments.filter (· = .switch name) with
  | [] => some false
  | [_] => some true
  | _ => none

def source? (action : Action) (arguments : List Argument) : Option DefinesSource :=
  match action with
  | .process => do
    let file ← path? .definesFile arguments
    let text ← single? .defines arguments
    some (.given file text (values .define arguments))
  | .simulate => some (.request (values .header arguments))

def ofArguments? (action : Action) (arguments : List Argument) : Option Command := do
  let _ ← switch? .verbose arguments
  let printDefines ← switch? .printDefines arguments
  let output ← path? .output arguments
  let source ← source? action arguments
  match inputs arguments with
  | [input] => if input.isEmpty then none else some { input, output, printDefines, source }
  | _ => none

end Command

namespace Invocation

def action? : String → Option Action
  | "process" => some .process
  | "simulate" => some .simulate
  | _ => none

/-- What a cluster of letters before the action comes to. -/
inductive Lead where
  | version
  | verbose (seen : Bool)
deriving DecidableEq, Repr

/-- Reads a cluster of letters before the action. The version is answered at once. -/
def lead? (verbose : Bool) : List Char → Option Lead
  | [] => some (.verbose verbose)
  | 'V' :: _ => some .version
  | 'v' :: rest => if verbose then none else lead? true rest
  | _ => none

/-- The invocation that the words of a command line make up. Before the action only the version and
one request for more output are allowed. -/
def ofWords? (verbose : Bool) : List String → Option Invocation
  | [] => none
  | word :: words =>
    match action? word with
    | some action => do
      let arguments ← action.arguments? none words
      let command ← Command.ofArguments? action arguments
      some (.run command)
    | none =>
      let lead :=
        match word.toList with
        | '-' :: '-' :: _ =>
          if word = "--version" then lead? verbose ['V']
          else if word = "--verbose" then lead? verbose ['v']
          else none
        | '-' :: letter :: rest => lead? verbose (letter :: rest)
        | _ => none
      match lead with
      | some .version => some .version
      | some (.verbose verbose) => ofWords? verbose words
      | none => none

def parse? (words : List String) : Option Invocation :=
  ofWords? false words

end Invocation

end EdgeTemplate
