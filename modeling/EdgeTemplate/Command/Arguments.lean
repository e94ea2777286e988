import EdgeTemplate.Text.Cut

/-!
# Command-line arguments

A command line names an action, and the arguments after it are switches, settings with a value,
and inputs. Short options may be clustered behind one dash, and the first setting of a cluster
takes the rest of it as its value. After `--` every argument is an input.
-/
namespace EdgeTemplate

open Text

inductive Action where
  | process
  | simulate
deriving DecidableEq, Repr

/-- An option without a value. -/
inductive Switch where
  | verbose
  | printDefines
deriving DecidableEq, Repr

/-- An option with a value. -/
inductive Setting where
  | output
  | defines
  | definesFile
  | define
  | header
deriving DecidableEq, Repr

inductive Flag where
  | switch (name : Switch)
  | setting (name : Setting)
deriving DecidableEq, Repr

inductive Argument where
  | switch (name : Switch)
  | setting (name : Setting) (value : String)
  | input (path : String)
deriving DecidableEq, Repr

namespace Action

def letters : Action → List (Char × Flag)
  | process => [('v', .switch .verbose), ('o', .setting .output), ('D', .setting .define)]
  | simulate => [('v', .switch .verbose), ('o', .setting .output), ('H', .setting .header)]

def names : Action → List (String × Flag)
  | process =>
    [("verbose", .switch .verbose), ("print-defines", .switch .printDefines),
      ("output", .setting .output), ("defines", .setting .defines),
      ("defines-file", .setting .definesFile)]
  | simulate =>
    [("verbose", .switch .verbose), ("print-defines", .switch .printDefines),
      ("output", .setting .output), ("header", .setting .header)]

/-- The arguments in a cluster of letters, and the setting at its end that still needs a value. -/
def cluster? (action : Action) : List Char → Option (List Argument × Option Setting)
  | [] => some ([], none)
  | letter :: rest =>
    match action.letters.lookup letter with
    | none => none
    | some (.switch name) =>
      (cluster? action rest).map fun (arguments, pending) => (.switch name :: arguments, pending)
    | some (.setting name) =>
      match rest with
      | [] => some ([], some name)
      | '=' :: value => some ([.setting name (String.ofList value)], none)
      | value => some ([.setting name (String.ofList value)], none)

/-- The argument that a named option is, or the setting that still needs a value. -/
def named? (action : Action) (body : List Char) : Option (List Argument × Option Setting) :=
  match cut? '=' body with
  | some (name, value) =>
    match action.names.lookup (String.ofList name) with
    | some (.setting name) => some ([.setting name (String.ofList value)], none)
    | _ => none
  | none =>
    match action.names.lookup (String.ofList body) with
    | some (.switch name) => some ([.switch name], none)
    | some (.setting name) => some ([], some name)
    | none => none

/-- Whether an argument looks like an option. A single dash does not. -/
def isOption : List Char → Bool
  | '-' :: _ :: _ => true
  | _ => false

/-- The arguments after an action. A setting that needs a value takes the next argument, unless that
looks like an option. -/
def arguments? (action : Action) (pending : Option Setting) : List String → Option (List Argument)
  | [] => if pending.isSome then none else some []
  | word :: words =>
    match pending, word.toList with
    | some name, value =>
      if isOption value then none
      else (arguments? action none words).map (.setting name word :: ·)
    | none, ['-', '-'] => some (words.map .input)
    | none, value => do
      let (found, pending) ←
        match value with
        | '-' :: '-' :: body => action.named? body
        | '-' :: letter :: rest => action.cluster? (letter :: rest)
        | _ => some ([.input word], none)
      let rest ← arguments? action pending words
      some (found ++ rest)

end Action

end EdgeTemplate
