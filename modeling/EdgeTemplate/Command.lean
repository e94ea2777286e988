import EdgeTemplate.Command.Host
import EdgeTemplate.Command.Invocation
import EdgeTemplate.Defines.Collect
import EdgeTemplate.Request.Signals
import EdgeTemplate.Template

/-!
# Commands

A command gathers its defines, reads its template, processes it and delivers the result to one
place. The template is read before anything is delivered.
-/
namespace EdgeTemplate

variable {m : Type → Type} [Monad m]

namespace Host

/-- An operation of the host, with the error of a file as an error of the command. -/
def attempt {α : Type} (operation : m (Except FileError α)) : ExceptT Error m α :=
  ExceptT.mk (Except.mapError .file <$> operation)

def file (host : Host m) (path : String) : ExceptT Error m String :=
  attempt (host.readFile path)

def standardInput (host : Host m) : ExceptT Error m String :=
  attempt host.readInput

end Host

namespace DefinesSource

def gather (host : Host m) : DefinesSource → ExceptT Error m Defines
  | given file text pairs => do
    let file ← file.mapM host.file
    Defines.collect file text pairs
  | request lines => do
    let headers ← Headers.ofLines lines
    return headers.signals

end DefinesSource

namespace Command

/-- The template of a command. A single dash names the standard input. -/
def readSource (host : Host m) (input : String) : ExceptT Error m String :=
  if input = "-" then host.standardInput else host.file input

def render (host : Host m) (command : Command) : ExceptT Error m String := do
  let defines ← command.source.gather host
  if command.printDefines then
    host.writeError (defines.toIndentedText ++ "\n")
  let source ← readSource host command.input
  Template.process defines source

def deliver (host : Host m) (command : Command) (text : String) : ExceptT Error m Unit :=
  match command.output with
  | some path => Host.attempt (host.writeFile path text)
  | none => Host.attempt (host.writeOutput text)

def run (host : Host m) (command : Command) : ExceptT Error m Unit := do
  let text ← command.render host
  command.deliver host text

end Command

namespace Invocation

def versionText : String := "macro-optimizer 0.1.0\n"

def usageText : String :=
  "usage: [-v] process [-o FILE] [--print-defines] [--defines-file FILE] [--defines JSON] " ++
    "[-D KEY=VALUE]... INPUT\n" ++
    "       [-v] simulate [-o FILE] [--print-defines] [-H HEADER]... INPUT\n"

/-- Carries out a command line and gives its exit code: two for a malformed line, one for a
command that fails, and zero otherwise. Showing the version does not count as failed when nobody
reads it. -/
def perform (host : Host m) (words : List String) : m UInt32 := do
  match parse? words with
  | none =>
    host.writeError usageText
    return 2
  | some .version =>
    let _ ← host.writeOutput versionText
    return 0
  | some (.run command) =>
    match ← (command.run host).run with
    | .ok () => return 0
    | .error error =>
      host.writeError s!"error: {error.message}\n"
      return 1

end Invocation

end EdgeTemplate
