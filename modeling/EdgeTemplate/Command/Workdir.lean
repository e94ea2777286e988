import EdgeTemplate.Command.Host
import EdgeTemplate.Entries

/-!
# Working directories

A host in memory: the files of one directory, the bytes of the standard input, and what has gone to
the two output streams. Whoever reads the standard output may stop doing so after any byte.
-/
namespace EdgeTemplate

/-- A directory without subdirectories, and the standard streams. -/
structure Workdir where
  files : List (String × ByteArray)
  input : ByteArray := .empty
  output : ByteArray := .empty
  errors : String := ""

namespace Workdir

/-- Why a path does not lead to a place for a file: it names the directory itself, or it goes
through a subdirectory, of which there is none. -/
def obstacle? (files : List (String × ByteArray)) (path : String) : Option FileError :=
  if path = "." then some .isDirectory
  else
    match path.toList.splitOn '/' with
    | first :: _ :: _ =>
      match files.lookup (String.ofList first) with
      | some _ => some .notDirectory
      | none => some .notFound
    | _ => none

def readFile (workdir : Workdir) (path : String) : Except FileError String :=
  match obstacle? workdir.files path with
  | some error => .error error
  | none =>
    match workdir.files.lookup path with
    | some bytes => Host.decode bytes
    | none => .error .notFound

def writeFile (workdir : Workdir) (path text : String) : Except FileError Workdir :=
  match obstacle? workdir.files path with
  | some error => .error error
  | none => .ok { workdir with files := Entries.put path text.toUTF8 workdir.files }

/-- Sends bytes to the standard output. A limit is the number of bytes after which it is closed. -/
def writeOutput (limit : Option Nat) (workdir : Workdir) (bytes : ByteArray) :
    Except FileError Unit × Workdir :=
  let room := limit.map (· - workdir.output.size)
  if room.all (bytes.size ≤ ·) then
    (.ok (), { workdir with output := workdir.output ++ bytes })
  else
    let taken := bytes.extract 0 (room.getD 0)
    (.error .brokenPipe, { workdir with output := workdir.output ++ taken })

def host (limit : Option Nat) : Host (StateM Workdir) where
  readFile path := do return (← get).readFile path
  writeFile path text := do
    match (← get).writeFile path text with
    | .ok workdir =>
      set workdir
      return .ok ()
    | .error error => return .error error
  readInput := do return Host.decode (← get).input
  writeOutput text := modifyGet (writeOutput limit · text.toUTF8)
  writeError text := modify fun workdir => { workdir with errors := workdir.errors ++ text }

end Workdir

end EdgeTemplate
