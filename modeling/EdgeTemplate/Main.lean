import EdgeTemplate.Command

/-!
# The command-line program

The files and streams of the operating system as a host, and the entry point.
-/
namespace EdgeTemplate.Main

/-- The file error that an error of the operating system stands for. Some calls report the code of
an error negated. -/
def fileError : IO.Error → FileError
  | .noFileOrDirectory .. => .notFound
  | .resourceVanished 32 _ => .brokenPipe
  | .inappropriateType _ code _ =>
    if code == 21 || code == -21 then .isDirectory else .notDirectory
  | error => .other (toString error)

def attempt {α : Type} (action : IO α) : IO (Except FileError α) := do
  try
    return .ok (← action)
  catch error =>
    return .error (fileError error)

/-- The text of a stream up to its end. -/
partial def readAll (stream : IO.FS.Stream) (read : ByteArray) : IO ByteArray := do
  let bytes ← stream.read 65536
  if bytes.isEmpty then return read else readAll stream (read ++ bytes)

def systemHost : Host IO where
  readFile path := do
    return (← attempt (IO.FS.readBinFile path)) >>= Host.decode
  writeFile path text := attempt (IO.FS.writeBinFile path text.toUTF8)
  readInput := do
    return (← attempt (do readAll (← IO.getStdin) .empty)) >>= Host.decode
  writeOutput text := attempt do
    let stream ← IO.getStdout
    stream.write text.toUTF8
    stream.flush
  writeError text := do
    (← IO.getStderr).write text.toUTF8

end EdgeTemplate.Main

def main (words : List String) : IO UInt32 :=
  EdgeTemplate.Invocation.perform EdgeTemplate.Main.systemHost words
