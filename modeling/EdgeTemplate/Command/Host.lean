import EdgeTemplate.Error

/-!
# Hosts

What a command needs of the system that it runs on.
-/
namespace EdgeTemplate

/-- The files and streams that a command uses. The standard output may fail when it has taken a part
of a text already. -/
structure Host (m : Type → Type) where
  readFile : String → m (Except FileError String)
  writeFile : String → String → m (Except FileError Unit)
  readInput : m (Except FileError String)
  writeOutput : String → m (Except FileError Unit)
  writeError : String → m Unit

def Host.decode (bytes : ByteArray) : Except FileError String :=
  match String.fromUTF8? bytes with
  | some text => .ok text
  | none => .error .notText

end EdgeTemplate
