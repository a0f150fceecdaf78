import Schematic.CommandLine.Run

/-!
# The program

The command line over the files of the machine.
-/

namespace Schematic.Main

def faultOf (number : UInt32) (reason : String) : FileFault :=
  match number.toNat with
  | 2 => .absent
  | 17 => .alreadyThere
  | 20 => .notDirectory
  | 21 => .isDirectory
  | 36 => .nameTooLong
  | n => .other n (Text.ofString reason)

def faultOfError : IO.Error → FileFault
  | .noFileOrDirectory _ number reason => faultOf number reason
  | .inappropriateType _ number reason => faultOf number reason
  | .alreadyExists _ number reason => faultOf number reason
  | .permissionDenied _ number reason => faultOf number reason
  | .invalidArgument _ number reason => faultOf number reason
  | e => .other 5 (Text.ofString (toString e))

/-- The string of a path; only paths that have bytes get here. -/
def stringOf (t : Text) : String := String.ofList ((t.chars?).getD [])

/-- The string of a message, with halves of surrogate pairs as escapes. -/
def messageOf (t : Text) : String :=
  stringOf <| t.flatMap fun c =>
    match c with
    | .char _ => [c]
    | .lone _ => "\\u" ++ Text.hex 4 c.value

/-- Print the output of a run, unless a part of it has no bytes. -/
def printOutput (t : Text) : IO (Except Utf8.Unwritable Unit) := do
  match Utf8.encodeText t with
  | .error u => return .error u
  | .ok bytes =>
    let output ← IO.getStdout
    output.write (ByteArray.mk bytes.toArray)
    return .ok ()

/-- The outcome of an operation on a path. -/
def attempt {α : Type} (path : Text) (act : IO α) : IO (Except FileError α) := do
  match ← act.toBaseIO with
  | .ok a => return .ok a
  | .error e => return .error ⟨faultOfError e, path⟩

instance : Files IO where
  isThere path := do
    match ← attempt path (IO.FS.Handle.mk (stringOf (FilePath.normal path)) .read) with
    | .ok _ => return .ok true
    | .error ⟨.nameTooLong, path⟩ => return .error ⟨.nameTooLong, path⟩
    | .error _ => return .ok false
  read path := do
    let contents ← attempt path (IO.FS.readBinFile (stringOf path))
    return contents.map fun bytes => bytes.toList
  makeParents path := do
    let parent := FilePath.parent path
    attempt parent (IO.FS.createDirAll (stringOf parent))
  write path bytes := do
    let path := FilePath.normal path
    attempt path (IO.FS.writeBinFile (stringOf path) (ByteArray.mk bytes.toArray))

/-- The value of a variable of the environment. -/
def setting (name : String) : IO (Option Text) := do
  return (← IO.getEnv name).map Text.ofString

end Schematic.Main

open Schematic Schematic.Main in
/-- Run the program for the words of its command line. A failure that nothing reports has the exit
code 1. -/
def main (words : List String) : IO UInt32 := do
  let environment : CommandLine.Environment :=
    ⟨← setting "HYDRA_LOG_LEVEL", ← setting "HYDRA_RENDER_FORMAT"⟩
  let outcome ← (CommandLine.run environment (words.map Text.ofString) : IO CommandLine.Outcome)
  let printed ← printOutput outcome.output
  IO.eprint (messageOf (outcome.errors environment))
  match printed, outcome.exit with
  | .ok (), .ok code => return code.toUInt32
  | .ok (), .error e =>
    IO.eprintln (messageOf e.message)
    return 1
  | .error u, _ =>
    IO.eprintln (messageOf u.message)
    return 1
