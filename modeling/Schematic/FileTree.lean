import Schematic.Text.Quoted
import Schematic.Text.Utf8

/-!
# Trees of files

Directories and files in memory, with the operations that a program needs: asking for a path,
reading, making directories and writing. A path is walked part by part from the working directory,
or from the root when it starts with a slash; a part that is empty or a single point stays where it
is, but only a directory has parts at all.
-/

namespace Schematic

/-- Why an operation on a path fails. -/
inductive FileFault where
  | absent
  | notDirectory
  | isDirectory
  | alreadyThere
  | nameTooLong
  | other (number : Nat) (reason : Text)
  deriving DecidableEq

/-- The number and the wording of a fault. -/
def FileFault.reason : FileFault → Nat × Text
  | .absent => (2, "No such file or directory")
  | .alreadyThere => (17, "File exists")
  | .notDirectory => (20, "Not a directory")
  | .isDirectory => (21, "Is a directory")
  | .nameTooLong => (36, "File name too long")
  | .other number reason => (number, reason)

/-- A fault at a path. -/
structure FileError where
  fault : FileFault
  path : Text
  deriving DecidableEq

def FileError.message (e : FileError) : Text :=
  "[Errno " ++ Text.ofNat e.fault.reason.1 ++ "] " ++ e.fault.reason.2 ++ ": " ++ e.path.quoted

/-- What a program can do with files. -/
class Files (m : Type → Type) where
  /-- Something is at a path. -/
  isThere : Text → m (Except FileError Bool)
  /-- The bytes of a file. -/
  read : Text → m (Except FileError (List UInt8))
  /-- Make the directory that a path lies in, and the directories above it. -/
  makeParents : Text → m (Except FileError Unit)
  /-- Write a file, in the place of what it held. -/
  write : Text → List UInt8 → m (Except FileError Unit)

/-! ### Paths -/

namespace FilePath

/-- The parts of a path between its slashes. -/
def parts (path : Text) : List Text := Text.splitAll (.char '/') path

/-- The path starts at the root. -/
def isAbsolute (path : Text) : Bool := path.startsWith "/"

/-- The part leads to another place. -/
def isProper (part : Text) : Bool := !part.isEmpty && part != Text.ofString "."

/-- The parts of a path that lead to another place. -/
def properParts (path : Text) : List Text := (parts path).filter isProper

def ofParts (absolute : Bool) (ps : List Text) : Text :=
  let joined := Text.join "/" ps
  if absolute then "/" ++ joined else if joined.isEmpty then "." else joined

/-- The path without superfluous parts. -/
def normal (path : Text) : Text := ofParts (isAbsolute path) (properParts path)

/-- The path of the directory that a path lies in. -/
def parent (path : Text) : Text := ofParts (isAbsolute path) (properParts path).dropLast

/-- The byte that half of a surrogate pair stands for in a path: a byte past ASCII that is part of
no character. -/
def byteOfHalf? (half : Fin 0x800) : Option UInt8 :=
  if 0x480 ≤ half.val ∧ half.val < 0x500 then some (UInt8.ofNat half.val) else none

/-- The bytes of a code point in a path, if it has any. -/
def pointBytes? : CodePoint → Option (List UInt8)
  | .char c => some (Utf8.encodeChar c)
  | .lone half => (byteOfHalf? half).map fun b => [b]

/-- The first code points of a text that have no bytes in a path, with the halves of surrogate pairs
that follow them. -/
def unwritable? (path : Text) : Option Utf8.Unwritable :=
  let hasBytes (c : CodePoint) : Bool := (pointBytes? c).isSome
  let isLone : CodePoint → Bool
    | .char _ => false
    | .lone _ => true
  match path.dropWhile hasBytes with
  | [] => none
  | c :: rest => some ⟨c, (path.takeWhile hasBytes).length, ((c :: rest).takeWhile isLone).length⟩

end FilePath

/-- Why a text is no path. -/
inductive PathFault where
  /-- Some code points have no bytes. -/
  | unwritable (u : Utf8.Unwritable)
  /-- The code point zero would end the path. -/
  | zero
  deriving DecidableEq

def PathFault.message : PathFault → Text
  | .unwritable u => u.message
  | .zero => "embedded null byte"

/-- The fault of a text that is no path. -/
def FilePath.fault? (path : Text) : Option PathFault :=
  match unwritable? path with
  | some u => some (.unwritable u)
  | none => if path.contains (.char '\x00') then some .zero else none

/-! ### Trees -/

/-- A file, or a directory with its entries by name. -/
inductive FileTree where
  | file (bytes : List UInt8)
  | directory (entries : List (Text × FileTree))

namespace FileTree

/-- The entry of a directory with a name. -/
def child? (name : Text) : FileTree → Option FileTree
  | .file _ => none
  | .directory entries => (entries.find? fun e => e.1 == name).map (·.2)

/-- The node at a list of names. -/
def at? : FileTree → List Text → Option FileTree
  | t, [] => some t
  | t, name :: names => (t.child? name).bind (·.at? names)

def isDirectory : FileTree → Bool
  | .file _ => false
  | .directory _ => true

def setEntry (name : Text) (node : FileTree) : List (Text × FileTree) → List (Text × FileTree)
  | [] => [(name, node)]
  | (k, t) :: rest => if k = name then (k, node) :: rest else (k, t) :: setEntry name node rest

/-- The tree after a node is put at a list of names; directories on the way are made where nothing
is. -/
def put : FileTree → List Text → FileTree → FileTree
  | _, [], node => node
  | .directory entries, name :: names, node =>
    let inner := ((entries.find? fun e => e.1 == name).map (·.2)).getD (.directory [])
    .directory (setEntry name (inner.put names node) entries)
  | .file bytes, _ :: _, _ => .file bytes

mutual

/-- The files of a tree with their paths, below a path. -/
def files (path : List Text) : FileTree → List (List Text × List UInt8)
  | .file bytes => [(path, bytes)]
  | .directory entries => entryFiles path entries

/-- The files of some entries with their paths. -/
def entryFiles (path : List Text) : List (Text × FileTree) → List (List Text × List UInt8)
  | [] => []
  | (name, t) :: rest => t.files (path ++ [name]) ++ entryFiles path rest

end

end FileTree

/-- A tree of files and the directory that paths start from. -/
structure Workspace where
  root : FileTree
  here : List Text

namespace Workspace

/-- The longest name of an entry, in bytes. -/
def maxName : Nat := 255

/-- The longest path, in bytes. -/
def maxPath : Nat := 4095

/-- The count of bytes of a text in a path. -/
def byteCount (t : Text) : Nat := (t.flatMap fun c => (FilePath.pointBytes? c).getD []).length

/-- Follow parts from a place. -/
def walk (w : Workspace) : List Text → List Text → Except FileFault (List Text)
  | place, [] => .ok place
  | place, part :: parts =>
    match w.root.at? place with
    | none => .error .absent
    | some (.file _) => .error .notDirectory
    | some (.directory entries) =>
      if !FilePath.isProper part then w.walk place parts
      else if part = Text.ofString ".." then w.walk place.dropLast parts
      else if maxName < byteCount part then .error .nameTooLong
      else if entries.any (·.1 == part) then w.walk (place ++ [part]) parts
      else .error .absent

/-- Where a path starts. -/
def start (w : Workspace) (path : Text) : List Text :=
  if FilePath.isAbsolute path then [] else w.here

/-- The place that a path leads to. -/
def locate (w : Workspace) (path : Text) : Except FileFault (List Text) :=
  if path.isEmpty then .error .absent
  else if maxPath < byteCount path then .error .nameTooLong
  else w.walk (w.start path) (FilePath.parts path)

/-- Something is at a path. The empty path is the working directory. -/
def isThere (w : Workspace) (path : Text) : Except FileError Bool :=
  match w.locate (FilePath.normal path) with
  | .ok _ => .ok true
  | .error .absent | .error .notDirectory => .ok false
  | .error fault => .error ⟨fault, FilePath.normal path⟩

def read (w : Workspace) (path : Text) : Except FileError (List UInt8) :=
  match w.locate path with
  | .error fault => .error ⟨fault, path⟩
  | .ok place =>
    match w.root.at? place with
    | some (.file bytes) => .ok bytes
    | _ => .error ⟨.isDirectory, path⟩

/-- Make one directory. -/
def makeDirectory (absolute : Bool) (parts : List Text) (w : Workspace) :
    Except FileFault Workspace :=
  match w.locate (FilePath.ofParts absolute parts) with
  | .ok _ => .error .alreadyThere
  | .error fault =>
    match parts.getLast?, w.walk (if absolute then [] else w.here) parts.dropLast with
    | some name, .ok place =>
      if fault = .absent then .ok { w with root := w.root.put (place ++ [name]) (.directory []) }
      else .error fault
    | _, _ => .error fault

/-- A fault is let pass where a directory is. -/
def acceptDirectory (w : Workspace) (path : Text) (fault : FileFault) :
    Except FileError Workspace :=
  match w.locate path with
  | .ok place =>
    if ((w.root.at? place).map (·.isDirectory)).getD false then .ok w else .error ⟨fault, path⟩
  | .error _ => .error ⟨fault, path⟩

/-- Make a directory and the directories above it; `depth` bounds how many. -/
def makeDirectories (absolute : Bool) : Nat → List Text → Workspace → Except FileError Workspace
  | depth, parts, w =>
    let path := FilePath.ofParts absolute parts
    match w.makeDirectory absolute parts with
    | .ok w => .ok w
    | .error .absent =>
      match depth with
      | 0 => .error ⟨.absent, path⟩
      | depth + 1 => do
        let w ← makeDirectories absolute depth parts.dropLast w
        match w.makeDirectory absolute parts with
        | .ok w => return w
        | .error .absent => throw ⟨.absent, path⟩
        | .error fault => w.acceptDirectory path fault
    | .error fault => w.acceptDirectory path fault

/-- Make the directory that a path lies in, and the directories above it. -/
def makeParents (path : Text) (w : Workspace) : Except FileError Workspace :=
  let parts := (FilePath.properParts path).dropLast
  makeDirectories (FilePath.isAbsolute path) parts.length parts w

/-- Write a file. A new one is made in a directory that is there. -/
def write (path : Text) (bytes : List UInt8) (w : Workspace) : Except FileError Workspace :=
  let path := FilePath.normal path
  match w.locate path with
  | .ok place =>
    match w.root.at? place with
    | some (.file _) => .ok { w with root := w.root.put place (.file bytes) }
    | _ => .error ⟨.isDirectory, path⟩
  | .error .absent =>
    let parts := FilePath.properParts path
    match parts.getLast?, w.walk (w.start path) parts.dropLast with
    | some name, .ok place =>
      if ((w.root.at? place).map (·.isDirectory)).getD false then
        .ok { w with root := w.root.put (place ++ [name]) (.file bytes) }
      else .error ⟨.absent, path⟩
    | _, .error fault => .error ⟨fault, path⟩
    | none, _ => .error ⟨.isDirectory, path⟩
  | .error fault => .error ⟨fault, path⟩

/-- The outcome of a change; a failing change leaves the tree as it was. -/
def change (f : Workspace → Except FileError Workspace) :
    StateM Workspace (Except FileError Unit) := fun w =>
  match f w with
  | .ok w => (.ok (), w)
  | .error e => (.error e, w)

instance : Files (StateM Workspace) where
  isThere path := fun w => (w.isThere path, w)
  read path := fun w => (w.read path, w)
  makeParents path := change (makeParents path)
  write path bytes := change (write path bytes)

/-- The files below the working directory, by their paths from there. -/
def files (w : Workspace) : List (Text × List UInt8) :=
  match w.root.at? w.here with
  | none => []
  | some t => (t.files []).map fun (names, bytes) => (Text.join "/" names, bytes)

end Workspace

end Schematic
