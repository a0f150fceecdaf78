import Schematic.CommandLine.Assignment
import Schematic.CommandLine.Request
import Schematic.Component.Document
import Schematic.FileTree
import Schematic.GroupVersionKind
import Schematic.LogLevel
import Schematic.Pod.Manifest

/-!
# Running the program

What the program does for a command line: it renders a component file into a pod manifest, or takes
a full name apart. Results go to the standard output or to a file, everything else to the log. Most
faults are reported in the log; some end the program.
-/

namespace Schematic.CommandLine

structure LogLine where
  source : Text
  level : LogLevel
  message : Text
  deriving DecidableEq

def LogLine.text (l : LogLine) : Text :=
  l.source ++ " - " ++ l.level.name ++ " - " ++ l.message ++ "\n"

def told (level : LogLevel) (message : Text) : LogLine := ⟨"hydra.cli", level, message⟩

/-- Why a request fails. -/
inductive Failure where
  | assignment (e : AssignmentError)
  | file (e : FileError)
  | decoding (e : Utf8.Error)
  | reading (e : Component.ReadError)
  | rendering (e : RenderError)
  | path (f : PathFault)
  | writing (u : Utf8.Unwritable)

namespace Failure

def message : Failure → Text
  | .assignment e => e.message
  | .file e => e.message
  | .decoding e => e.message
  | .reading e => e.message
  | .rendering e => e.message
  | .path f => f.message
  | .writing u => u.message

end Failure

/-- The failure is one of the values that conversions are expected to meet. -/
def isExpectedConversion : Yaml.ConversionError → Bool
  | .notInteger _ _ | .tooManyDigits _ | .notNumber _ | .noCodePoint | .calendar _ => true
  | .tooLarge | .codePointTooLarge | .emptyNumeral | .noTruth _ | .noTimestamp
  | .timestampOfMapping => false

/-- The failure is reported; any other one ends the program. -/
def Failure.isReported : Failure → Bool
  | .assignment (.unconverted e) | .reading (.unconverted e) => isExpectedConversion e
  | .assignment _ | .reading _ | .file _ | .decoding _ => true
  | .rendering (.resolution (.literal (.kind _))) => false
  | .rendering (.resolution (.literal (.key _))) => false
  | .rendering _ => true
  | .path _ | .writing _ => false

/-- What a run of the program leaves. -/
structure Outcome where
  /-- The exit code, or the failure that ended the program. -/
  exit : Except Failure Nat
  output : Text := []
  /-- What is told apart from the log. -/
  notice : Text := []
  log : List LogLine := []

/-- The settings that a program finds in its environment. -/
structure Environment where
  logLevel : Option Text := none
  renderFormat : Option Text := none

def shownLog (environment : Environment) (log : List LogLine) : Text :=
  let least := LogLevel.threshold LogLevel.info.number environment.logLevel
  ((log.filter fun l => decide (least ≤ l.level.number)).map LogLine.text).flatten

/-- What a run tells apart from its output. -/
def Outcome.errors (environment : Environment) (o : Outcome) : Text :=
  o.notice ++ shownLog environment o.log

/-- A failing request: the failure is reported with what it concerns, or else ends the program. -/
def Outcome.failed (activity subject : Text) (log : List LogLine) (e : Failure) : Outcome :=
  if e.isReported then
    { exit := .ok 1
      log := log ++
        [told .error ("Failed to " ++ activity ++ " " ++ subject ++ ": " ++ e.message)] }
  else { exit := .error e, log }

/-- The text with one form of line ends. -/
def unixLines : Text → Text
  | .char '\r' :: .char '\n' :: rest => .char '\n' :: unixLines rest
  | .char '\r' :: rest => .char '\n' :: unixLines rest
  | c :: rest => c :: unixLines rest
  | [] => []

def fileText (bytes : List UInt8) : Except Failure Text :=
  ((Utf8.decode bytes).mapError .decoding).map unixLines

/-- What is told of a document that is read. -/
def loaded (path document : Text) : LogLine :=
  ⟨"component_spec", .debug,
    "Loaded component document from " ++ path ++ " (" ++ Text.ofNat document.length ++ " bytes)"⟩

/-- What is told of parameters that are resolved. -/
def resolved (count : Nat) : LogLine :=
  ⟨"parameter_resolver", .debug,
    "Resolved " ++ Text.ofNat count ++ " parameter(s) for component"⟩

/-- The document of a pod for the document of a component, and what is told on the way. -/
def renderDocument (formatName : Text) (supplied : Bindings) (path document : Text) :
    List LogLine × Except Failure Text :=
  match Component.ofText document with
  | .error e => ([loaded path document], .error (.reading e))
  | .ok c =>
    let log :=
      match c.effectiveValues supplied with
      | .ok values => [loaded path document, resolved values.length]
      | .error _ => [loaded path document]
    (log, (c.renderPod supplied formatName).mapError .rendering)

/-- The document of a pod for the bytes of a component file, and what is told on the way. -/
def renderBytes (formatName : Text) (supplied : Bindings) (path : Text) (bytes : List UInt8) :
    List LogLine × Except Failure Text :=
  match fileText bytes with
  | .error e => ([], .error e)
  | .ok document => renderDocument formatName supplied path document

variable {m : Type → Type} [Monad m] [Files m]

/-- Make the directory that a path lies in. A text that is no path is a failure of its own. -/
def makeParents (path : Text) : m (Except Failure Unit) := do
  match FilePath.fault? (FilePath.parent path) with
  | some f => return .error (.path f)
  | none => return (← Files.makeParents path).mapError .file

/-- Write a document to a file. What is at the path is emptied before the document is written. -/
def writeDocument (path document : Text) : m (Except Failure Unit) := do
  match FilePath.fault? (FilePath.normal path) with
  | some f => return .error (.path f)
  | none =>
    match Utf8.encodeText document with
    | .ok bytes => return (← Files.write path bytes).mapError .file
    | .error u => return ((← Files.write path []).mapError .file).bind fun _ => .error (.writing u)

/-- Write a document to a file, or to the output when no file is named. -/
def deliver (target : Option Text) (log : List LogLine) (document : Text) : m Outcome := do
  match target with
  | none | some [] => return { exit := .ok 0, output := document, log }
  | some path =>
    match ← makeParents path with
    | .error e => return .failed "write" path log e
    | .ok () =>
      match ← writeDocument path document with
      | .error e => return .failed "write" path log e
      | .ok () =>
        return { exit := .ok 0, log := log ++ [told .info ("Pod spec written to " ++ path)] }

/-- Something is at a path. Nothing is where a text is no path. -/
def isThere (path : Text) : m (Except FileError Bool) :=
  match FilePath.fault? (FilePath.normal path) with
  | some _ => return .ok false
  | none => Files.isThere path

def RenderRequest.formatName (environment : Environment) (r : RenderRequest) : Text :=
  (r.format.or environment.renderFormat).getD "yaml"

/-- Render a component file. -/
def render (environment : Environment) (r : RenderRequest) : m Outcome := do
  let path := r.component
  match ← isThere path with
  | .error e => return { exit := .error (.file e) }
  | .ok false =>
    return { exit := .ok 1, log := [told .critical ("Component file not found: " ++ path)] }
  | .ok true =>
    match assignments r.params with
    | .error e => return .failed "render" path [] (.assignment e)
    | .ok supplied =>
      match ← Files.read path with
      | .error e => return .failed "render" path [] (.file e)
      | .ok bytes =>
        match renderBytes (r.formatName environment) supplied path bytes with
        | (log, .error e) => return .failed "render" path log e
        | (log, .ok document) => deliver r.output log document

/-- Take a full name apart. -/
def splitName (value : Text) : Outcome :=
  match GroupVersionKind.parse value with
  | .error e =>
    { exit := .ok 1
      log := [told .error ("Invalid GroupVersionKind '" ++ value ++ "': " ++ e.message)] }
  | .ok g =>
    { exit := .ok 0
      output := "group=" ++ g.group ++ "\nversion=" ++ g.version ++ "\nkind=" ++ g.kind ++ "\n" }

/-- What comes of a command line that is no request. -/
def Stop.outcome : Stop → Outcome
  | .help g => { exit := .ok 0, output := g.help }
  | .misuse g e =>
    { exit := .ok 2, notice := g.usage ++ g.call ++ ": error: " ++ e.message ++ "\n" }

/-- Run the program for a command line. -/
def run (environment : Environment) (line : List Text) : m Outcome :=
  match request line with
  | .error stop => return stop.outcome
  | .ok (.gvk value) => return splitName value
  | .ok (.render r) => render environment r

end Schematic.CommandLine
