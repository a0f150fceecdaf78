import Schematic.Calendar
import Schematic.Text.Quoted
import Schematic.Text.Utf8
import Schematic.Yaml.Token

/-!
# Faults of YAML documents

A document is refused for a problem at a place, often in a context that started at another place;
the message shows both lines. Apart from that, a scalar may look like a number or a date and fail to
become one: such a failure carries no place, and is a type of its own.
-/

namespace Schematic.Yaml

/-- The stage of reading that finds a problem. -/
inductive Stage where
  | tokens
  | grammar
  | nodes
  | values
  deriving DecidableEq

/-- What the reader was doing. -/
inductive Context where
  | nextToken
  | simpleKey
  | directive
  | anchor
  | alias
  | tag
  | uriOf (inDirective : Bool)
  | blockScalar
  | quotedScalar
  | doubleQuotedScalar
  | node
  | blockNode
  | flowNode
  | blockCollection
  | blockMapping
  | flowSequence
  | flowMapping
  | singleDocument
  | firstAnchor (name : Text)
  | mapping
  | orderedMap
  | pairs
  deriving DecidableEq

def Context.text : Context → Text
  | .nextToken => "while scanning for the next token"
  | .simpleKey => "while scanning a simple key"
  | .directive => "while scanning a directive"
  | .anchor => "while scanning an anchor"
  | .alias => "while scanning an alias"
  | .tag => "while scanning a tag"
  | .uriOf inDirective => if inDirective then "while parsing a directive" else "while parsing a tag"
  | .blockScalar => "while scanning a block scalar"
  | .quotedScalar => "while scanning a quoted scalar"
  | .doubleQuotedScalar => "while scanning a double-quoted scalar"
  | .node => "while parsing a node"
  | .blockNode => "while parsing a block node"
  | .flowNode => "while parsing a flow node"
  | .blockCollection => "while parsing a block collection"
  | .blockMapping => "while parsing a block mapping"
  | .flowSequence => "while parsing a flow sequence"
  | .flowMapping => "while parsing a flow mapping"
  | .singleDocument => "expected a single document in the stream"
  | .firstAnchor name => "found duplicate anchor " ++ name.quoted ++ "; first occurrence"
  | .mapping => "while constructing a mapping"
  | .orderedMap => "while constructing an ordered map"
  | .pairs => "while constructing pairs"

/-- The three forms of a node. -/
inductive Form where
  | scalar
  | sequence
  | mapping
  deriving DecidableEq

def Form.name : Form → Text
  | .scalar => "scalar"
  | .sequence => "sequence"
  | .mapping => "mapping"

/-- What is wrong with a document. The `found` of a problem is the next character, if there is
one. -/
inductive Problem where
  | noToken (c : Char)
  | noColon
  | entryNotAllowed
  | keyNotAllowed
  | valueNotAllowed
  | expectedNameCharacter (found : Option Char)
  | expectedDigit (found : Option Char)
  | expectedDigitOr (separator : Char) (found : Option Char)
  | expectedCharacter (expected : Char) (found : Option Char)
  | expectedLineEnd (found : Option Char)
  | expectedUri (found : Option Char)
  | expectedUriEscape (found : Option Char)
  | uriBytes (e : Utf8.Error)
  | zeroIndentation
  | expectedIndicators (found : Option Char)
  | expectedHexDigits (count : Nat) (found : Option Char)
  | unknownEscape (found : Option Char)
  | endInQuotes
  | markerInQuotes
  | expectedDocumentStart (found : Text)
  | secondVersion
  | otherVersion
  | secondHandle (handle : Text)
  | undefinedHandle (handle : Text)
  | expectedContent (found : Text)
  | expectedBlockEnd (found : Text)
  | expectedSequenceEnd (found : Text)
  | expectedMappingEnd (found : Text)
  | anotherDocument
  | undefinedAlias (name : Text)
  | secondAnchor
  | unknownTag (tag : Text)
  | expectedNode (form found : Form)
  | expectedMerge (found : Form)
  | expectedMergeMapping (found : Form)
  | keyIsCollection
  | expectedSequence (found : Form)
  | expectedSingleMapping (found : Form)
  | expectedSingleEntry (count : Nat)
  | binaryNotAscii (run : Text) (position : Nat)
  | binaryPadding
  | binaryLength (count : Nat)
  | recursiveNode
  deriving DecidableEq

/-- The next character in quotes; the end of a document shows as the character 0. -/
def foundText (found : Option Char) : Text :=
  Text.quoted [.char (found.getD '\x00')]

/-- The wording of a run of characters that are not ASCII. -/
def notAsciiText (run : Text) (position : Nat) : Text :=
  let place : Text :=
    match run with
    | [c] => "character '" ++ Text.numericEscape c.value ++ "' in position " ++ Text.ofNat position
    | _ =>
      "characters in position " ++ Text.ofNat position ++ "-"
        ++ Text.ofNat (position + run.length - 1)
  "'ascii' codec can't encode " ++ place ++ ": ordinal not in range(128)"

def Problem.text : Problem → Text
  | .noToken c => "found character " ++ foundText (some c) ++ " that cannot start any token"
  | .noColon => "could not find expected ':'"
  | .entryNotAllowed => "sequence entries are not allowed here"
  | .keyNotAllowed => "mapping keys are not allowed here"
  | .valueNotAllowed => "mapping values are not allowed here"
  | .expectedNameCharacter found =>
    "expected alphabetic or numeric character, but found " ++ foundText found
  | .expectedDigit found => "expected a digit, but found " ++ foundText found
  | .expectedDigitOr separator found =>
    "expected a digit or '" ++ Text.ofChars [separator] ++ "', but found " ++ foundText found
  | .expectedCharacter expected found =>
    "expected '" ++ Text.ofChars [expected] ++ "', but found " ++ foundText found
  | .expectedLineEnd found => "expected a comment or a line break, but found " ++ foundText found
  | .expectedUri found => "expected URI, but found " ++ foundText found
  | .expectedUriEscape found =>
    "expected URI escape sequence of 2 hexadecimal numbers, but found " ++ foundText found
  | .uriBytes e => e.message
  | .zeroIndentation => "expected indentation indicator in the range 1-9, but found 0"
  | .expectedIndicators found =>
    "expected chomping or indentation indicators, but found " ++ foundText found
  | .expectedHexDigits count found =>
    "expected escape sequence of " ++ Text.ofNat count ++ " hexadecimal numbers, but found "
      ++ foundText found
  | .unknownEscape found => "found unknown escape character " ++ foundText found
  | .endInQuotes => "found unexpected end of stream"
  | .markerInQuotes => "found unexpected document separator"
  | .expectedDocumentStart found => "expected '<document start>', but found " ++ found.quoted
  | .secondVersion => "found duplicate YAML directive"
  | .otherVersion => "found incompatible YAML document (version 1.* is required)"
  | .secondHandle handle => "duplicate tag handle " ++ handle.quoted
  | .undefinedHandle handle => "found undefined tag handle " ++ handle.quoted
  | .expectedContent found => "expected the node content, but found " ++ found.quoted
  | .expectedBlockEnd found => "expected <block end>, but found " ++ found.quoted
  | .expectedSequenceEnd found => "expected ',' or ']', but got " ++ found.quoted
  | .expectedMappingEnd found => "expected ',' or '\x7d', but got " ++ found.quoted
  | .anotherDocument => "but found another document"
  | .undefinedAlias name => "found undefined alias " ++ name.quoted
  | .secondAnchor => "second occurrence"
  | .unknownTag tag => "could not determine a constructor for the tag " ++ tag.quoted
  | .expectedNode form found => "expected a " ++ form.name ++ " node, but found " ++ found.name
  | .expectedMerge found =>
    "expected a mapping or list of mappings for merging, but found " ++ found.name
  | .expectedMergeMapping found => "expected a mapping for merging, but found " ++ found.name
  | .keyIsCollection => "found unhashable key"
  | .expectedSequence found => "expected a sequence, but found " ++ found.name
  | .expectedSingleMapping found => "expected a mapping of length 1, but found " ++ found.name
  | .expectedSingleEntry count =>
    "expected a single mapping item, but found " ++ Text.ofNat count ++ " items"
  | .binaryNotAscii run position =>
    "failed to convert base64 data into ascii: " ++ notAsciiText run position
  | .binaryPadding => "failed to decode base64 data: Incorrect padding"
  | .binaryLength count =>
    "failed to decode base64 data: Invalid base64-encoded string: number of data characters ("
      ++ Text.ofNat count ++ ") cannot be 1 more than a multiple of 4"
  | .recursiveNode => "found unconstructable recursive node"

/-- Why a document is refused. -/
inductive Error where
  /-- A code point that no document may hold. -/
  | unacceptable (c : CodePoint) (position : Nat)
  /-- A problem at a place, in a context that may have a place of its own. -/
  | at (stage : Stage) (context : Option Context) (since : Option Mark) (problem : Problem)
      (mark : Mark)

/-- Why a scalar does not become the number, the date or the character that it looks like. -/
inductive ConversionError where
  | notInteger (base : Nat) (numeral : Text)
  | tooManyDigits (count : Nat)
  | notNumber (numeral : Text)
  | tooLarge
  | emptyNumeral
  | noTruth (word : Text)
  | noTimestamp
  | timestampOfMapping
  | noCodePoint
  | codePointTooLarge
  | calendar (e : CalendarError)
  deriving DecidableEq

/-- Why a document gives no value. -/
inductive Failure where
  | refused (e : Error)
  | unconverted (e : ConversionError)

/-! ### Messages -/

/-- Half the width of the part of a line that a message shows, less the character itself. -/
def snippetReach : Nat := 36

/-- The part of a line before a place, and whether it was cut. A cut keeps five characters less than
were looked at, which the dots replace. -/
def snippetBefore (before : List Char) : List Char × Bool :=
  let line := before.reverse.takeWhile fun c => !isBreak c
  if snippetReach < line.length then ((line.take (snippetReach + 1 - 5)).reverse, true)
  else (line.reverse, false)

/-- The part of a line from a place on, and whether it was cut. -/
def snippetAfter (after : List Char) : List Char × Bool :=
  let line := after.takeWhile fun c => !isBreak c
  if snippetReach < line.length then (line.take (snippetReach + 1 - 5), true) else (line, false)

/-- The line of a place, with a caret under the place. -/
def Mark.snippet (document : List Char) (m : Mark) : Text :=
  let (before, cutBefore) := snippetBefore (document.take m.index)
  let (after, cutAfter) := snippetAfter (document.drop m.index)
  let dots (cut : Bool) : Text := if cut then " ... " else []
  let start := dots cutBefore ++ Text.ofChars before
  Text.spaces 4 ++ start ++ Text.ofChars after ++ dots cutAfter ++ "\n"
    ++ Text.spaces (4 + start.length) ++ "^"

def Mark.text (document : List Char) (m : Mark) : Text :=
  "  in \"<unicode string>\", line " ++ Text.ofNat (m.line + 1) ++ ", column "
    ++ Text.ofNat (m.column + 1) ++ ":\n" ++ m.snippet document

/-- The message of an error in a document. The place of the context is left out when the problem has
the same one. -/
def Error.message (document : Text) : Error → Text
  | .unacceptable c position =>
    "unacceptable character #x" ++ Text.hex 4 c.value
      ++ ": special characters are not allowed\n  in \"<unicode string>\", position "
      ++ Text.ofNat position
  | .at _ context since problem mark =>
    let cs := (document.chars?).getD []
    let contextLines := (context.map fun c => [c.text]).getD []
    let sinceLines :=
      match since with
      | some m => if m.sameSpot mark then [] else [m.text cs]
      | none => []
    Text.join "\n" (contextLines ++ sinceLines ++ [problem.text, mark.text cs])

/-- The message of a scalar that does not convert. -/
def ConversionError.message : ConversionError → Text
  | .notInteger base numeral =>
    "invalid literal for int() with base " ++ Text.ofNat base ++ ": " ++ numeral.quoted.take 200
  | .tooManyDigits count =>
    "Exceeds the limit (4300 digits) for integer string conversion: value has " ++ Text.ofNat count
      ++ " digits; use sys.set_int_max_str_digits() to increase the limit"
  | .notNumber numeral => "could not convert string to float: " ++ numeral.quoted
  | .tooLarge => "int too large to convert to float"
  | .emptyNumeral => "string index out of range"
  | .noTruth word => word.quoted
  | .noTimestamp => "'NoneType' object has no attribute 'groupdict'"
  | .timestampOfMapping => "expected string or bytes-like object, got 'list'"
  | .noCodePoint => "chr() arg not in range(0x110000)"
  | .codePointTooLarge => "Python int too large to convert to C int"
  | .calendar e => e.message

end Schematic.Yaml
