import Schematic.Text.Utf8

/-!
# Addresses

The path and the query of an address, with their escapes taken back. An escape is a percent sign
with the two hexadecimal digits of a byte; bytes that are no UTF-8 become replacement characters.
-/

namespace Schematic.Http

/-- The bytes of a text in which escapes stand for bytes. -/
def unescapedBytes : Text → List UInt8
  | .char '%' :: a :: b :: rest =>
    match a.hexDigit?, b.hexDigit? with
    | some m, some n => UInt8.ofNat (m * 16 + n) :: unescapedBytes rest
    | _, _ => Utf8.encodeChar '%' ++ unescapedBytes (a :: b :: rest)
  | .char c :: rest => Utf8.encodeChar c ++ unescapedBytes rest
  | .lone _ :: rest => unescapedBytes rest
  | [] => []

def unescaped (t : Text) : Text :=
  let bytes := unescapedBytes t
  Utf8.decodeLossy (bytes.length + 1) bytes

/-- A name or a value of a query: a plus sign is a blank. -/
def queryPart (t : Text) : Text :=
  unescaped (t.map fun c => if c = .char '+' then .char ' ' else c)

/-- A name and its value, which is empty when there is no equals sign. -/
def queryPair (t : Text) : Text × Text :=
  match Text.splitFirst? (.char '=') t with
  | some (name, value) => (queryPart name, queryPart value)
  | none => (queryPart t, [])

def queryPairs (t : Text) : List (Text × Text) :=
  ((Text.splitAll (.char '&') t).filter (!·.isEmpty)).map queryPair

/-- The parts of a path after the steps to where it is and to what is above are taken. -/
def settledParts (parts : List Text) : List Text :=
  parts.foldl (fun done part =>
    if part = Text.ofString "." then done
    else if part = Text.ofString ".." then if done = [[]] then done else done.dropLast
    else done ++ [part]) []

/-- A path without steps to where it is and to what is above, from the root on. -/
def settledPath (path : Text) : Text :=
  let rooted : Text := if path.startsWith "/" then path else "/" ++ path
  Text.join "/" (settledParts (Text.splitAll (.char '/') rooted))

def address (t : Text) : Text × List (Text × Text) :=
  let beforeFragment := t.takeWhile (· != .char '#')
  match Text.splitFirst? (.char '?') beforeFragment with
  | some (path, query) => (unescaped (settledPath path), queryPairs query)
  | none => (unescaped (settledPath beforeFragment), [])

end Schematic.Http
