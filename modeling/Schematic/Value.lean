import Schematic.Calendar
import Schematic.Double

/-!
# Values

What a document can hold. Besides plain data there are bytes, dates, times, tuples and sets, and the
keys of a map may be any value that is not a collection. A map keeps its entries in the order in
which their keys first came. Values are finite trees: no collection holds itself.

`Value.same` is the equality under which keys collide and components are compared: a truth value is
the number 0 or 1, and a floating-point number may be an integer.
-/

namespace Schematic

/-- A value of a document. -/
inductive Value where
  | null
  | bool (b : Bool)
  | int (n : Int)
  | float (x : Double)
  | text (t : Text)
  | bytes (bs : List UInt8)
  | date (d : Date)
  | dateTime (t : DateTime)
  | list (vs : List Value)
  | tuple (vs : List Value)
  | set (vs : List Value)
  | map (entries : List (Value × Value))

instance : Inhabited Value := ⟨.null⟩

namespace Value

/-- The word for the kind of a value in messages. -/
def kindName : Value → Text
  | .null => "NoneType"
  | .bool _ => "bool"
  | .int _ => "int"
  | .float _ => "float"
  | .text _ => "str"
  | .bytes _ => "bytes"
  | .date _ => "date"
  | .dateTime _ => "datetime"
  | .list _ => "list"
  | .tuple _ => "tuple"
  | .set _ => "set"
  | .map _ => "dict"

def isNull : Value → Bool
  | .null => true
  | _ => false

/-- The value may be a key. -/
def isKey : Value → Bool
  | .list _ | .set _ | .map _ => false
  | _ => true

/-- The integer that a truth value or an integer stands for. -/
def integer? : Value → Option Int
  | .bool b => some (if b then 1 else 0)
  | .int n => some n
  | _ => none

/-- Two values that are no collections are the same. -/
def sameScalar (v w : Value) : Bool :=
  match v.integer?, w.integer? with
  | some m, some n => m == n
  | some m, none => match w with | .float x => x.isInt m | _ => false
  | none, some n => match v with | .float x => x.isInt n | _ => false
  | none, none =>
    match v, w with
    | .null, .null => true
    | .float x, .float y => x.same y
    | .text t, .text u => t == u
    | .bytes a, .bytes b => a == b
    | .date d, .date e => d == e
    | .dateTime s, .dateTime t => s.same t
    | _, _ => false

mutual

/-- Two values are the same. -/
def same : Value → Value → Bool
  | .list vs, w => match w with | .list ws => sameList vs ws | _ => false
  | .tuple vs, w => match w with | .tuple ws => sameList vs ws | _ => false
  | .set vs, w =>
    match w with
    | .set ws => vs.length == ws.length && allMembers vs ws
    | _ => false
  | .map es, w =>
    match w with
    | .map fs => es.length == fs.length && allEntries es fs
    | _ => false
  | v, w => v.sameScalar w

/-- Two lists are the same, place by place. -/
def sameList : List Value → List Value → Bool
  | [], [] => true
  | v :: vs, w :: ws => v.same w && sameList vs ws
  | _, _ => false

/-- Every value of the first list is in the second. -/
def allMembers : List Value → List Value → Bool
  | [], _ => true
  | v :: vs, ws => ws.any (fun w => v.same w) && allMembers vs ws

/-- Every entry of the first list is in the second. -/
def allEntries : List (Value × Value) → List (Value × Value) → Bool
  | [], _ => true
  | (k, v) :: es, fs => fs.any (fun f => k.same f.1 && v.same f.2) && allEntries es fs

end

/-- The entries after a key is bound to a value: a key that is there keeps its place and its
form. -/
def bind (key value : Value) : List (Value × Value) → List (Value × Value)
  | [] => [(key, value)]
  | (k, v) :: rest => if k.same key then (k, value) :: rest else (k, v) :: bind key value rest

/-- The map of entries that are bound one after another. -/
def ofEntries (entries : List (Value × Value)) : Value :=
  .map (entries.foldl (fun es e => bind e.1 e.2 es) [])

/-- The members after a value is put into a set. -/
def insert (value : Value) (members : List Value) : List Value :=
  if members.any (·.same value) then members else members ++ [value]

/-- The value that a map binds to a text. -/
def get? (name : Text) (entries : List (Value × Value)) : Option Value :=
  (entries.find? fun e => e.1.same (.text name)).map (·.2)

end Value

end Schematic
