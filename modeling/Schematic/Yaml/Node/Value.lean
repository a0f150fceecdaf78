import Schematic.Yaml.Node
import Schematic.Yaml.Scalar

/-!
# Values of nodes

A document's value is built in rounds. A scalar has its value at once; a collection is made empty
and filled in the next round, when all collections that were made before it are filled. Which of
several faults is reported depends on that order: the one of the earliest round, and of several in
one round the leftmost. So the value of each part is built together with the round of its first
fault, counted from the round in which the part itself is made.

The entries of a mapping under the key `<<` are put before the mapping's own ones.
-/

namespace Schematic.Yaml

/-- A fault with the round that it comes up in. -/
structure Fault where
  round : Nat
  failure : Failure

/-- A value, or the first fault in building it. -/
abbrev Built (α : Type) := Except Fault α

namespace Built

/-- Two parts that are made in one round, of which the first is made first. -/
def both {α β : Type} : Built α → Built β → Built (α × β)
  | .ok a, .ok b => .ok (a, b)
  | .error e, .ok _ => .error e
  | .ok _, .error f => .error f
  | .error e, .error f => .error (if f.round < e.round then f else e)

/-- A list of parts that are made in one round. -/
def all {α : Type} : List (Built α) → Built (List α)
  | [] => .ok []
  | p :: ps => (both p (all ps)).map fun (a, as) => a :: as

/-- A part that is made in the next round. -/
def later {α : Type} : Built α → Built α
  | .ok a => .ok a
  | .error e => .error ⟨e.round + 1, e.failure⟩

/-- A part that is made without rounds of its own. -/
def now {α : Type} : Except Failure α → Built α
  | .ok a => .ok a
  | .error f => .error ⟨0, f⟩

end Built

/-- Refuse a document while its values are built. -/
def refuseValue {α : Type} (context : Option Context) (since : Option Mark) (problem : Problem)
    (mark : Mark) : Except Failure α :=
  .error (.refused (.at .values context since problem mark))

def Tag.isCollection : Tag → Bool
  | .sequence | .mapping | .set | .orderedMap | .pairs => true
  | _ => false

/-- Values of this tag are read from the content of a scalar. -/
def Tag.isScalar : Tag → Bool
  | .null | .bool | .int | .float | .binary | .timestamp | .text => true
  | _ => false

/-- An entry of a mapping with its parts built. -/
structure BuiltEntry where
  key : Built Value
  value : Built Value

/-- A key of this tag in a mapping that starts at a place: collections are refused as keys, before
they are filled. -/
def checkedKey (tag : Tag) (mapping start : Mark) (key : Built Value) : Built Value :=
  match key with
  | .error ⟨0, f⟩ => .error ⟨0, f⟩
  | key =>
    if tag.isCollection then
      .now (refuseValue (some .mapping) (some mapping) .keyIsCollection start)
    else key

/-- A node that is not of the form that its tag asks for. -/
def misplaced (tag : Tag) (found : Form) (start : Mark) : Built Value :=
  match tag with
  | .sequence => .later (.now (refuseValue none none (.expectedNode .sequence found) start))
  | .mapping | .set => .later (.now (refuseValue none none (.expectedNode .mapping found) start))
  | .orderedMap =>
    .later (.now (refuseValue (some .orderedMap) (some start) (.expectedSequence found) start))
  | .pairs => .later (.now (refuseValue (some .pairs) (some start) (.expectedSequence found) start))
  | .merge | .value | .other _ => .now (refuseValue none none (.unknownTag tag.name) start)
  | _ => .now (refuseValue none none (.expectedNode .scalar found) start)

def scalarValue (tag : Tag) (content : Text) (start : Mark) : Built Value :=
  match Scalar.value? tag content start with
  | some r => .now r
  | none => misplaced tag .scalar start

/-- The content of a node as a scalar, or the form and the place of the node that has none. -/
abbrev Content := Except (Form × Mark) Text

/-- The value of a mapping under a tag, given the content that stands for it. -/
def contentValue (tag : Tag) (content : Content) (start : Mark) : Built Value :=
  if tag.isScalar then
    match content with
    | .error (found, place) => misplaced tag found place
    | .ok t =>
      if tag = .timestamp then .now (.error (.unconverted .timestampOfMapping))
      else scalarValue tag t start
  else misplaced tag .mapping start

/-- The value of a key with the tag for `=`, which is read as a text. -/
def textKey : Content → Built Value
  | .ok t => .ok (.text t)
  | .error (found, place) => misplaced .text found place

/-- A list of pairs from items that are single entries; `context` names the collection that starts
at a place. -/
def singleEntry (context : Context) (collection : Mark) (found : Form) (start : Mark)
    (entries : List BuiltEntry) : Built Value :=
  match found, entries with
  | .mapping, [e] => (Built.both e.key e.value).map fun (k, v) => .tuple [k, v]
  | .mapping, es =>
    .now (refuseValue (some context) (some collection) (.expectedSingleEntry es.length) start)
  | found, _ =>
    .now (refuseValue (some context) (some collection) (.expectedSingleMapping found) start)

/-- The entries of a mapping after merging: the merged ones, and then its own. -/
structure Entries where
  merged : List BuiltEntry
  own : List BuiltEntry

def Entries.toList (es : Entries) : List BuiltEntry := es.merged ++ es.own

def mapOf (entries : Except Failure Entries) : Built Value :=
  match entries with
  | .error f => .now (.error f)
  | .ok es => (Built.all (es.toList.map fun e => .both e.key e.value)).map Value.ofEntries

def setOf (entries : Except Failure Entries) : Built Value :=
  match entries with
  | .error f => .now (.error f)
  | .ok es =>
    (Built.all (es.toList.map fun e => .both e.key e.value)).map fun pairs =>
      .set (pairs.foldl (fun members e => Value.insert e.1 members) [])

mutual

def Node.build : Node → Built Value
  | .scalar tag content start => scalarValue tag content start
  | .sequence tag items start =>
    match tag with
    | .sequence => .later ((Built.all (buildItems items)).map Value.list)
    | .orderedMap => .later ((Built.all (buildPairs .orderedMap start items)).map Value.list)
    | .pairs => .later ((Built.all (buildPairs .pairs start items)).map Value.list)
    | tag => misplaced tag .sequence start
  | .mapping tag entries start =>
    match tag with
    | .mapping => .later (mapOf (buildEntries start start entries))
    | .set => .later (setOf (buildEntries start start entries))
    | tag => contentValue tag ((contentOf? entries).getD (.error (.mapping, start))) start

def buildItems : List Node → List (Built Value)
  | [] => []
  | n :: ns => n.build :: buildItems ns

/-- The content of a node: a mapping stands for what it binds to the key `=`. -/
def Node.content : Node → Content
  | .scalar _ content _ => .ok content
  | .sequence _ _ start => .error (.sequence, start)
  | .mapping _ entries start => (contentOf? entries).getD (.error (.mapping, start))

/-- The content of what entries bind to the key `=`. -/
def contentOf? : List (Node × Node) → Option Content
  | [] => none
  | (key, value) :: rest => if key.tag = .value then some value.content else contentOf? rest

/-- The values of the items of a list of pairs. -/
def buildPairs (context : Context) (collection : Mark) : List Node → List (Built Value)
  | [] => []
  | n :: ns =>
    let entries := match n with
      | .mapping _ entries _ => buildPlain entries
      | _ => []
    singleEntry context collection n.form n.start entries :: buildPairs context collection ns

def buildPlain : List (Node × Node) → List BuiltEntry
  | [] => []
  | (key, value) :: rest => ⟨key.build, value.build⟩ :: buildPlain rest

/-- The entries of a mapping, after merging. `start` is where it starts, and `outer` where the
mapping starts that it is built for: these differ when its entries are taken over. -/
def buildEntries (outer start : Mark) : List (Node × Node) → Except Failure Entries
  | [] => .ok ⟨[], []⟩
  | (key, value) :: rest =>
    if key.tag = .merge then do
      let first ← mergedEntries outer start value
      let es ← buildEntries outer start rest
      return { es with merged := first ++ es.merged }
    else do
      let es ← buildEntries outer start rest
      let built :=
        if key.tag = .value then textKey key.content
        else checkedKey key.tag outer key.start key.build
      return { es with own := ⟨built, value.build⟩ :: es.own }

/-- The entries that a mapping takes over from a node: another mapping, or a list of them, of which
the last one comes first. -/
def mergedEntries (outer start : Mark) : Node → Except Failure (List BuiltEntry)
  | .mapping _ entries inner => (buildEntries outer inner entries).map Entries.toList
  | .sequence _ items _ => mergedItems outer start items
  | .scalar _ _ place =>
    refuseValue (some .mapping) (some start) (.expectedMerge .scalar) place

/-- The entries that a mapping takes over from a list of mappings. -/
def mergedItems (outer start : Mark) : List Node → Except Failure (List BuiltEntry)
  | [] => .ok []
  | n :: ns =>
    match n with
    | .mapping _ entries inner => do
      let first ← buildEntries outer inner entries
      let others ← mergedItems outer start ns
      return others ++ first.toList
    | n =>
      refuseValue (some .mapping) (some start) (.expectedMergeMapping n.form) n.start

end

def Node.value (n : Node) : Except Failure Value := n.build.mapError Fault.failure

end Schematic.Yaml
