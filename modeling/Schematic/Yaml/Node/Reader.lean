import Schematic.Yaml.Node
import Schematic.Yaml.Token.Reader

/-!
# Reading nodes

The grammar of YAML over its tokens. A reader takes tokens from a state, which also holds the
handles of tags and the anchors of the document; an anchor is known from the start of its node on,
and has a node once that is complete. The functions of the grammar call one another with less fuel
each time; as each loop takes a token, a multiple of the number of tokens is enough.

Nodes and values are finite trees. A document in which an alias stands inside the node of its own
anchor would have a value that holds itself; such documents are outside of this development, and the
reader refuses them.
-/

namespace Schematic.Yaml

/-- An anchor: where its node starts, and the node once it is complete. -/
structure Anchor where
  name : Text
  start : Mark
  node : Option Node

/-- What a reader of nodes works on. -/
structure NodeState where
  tokens : Tokens
  handles : List (Text × Text)
  anchors : List Anchor

/-- A reader of nodes. -/
abbrev NodeReader := StateT NodeState (Except Failure)

namespace NodeReader

/-- The handles that every document knows. -/
def commonHandles : List (Text × Text) := [("!", "!"), ("!!", Tag.commonStart)]

def peek : NodeReader Token := do (← get).tokens.peek

/-- Take the next token. -/
def skip : NodeReader Unit := modify fun s => { s with tokens := s.tokens.tail }

def refuse {α : Type} (context : Option Context) (since : Option Mark) (problem : Problem)
    (mark : Mark) : NodeReader α :=
  throw (.refused (.at .grammar context since problem mark))

def refuseNode {α : Type} (context : Option Context) (since : Option Mark) (problem : Problem)
    (mark : Mark) : NodeReader α :=
  throw (.refused (.at .nodes context since problem mark))

/-! ### Properties of nodes -/

/-- What stands before a node: an anchor and a tag in either order, and the place where the first of
them starts. -/
structure Properties where
  anchor : Option Text
  tag : Option Text
  start : Option Mark

/-- The name of a tag by its handle; a tag without a handle is written in full. -/
def tagName (start : Mark) (mark : Mark) (handle : Option Text) (suffix : Text) :
    NodeReader Text := do
  match handle with
  | none => return suffix
  | some handle =>
    match (← get).handles.lookup handle with
    | some meaning => return meaning ++ suffix
    | none => refuse (some .node) (some start) (.undefinedHandle handle) mark

/-- The anchor and the tag before a node. -/
def properties : NodeReader Properties := do
  let t ← peek
  match t.word with
  | .anchor name =>
    skip
    let u ← peek
    match u.word with
    | .tag handle suffix =>
      skip
      return ⟨some name, some (← tagName t.start u.start handle suffix), some t.start⟩
    | _ => return ⟨some name, none, some t.start⟩
  | .tag handle suffix =>
    skip
    let u ← peek
    match u.word with
    | .anchor name =>
      skip
      return ⟨some name, some (← tagName t.start t.start handle suffix), some t.start⟩
    | _ => return ⟨none, some (← tagName t.start t.start handle suffix), some t.start⟩
  | _ => return ⟨none, none, none⟩

/-- Make an anchor known; a document knows each name once. -/
def openAnchor (name : Option Text) (start : Mark) : NodeReader Unit := do
  if let some name := name then
    match (← get).anchors.find? fun a => a.name == name with
    | some first =>
      refuseNode (some (.firstAnchor name)) (some first.start) .secondAnchor start
    | none => modify fun s => { s with anchors := ⟨name, start, none⟩ :: s.anchors }

/-- Give an anchor its node. -/
def closeAnchor (name : Option Text) (node : Node) : NodeReader Node := do
  if let some name := name then
    modify fun s =>
      { s with anchors := s.anchors.map fun a =>
          if a.name = name then { a with node := some node } else a }
  return node

/-- The node of an alias. An alias inside the node of its own anchor is refused, as no finite tree
stands for it. -/
def aliased (name : Text) (mark : Mark) : NodeReader Node := do
  match (← get).anchors.find? fun a => a.name == name with
  | none => refuseNode none none (.undefinedAlias name) mark
  | some ⟨_, _, some node⟩ => return node
  | some ⟨_, start, none⟩ => refuseNode none none .recursiveNode start

/-- The tag of a collection: `!` alone asks for the usual one. -/
def collectionTag (usual : Tag) (tag : Option Text) : Tag :=
  match tag with
  | none => usual
  | some name => if name = "!" then usual else .ofName name

/-- The tag of a scalar. Without a tag, a plain scalar gets one by its spelling and any other is a
text; `!` alone asks for the spelling. -/
def scalarTag (tag : Option Text) (isPlain : Bool) (content : Text) : Tag :=
  match tag with
  | none => if isPlain then .ofPlain content else .text
  | some name => if name = "!" then .ofPlain content else .ofName name

/-- A scalar that takes no room. -/
def emptyScalar (mark : Mark) : Node := .scalar .null [] mark

/-! ### Collections -/

mutual

/-- A node. Block collections may start it where `block` is set, and a sequence without indentation
where `indentless` is set. -/
def node (block indentless : Bool) : Nat → NodeReader Node
  | 0 => return emptyScalar .origin
  | fuel + 1 => do
    let t ← peek
    if let .alias name := t.word then
      skip
      aliased name t.start
    else
      let p ← properties
      let t ← peek
      let start := p.start.getD t.start
      match t.word, block, indentless with
      | .blockEntry, _, true =>
        openAnchor p.anchor start
        let items ← indentlessItems fuel
        closeAnchor p.anchor (.sequence (collectionTag .sequence p.tag) items start)
      | .scalar content isPlain, _, _ =>
        skip
        openAnchor p.anchor start
        closeAnchor p.anchor (.scalar (scalarTag p.tag isPlain content) content start)
      | .flowSequenceStart, _, _ =>
        openAnchor p.anchor start
        skip
        let items ← flowItems t.start true fuel
        closeAnchor p.anchor (.sequence (collectionTag .sequence p.tag) items start)
      | .flowMappingStart, _, _ =>
        openAnchor p.anchor start
        skip
        let entries ← flowEntries t.start true fuel
        closeAnchor p.anchor (.mapping (collectionTag .mapping p.tag) entries start)
      | .blockSequenceStart, true, _ =>
        openAnchor p.anchor start
        skip
        let items ← blockItems t.start fuel
        closeAnchor p.anchor (.sequence (collectionTag .sequence p.tag) items start)
      | .blockMappingStart, true, _ =>
        openAnchor p.anchor start
        skip
        let entries ← blockEntries t.start fuel
        closeAnchor p.anchor (.mapping (collectionTag .mapping p.tag) entries start)
      | word, _, _ =>
        if p.start.isSome then
          openAnchor p.anchor start
          let tag : Tag :=
            match p.tag with
            | none => .null
            | some name => if name = "!" then .null else .ofName name
          closeAnchor p.anchor (.scalar tag [] start)
        else
          refuse (some (if block then .blockNode else .flowNode)) (some start)
            (.expectedContent word.name) t.start

/-- The items of a block sequence that starts at a place, up to its end. -/
def blockItems (since : Mark) : Nat → NodeReader (List Node)
  | 0 => return []
  | fuel + 1 => do
    let t ← peek
    match t.word with
    | .blockEntry =>
      skip
      let item ←
        match (← peek).word with
        | .blockEntry | .blockEnd => pure (emptyScalar t.stop)
        | _ => node true false fuel
      return item :: (← blockItems since fuel)
    | .blockEnd =>
      skip
      return []
    | word =>
      refuse (some .blockCollection) (some since) (.expectedBlockEnd word.name) t.start

/-- The items of a sequence that is indented no more than the mapping around it. -/
def indentlessItems : Nat → NodeReader (List Node)
  | 0 => return []
  | fuel + 1 => do
    let t ← peek
    match t.word with
    | .blockEntry =>
      skip
      let item ←
        match (← peek).word with
        | .blockEntry | .key | .value | .blockEnd => pure (emptyScalar t.stop)
        | _ => node true false fuel
      return item :: (← indentlessItems fuel)
    | _ => return []

/-- The key or the value of a block mapping after the token that announces it. -/
def blockPart (announced : Mark) : Nat → NodeReader Node
  | 0 => return emptyScalar announced
  | fuel + 1 => do
    match (← peek).word with
    | .key | .value | .blockEnd => return emptyScalar announced
    | _ => node true true fuel

/-- The value of a block mapping, which may be absent. -/
def blockValue : Nat → NodeReader Node
  | 0 => return emptyScalar .origin
  | fuel + 1 => do
    let t ← peek
    match t.word with
    | .value =>
      skip
      blockPart t.stop fuel
    | _ => return emptyScalar t.start

/-- The entries of a block mapping that starts at a place, up to its end. -/
def blockEntries (since : Mark) : Nat → NodeReader (List (Node × Node))
  | 0 => return []
  | fuel + 1 => do
    let t ← peek
    match t.word with
    | .key =>
      skip
      let key ← blockPart t.stop fuel
      let value ← blockValue fuel
      return (key, value) :: (← blockEntries since fuel)
    | .blockEnd =>
      skip
      return []
    | word =>
      refuse (some .blockMapping) (some since) (.expectedBlockEnd word.name) t.start

/-- The key of an entry of a flow collection after the token that announces it; `close` is the
bracket that ends the collection. -/
def flowKey (isClose : Word → Bool) (announced : Mark) : Nat → NodeReader Node
  | 0 => return emptyScalar announced
  | fuel + 1 => do
    let t ← peek
    match t.word with
    | .value | .flowEntry => return emptyScalar announced
    | word => if isClose word then return emptyScalar announced else node false false fuel

/-- The value of an entry of a flow collection, which may be absent. -/
def flowValue (isClose : Word → Bool) : Nat → NodeReader Node
  | 0 => return emptyScalar .origin
  | fuel + 1 => do
    let t ← peek
    match t.word with
    | .value =>
      skip
      match (← peek).word with
      | .flowEntry => return emptyScalar t.stop
      | word => if isClose word then return emptyScalar t.stop else node false false fuel
    | _ => return emptyScalar t.start

/-- The items of a flow sequence that starts at a place, up to its end; a comma stands before each
item but the first. An item may be a single entry of a mapping. -/
def flowItems (since : Mark) (isFirst : Bool) : Nat → NodeReader (List Node)
  | 0 => return []
  | fuel + 1 => do
    let t ← peek
    if let .flowSequenceEnd := t.word then
      skip
      return []
    else
      if !isFirst then
        match t.word with
        | .flowEntry => skip
        | word =>
          refuse (some .flowSequence) (some since) (.expectedSequenceEnd word.name) t.start
      let t ← peek
      let isClose (w : Word) : Bool := match w with | .flowSequenceEnd => true | _ => false
      match t.word with
      | .key =>
        skip
        let key ← flowKey isClose t.stop fuel
        let value ← flowValue isClose fuel
        return .mapping .mapping [(key, value)] t.start :: (← flowItems since false fuel)
      | .flowSequenceEnd =>
        skip
        return []
      | _ =>
        let item ← node false false fuel
        return item :: (← flowItems since false fuel)

/-- The entries of a flow mapping that starts at a place, up to its end; a comma stands before each
entry but the first. An entry may be a key alone. -/
def flowEntries (since : Mark) (isFirst : Bool) : Nat → NodeReader (List (Node × Node))
  | 0 => return []
  | fuel + 1 => do
    let t ← peek
    if let .flowMappingEnd := t.word then
      skip
      return []
    else
      if !isFirst then
        match t.word with
        | .flowEntry => skip
        | word =>
          refuse (some .flowMapping) (some since) (.expectedMappingEnd word.name) t.start
      let t ← peek
      let isClose (w : Word) : Bool := match w with | .flowMappingEnd => true | _ => false
      match t.word with
      | .key =>
        skip
        let key ← flowKey isClose t.stop fuel
        let value ← flowValue isClose fuel
        return (key, value) :: (← flowEntries since false fuel)
      | .flowMappingEnd =>
        skip
        return []
      | _ =>
        let key ← node false false fuel
        let value := emptyScalar (← peek).start
        return (key, value) :: (← flowEntries since false fuel)

end

/-! ### Documents -/

/-- Take the directives before a document, one after another. -/
def directives (version : Bool) : Nat → NodeReader Unit
  | 0 => return
  | fuel + 1 => do
    let t ← peek
    match t.word with
    | .directive (.version major _) =>
      if version then refuse none none .secondVersion t.start
      else if major ≠ 1 then refuse none none .otherVersion t.start
      else
        skip
        directives true fuel
    | .directive (.tag handle meaning) =>
      match (← get).handles.lookup handle with
      | some _ => refuse none none (.secondHandle handle) t.start
      | none =>
        modify fun s => { s with handles := (handle, meaning) :: s.handles }
        skip
        directives version fuel
    | .directive (.reserved _) =>
      skip
      directives version fuel
    | _ => return

def documentStart (fuel : Nat) : NodeReader Unit := do
  modify fun s => { s with handles := [] }
  directives false fuel
  modify fun s => { s with handles := s.handles ++ commonHandles }
  let t ← peek
  match t.word with
  | .documentStart => skip
  | word => refuse none none (.expectedDocumentStart word.name) t.start

/-- Take the markers of a document's end. -/
def documentEnds : Nat → NodeReader Unit
  | 0 => return
  | fuel + 1 => do
    match (← peek).word with
    | .documentEnd =>
      skip
      documentEnds fuel
    | _ => return

/-- The node of a document with an explicit start, which may be empty. -/
def documentContent (fuel : Nat) : NodeReader Node := do
  let t ← peek
  match t.word with
  | .directive _ | .documentStart | .documentEnd | .streamEnd => return emptyScalar t.start
  | _ => node true false fuel

/-- The first document of a stream, if there is one. -/
def firstDocument (fuel : Nat) : NodeReader (Option Node) := do
  match (← peek).word with
  | .streamEnd => return none
  | .directive _ | .documentStart =>
    documentStart fuel
    return some (← documentContent fuel)
  | _ => return some (← node true false fuel)

/-- The only document of a stream, if there is one. -/
def singleDocument (fuel : Nat) : NodeReader (Option Node) := do
  match ← firstDocument fuel with
  | none => return none
  | some found =>
    documentEnds fuel
    let t ← peek
    match t.word with
    | .streamEnd => return some found
    | _ =>
      documentStart fuel
      refuseNode (some .singleDocument) (some found.start) .anotherDocument t.start

end NodeReader

/-- The node of the only document of some tokens, if there is one. -/
def Node.ofTokens? (ts : Tokens) : Except Failure (Option Node) :=
  let fuel := 4 * ts.ready.length + 16
  ((NodeReader.singleDocument fuel).run ⟨ts, NodeReader.commonHandles, []⟩).map (·.1)

end Schematic.Yaml
