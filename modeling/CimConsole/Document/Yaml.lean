import CimConsole.Document.Yaml.Token
import CimConsole.Document

/-!
Reading YAML texts. A text holds one document or none; none reads as an empty plain
scalar. At most 128 collections may be open at a time, so the reader recurses over the
levels that are left. The keys of a mapping are scalars.
-/
namespace CimConsole.Yaml

/-- What is left of the tokens, and the nodes that have a name. -/
structure Remaining where
  tokens : List Token
  anchors : List (String × Document) := []

abbrev Reader := StateT Remaining Option

def peek : Reader (Option Token) := do
  let s ← get
  pure s.tokens.head?

def skip : Reader Unit := modify fun s => { s with tokens := s.tokens.tail }

/-- Whether the next token is one of these; none counts as one of every list. -/
def nextIsIn (tokens : List Token) : Reader Bool := do
  match ← peek with
  | none => pure true
  | some t => pure (tokens.contains t)

/-- Takes the token if it is next. -/
def accept (t : Token) : Reader Bool := do
  if (← peek) == some t then
    skip
    pure true
  else pure false

def emptyNode : Document := .plain ""

/-- A node unless one of these tokens is next. -/
def nodeUnless (node : Reader Document) (ends : List Token) : Reader Document := do
  if ← nextIsIn ends then pure emptyNode else node

/-- The text of a mapping key. -/
def keyText : Document → Option String
  | .plain s => some s
  | .text s => some s
  | _ => none

def readKey (node : Reader Document) (ends : List Token) : Reader String := do
  let d ← nodeUnless node ends
  match keyText d with
  | some s => pure s
  | none => failure

/-- The items of a block sequence; one that is not indented ends where no entry follows. -/
def blockItems (node : Reader Document) (indented : Bool) : Nat → Reader (List Document)
  | 0 => failure
  | fuel + 1 => do
    if ← accept .blockEntry then
      let ends := if indented then [Token.blockEntry, .blockEnd]
        else [.blockEntry, .key, .value, .blockEnd]
      let d ← nodeUnless node ends
      let ds ← blockItems node indented fuel
      pure (d :: ds)
    else if indented then
      if ← accept .blockEnd then pure [] else failure
    else pure []

/-- The value behind a key, if a colon follows. -/
def readValue (node : Reader Document) (ends : List Token) : Reader Document := do
  if ← accept .value then nodeUnless node ends else pure emptyNode

def blockFields (node : Reader Document) : Nat → Reader (List (String × Document))
  | 0 => failure
  | fuel + 1 => do
    if ← accept .key then
      let ends := [Token.key, .value, .blockEnd]
      let name ← readKey node ends
      let d ← readValue node ends
      let rest ← blockFields node fuel
      pure ((name, d) :: rest)
    else if ← accept .blockEnd then pure []
    else failure

/-- An item of a flow sequence; a key makes it a mapping of one field. -/
def flowItem (node : Reader Document) : Reader Document := do
  if ← accept .key then
    let name ← readKey node [.value, .flowEntry, .flowSequenceEnd]
    let d ← readValue node [.flowEntry, .flowSequenceEnd]
    pure (.record [(name, d)])
  else node

def flowItems (node : Reader Document) (first : Bool) : Nat → Reader (List Document)
  | 0 => failure
  | fuel + 1 => do
    if ← accept .flowSequenceEnd then pure []
    else
      let separated ← if first then pure true else accept .flowEntry
      if !separated then failure
      else if ← accept .flowSequenceEnd then pure []
      else
        let d ← flowItem node
        let ds ← flowItems node false fuel
        pure (d :: ds)

def flowField (node : Reader Document) : Reader (String × Document) := do
  if ← accept .key then
    let name ← readKey node [.value, .flowEntry, .flowMappingEnd]
    let d ← readValue node [.flowEntry, .flowMappingEnd]
    pure (name, d)
  else
    let name ← readKey node []
    pure (name, emptyNode)

def flowFields (node : Reader Document) (first : Bool) : Nat → Reader (List (String × Document))
  | 0 => failure
  | fuel + 1 => do
    if ← accept .flowMappingEnd then pure []
    else
      let separated ← if first then pure true else accept .flowEntry
      if !separated then failure
      else if ← accept .flowMappingEnd then pure []
      else
        let f ← flowField node
        let fs ← flowFields node false fuel
        pure (f :: fs)

/-- The anchor and the tag in front of a node, in either order. -/
def readProperties : Nat → Option String → Option String → Reader (Option String × Option String)
  | 0, anchor, tag => pure (anchor, tag)
  | fuel + 1, anchor, tag => do
    match ← peek with
    | some (.anchor name) =>
      if anchor.isSome then pure (anchor, tag)
      else
        skip
        readProperties fuel (some name) tag
    | some (.tag text) =>
      if tag.isSome then pure (anchor, tag)
      else
        skip
        readProperties fuel anchor (some text)
    | _ => pure (anchor, tag)

/-- A scalar whose tag makes it a text, or takes away the quotes. -/
def applyTag (tag : Option String) (d : Document) : Document :=
  match tag, d with
  | some "!!str", .plain s => .text s
  | some "!", .plain s => .text s
  | some "!!int", .text s | some "!!float", .text s | some "!!bool", .text s
  | some "!!null", .text s => .plain s
  | _, d => d

/-- A node with at most so many levels of collections. An unindented sequence may stand
as the value of a block mapping. -/
def readNode : Nat → (unindented : Bool) → Reader Document
  | 0, _ => do
    match ← peek with
    | some (.plain s) =>
      skip
      pure (.plain s)
    | some (.quoted s) =>
      skip
      pure (.text s)
    | _ => failure
  | levels + 1, unindented => do
    match ← peek with
    | some (.alias name) =>
      skip
      match (← get).anchors.lookup name with
      | some d => pure d
      | none => failure
    | _ =>
      let (anchor, tag) ← readProperties 2 none none
      let fuel := (← get).tokens.length + 1
      let inBlock := readNode levels true
      let inFlow := readNode levels false
      let d ← match ← peek with
        | some .blockEntry =>
          if unindented then do
            let ds ← blockItems (readNode levels false) false fuel
            pure (Document.list ds)
          else if anchor.isSome || tag.isSome then pure emptyNode
          else failure
        | some (.plain s) => do
          skip
          pure (applyTag tag (.plain s))
        | some (.quoted s) => do
          skip
          pure (applyTag tag (.text s))
        | some .flowSequence => do
          skip
          let ds ← flowItems inFlow true fuel
          pure (.list ds)
        | some .flowMapping => do
          skip
          let fs ← flowFields inFlow true fuel
          pure (.record fs)
        | some .blockSequence => do
          skip
          let ds ← blockItems (readNode levels false) true fuel
          pure (.list ds)
        | some .blockMapping => do
          skip
          let fs ← blockFields inBlock fuel
          pure (.record fs)
        | _ => if anchor.isSome || tag.isSome then pure emptyNode else failure
      match anchor with
      | some name =>
        modify fun s => { s with anchors := (name, d) :: s.anchors }
        pure d
      | none => pure d

def skipWhileIs (t : Token) : List Token → List Token
  | [] => []
  | u :: rest => if u == t then skipWhileIs t rest else u :: rest

/-- The one document of a list of tokens. -/
def documentOf? (tokens : List Token) : Option Document :=
  match skipWhileIs .documentEnd tokens with
  | [] => some emptyNode
  | tokens =>
    let directed := tokens.head? == some .directive
    let body := skipWhileIs .directive tokens
    let explicit := body.head? == some .documentStart
    if directed && !explicit then none
    else
      let body := if explicit then body.tail else body
      match (nodeUnless (readNode 128 false) [.directive, .documentStart, .documentEnd]).run
          { tokens := body } with
      | none => none
      | some (d, s) => if (skipWhileIs .documentEnd s.tokens).isEmpty then some d else none

end CimConsole.Yaml

/-- The document of a YAML text. -/
def CimConsole.Document.ofYaml? (s : String) : Option CimConsole.Document :=
  (CimConsole.Yaml.tokens? s).bind CimConsole.Yaml.documentOf?
