import StepRunner.Yaml.Token

/-!
# YAML documents

The grammar over tokens: a text holds at most one document, which is a tree of scalars, sequences
and mappings. An anchored node has a number, and an alias is the number of the node it stands for.
-/

namespace StepRunner.Yaml

inductive Node where
  | scalar (tag : Option Tag) (style : Style) (text : String)
  | sequence (tag : Option Tag) (items : List Node)
  | mapping (tag : Option Tag) (entries : List (Node × Node))
  | alias (number : Nat)
  deriving Inhabited

/-- What is not written. -/
def Node.empty : Node := .scalar none .plain ""

structure Document where
  /-- Missing in a text without content. -/
  root : Option Node
  /-- The anchored nodes with their numbers, the last to start coming first. -/
  anchored : List (Nat × Node)

/-- The node itself, or what it stands for. -/
def Document.resolve (d : Document) : Node → Node
  | .alias n => (d.anchored.lookup n).getD .empty
  | n => n

/-- What is left to read, and what the text has declared so far. -/
structure Reader where
  tokens : List Token
  handles : List (List Char × Tag) := []
  anchors : List (List Char × Nat) := []
  anchored : List (Nat × Node) := []

abbrev Reading := StateT Reader (Except Problem)

namespace Reading

def peek : Reading (Option Token) := return (← get).tokens.head?

def drop : Reading Unit := modify fun r => { r with tokens := r.tokens.tail }

/-- Takes the token in front if it is `t`. -/
def accept (t : Token) : Reading Bool := do
  if (← peek) = some t then
    drop
    return true
  else return false

def dropAll (t : Token) : Reading Unit :=
  modify fun r => { r with tokens := r.tokens.dropWhile (· = t) }

/-- Nothing is written if one of `stops` comes next. -/
def unlessAt (stops : List Token) (read : Reading Node) : Reading Node := do
  if (← peek).any stops.contains then return .empty else read

/-! ### Properties of nodes -/

/-- The handles that need no declaration. -/
def standardHandles : List (List Char × Tag) :=
  [(['!'], .ofText "!"), (['!', '!'], .ofText "tag:yaml.org,2002:")]

def expandTag (handle : List Char) (suffix : Tag) : Reading Tag := do
  if handle.isEmpty then return suffix
  match ((← get).handles ++ standardHandles).lookup handle with
  | some lead => return lead.append suffix
  | none => throw .unknownTagHandle

/-- A number for a name: how many names there were before. A name may be declared again. -/
def declare (name : List Char) : Reading Nat := do
  let r ← get
  let number := r.anchors.length
  set { r with anchors := (name, number) :: r.anchors.filter (·.1 ≠ name) }
  return number

/-- Records a node that started when `before` nodes were recorded. -/
def record (number before : Nat) (n : Node) : Reading Unit :=
  modify fun r =>
    let inner := r.anchored.length - before
    { r with anchored := r.anchored.take inner ++ (number, n) :: r.anchored.drop inner }

def aliasTo (name : List Char) : Reading Node := do
  match (← get).anchors.lookup name with
  | some number => return .alias number
  | none => throw .unknownAnchor

structure Properties where
  anchor : Option (List Char) := none
  tag : Option Tag := none

def anchor? : Reading (Option (List Char)) := do
  match ← peek with
  | some (.anchor name) =>
    drop
    return some name
  | _ => return none

def tag? : Reading (Option Tag) := do
  match ← peek with
  | some (.tag handle suffix) =>
    drop
    return some (← expandTag handle suffix)
  | _ => return none

/-- An anchor and a tag, in either order. -/
def properties : Reading Properties := do
  match ← anchor? with
  | some name => return ⟨some name, ← tag?⟩
  | none =>
    match ← tag? with
    | some tag => return ⟨← anchor?, some tag⟩
    | none => return {}

/-! ### Nodes -/

/-- Where a node stands. As an entry of a block mapping it may be a sequence with no indentation of
its own. -/
inductive Slot where
  | flow
  | block
  | blockEntry
  deriving DecidableEq

mutual

def node : Nat → Slot → Reading Node
  | 0, _ => throw .nodeExpected
  | fuel + 1, slot => do
    if let some (.alias name) ← peek then
      drop
      aliasTo name
    else
      let p ← properties
      match p.anchor with
      | none => content fuel slot p.tag p.tag.isSome
      | some name =>
        let number ← declare name
        let before := (← get).anchored.length
        let n ← content fuel slot p.tag true
        record number before n
        return n

/-- A node behind its properties, which may be all there is of it. -/
def content : Nat → Slot → Option Tag → Bool → Reading Node
  | 0, _, _, _ => throw .nodeExpected
  | fuel + 1, slot, tag, described => do
    match ← peek, slot with
    | some (.scalar style text), _ =>
      drop
      return .scalar tag style (String.ofList text)
    | some .flowSequenceStart, _ =>
      drop
      return .sequence tag (← flowItems fuel true)
    | some .flowMappingStart, _ =>
      drop
      return .mapping tag (← flowEntries fuel true)
    | some .blockSequenceStart, .block | some .blockSequenceStart, .blockEntry =>
      drop
      return .sequence tag (← blockItems fuel)
    | some .blockMappingStart, .block | some .blockMappingStart, .blockEntry =>
      drop
      return .mapping tag (← blockEntries fuel)
    | some .blockEntry, .blockEntry => return .sequence tag (← bareItems fuel)
    | _, _ => if described then return .scalar tag .plain "" else throw .nodeExpected

def blockItems : Nat → Reading (List Node)
  | 0 => throw .entryExpected
  | fuel + 1 => do
    if ← accept .blockEntry then
      let item ← unlessAt [.blockEntry, .blockEnd] (node fuel .block)
      return item :: (← blockItems fuel)
    else if ← accept .blockEnd then return []
    else throw .entryExpected

/-- Items of a sequence that is indented no further than the mapping around it. -/
def bareItems : Nat → Reading (List Node)
  | 0 => throw .entryExpected
  | fuel + 1 => do
    if ← accept .blockEntry then
      let item ← unlessAt [.blockEntry, .key, .value, .blockEnd] (node fuel .block)
      return item :: (← bareItems fuel)
    else return []

def blockEntries : Nat → Reading (List (Node × Node))
  | 0 => throw .keyExpected
  | fuel + 1 => do
    if ← accept .key then
      let stops := [Token.key, .value, .blockEnd]
      let k ← unlessAt stops (node fuel .blockEntry)
      let v ← if ← accept .value then unlessAt stops (node fuel .blockEntry) else pure .empty
      return (k, v) :: (← blockEntries fuel)
    else if ← accept .blockEnd then return []
    else throw .keyExpected

/-- An item behind `?`, or one that a `:` follows, is a mapping with one entry. -/
def flowItems : Nat → Bool → Reading (List Node)
  | 0, _ => throw .separatorExpected
  | fuel + 1, first => do
    if ← accept .flowSequenceEnd then return []
    if !first && !(← accept .flowEntry) then throw .separatorExpected
    if ← accept .flowSequenceEnd then return []
    if ← accept .key then
      let k ← unlessAt [.value, .flowEntry, .flowSequenceEnd] (node fuel .flow)
      let v ← if ← accept .value then
        unlessAt [.flowEntry, .flowSequenceEnd] (node fuel .flow) else pure .empty
      return .mapping none [(k, v)] :: (← flowItems fuel false)
    else
      let item ← node fuel .flow
      return item :: (← flowItems fuel false)

/-- An entry with no `:` has nothing for a value. -/
def flowEntries : Nat → Bool → Reading (List (Node × Node))
  | 0, _ => throw .separatorExpected
  | fuel + 1, first => do
    if ← accept .flowMappingEnd then return []
    if !first && !(← accept .flowEntry) then throw .separatorExpected
    if ← accept .flowMappingEnd then return []
    if ← accept .key then
      let k ← unlessAt [.value, .flowEntry, .flowMappingEnd] (node fuel .flow)
      let v ← if ← accept .value then
        unlessAt [.flowEntry, .flowMappingEnd] (node fuel .flow) else pure .empty
      return (k, v) :: (← flowEntries fuel false)
    else
      let k ← node fuel .flow
      return (k, .empty) :: (← flowEntries fuel false)

end

/-! ### Documents -/

def isVersion : Token → Bool
  | .versionDirective .. => true
  | _ => false

def isDirective : Token → Bool
  | .versionDirective .. | .tagDirective .. => true
  | _ => false

/-- Declares the handles of the directives in front. Version 1.1 or 1.2 may be named, once. -/
def directives : Reading Unit := do
  let r ← get
  let ds := r.tokens.takeWhile isDirective
  let known : Token → Bool
    | .versionDirective major minor => major = 1 && (minor = 1 || minor = 2)
    | _ => true
  let handles := ds.filterMap fun
    | .tagDirective handle lead => some (handle, lead)
    | _ => none
  if !ds.all known || 1 < ds.countP isVersion || !(handles.map (·.1)).Nodup then throw .directive
  set { r with tokens := r.tokens.dropWhile isDirective, handles }

/-- The content of the document behind its `---`. -/
def documentBody (fuel : Nat) : Reading Node := do
  match ← peek with
  | none => return .empty
  | some t =>
    if isDirective t || t = .documentStart || t = .documentEnd then return .empty
    else node fuel .block

/-- All of a text. -/
def document (fuel : Nat) : Reading (Option Node) := do
  match ← peek with
  | none => return none
  | some t =>
    let root ← if isDirective t || t = .documentStart then do
        directives
        unless ← accept .documentStart do throw .documentStartExpected
        documentBody fuel
      else node fuel .block
    dropAll .documentEnd
    if (← peek).isSome then throw .secondDocument
    return some root

end Reading

/-- Deep enough for any nesting of `n` tokens. -/
def nesting (n : Nat) : Nat := 4 * n + 4

def Document.ofTokens (ts : List Token) : Except Problem Document := do
  let (root, r) ← (Reading.document (nesting ts.length)).run { tokens := ts }
  return ⟨root, r.anchored⟩

def Document.parse (text : String) : Except Problem Document := do ofTokens (← tokens text)

end StepRunner.Yaml
