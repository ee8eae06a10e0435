import Backlog.Yaml.Tag
import Backlog.Yaml.Token

namespace Backlog.Yaml

/-!
# Nodes of documents

The tree that the tokens of a document make up, before its texts become values.

* `Document.ofTokens?` — the one document that some tokens hold, if they hold any.
-/

/-- A node. -/
inductive Node where
  | scalar (tag : Tag) (text : String)
  | sequence (tag : Tag) (items : List Node)
  | mapping (tag : Tag) (pairs : List (Node × Node))
  /-- A node that has a name. -/
  | anchored (name : String) (node : Node)
  /-- Another place for the node of this name. -/
  | alias (name : String)
  deriving Repr, Inhabited

/-- What is left of the tokens, and the names given so far. -/
structure Composer where
  tokens : List Token
  names : List String := []

/-- A step of putting nodes together. -/
abbrev Compose := StateT Composer (Except Fault)

namespace Compose

/-- Stops at a break of the grammar. -/
def refuse {α : Type} : Compose α := throw .malformed

/-- The next token, if it can be read. -/
def peek : Compose (Option Token) := do
  match (← get).tokens.head? with
  | some (.fault what) => throw what
  | next => return next

/-- Passes a token. -/
def pass : Compose Unit := modify fun s => { s with tokens := s.tokens.drop 1 }

/-- Passes a token if it comes next; the answer says whether it did. -/
def passIf (t : Token) : Compose Bool := do
  if (← peek) = some t then
    pass
    return true
  else return false

/-- Whether one of these tokens comes next. -/
def nextIn (ts : List Token) : Compose Bool := return (← peek).any ts.contains

/-- Passes an anchor, if one comes next. -/
def anchor? : Compose (Option String) := do
  match ← peek with
  | some (.anchor name) =>
    pass
    return some name
  | _ => return none

/-- Passes a tag, if one comes next. -/
def tag? : Compose (Option (Option String × String)) := do
  match ← peek with
  | some (.tag handle suffix) =>
    pass
    return some (handle, suffix)
  | _ => return none

/-- A tag in full: its handle stands for the beginning of a tag. -/
def fullTag (handles : List (String × String)) : Option String × String → Compose String
  | (none, suffix) => return suffix
  | (some handle, suffix) => do
    match handles.find? (fun e => e.1 = handle) with
    | some (_, start) => return start ++ suffix
    | none => refuse

/-- Passes an anchor and a tag, in either order. -/
def properties (handles : List (String × String)) : Compose (Option String × Option String) := do
  let (name, tag) ← match ← anchor? with
    | some name => pure (some name, ← tag?)
    | none => do
      let tag ← tag?
      pure (← anchor?, tag)
  -- An unknown handle only shows when both have been read.
  return (name, ← tag.mapM (fullTag handles))

/-- The kind of a collection: its tag if it has a telling one. -/
def collectionTag (default : Tag) : Option String → Tag
  | none => default
  | some "!" => default
  | some uri => .ofUri uri

/-- The kind of a text: its tag if it has a telling one, else what its form shows. -/
def scalarTag (text : String) (plain : Bool) : Option String → Tag
  | none => if plain then .ofPlain text else .str
  | some "!" => .ofPlain text
  | some uri => .ofUri uri

/-- The node for a text that is not there. -/
def absent : Node := .scalar .null ""

/-- Names a node. -/
def named (name : Option String) (node : Node) : Node :=
  match name with
  | some name => .anchored name node
  | none => node

mutual

/-- Reads a node. Only some places allow collections without brackets, and only the value of a key
    allows a list that is not indented. -/
def node (fuel : Nat) (handles : List (String × String)) (block unindented : Bool) :
    Compose Node := do
  match fuel with
  | 0 => refuse
  | fuel + 1 =>
    match ← peek with
    | some (.alias name) =>
      pass
      if !(← get).names.contains name then refuse
      return .alias name
    | _ =>
      let (name, tag) ← properties handles
      -- What follows has to be there before it can be given the name.
      let next ← peek
      if let some name := name then
        if (← get).names.contains name then refuse
        modify fun s => { s with names := name :: s.names }
      match next with
      | some (.scalar text plain) =>
        pass
        return named name (.scalar (scalarTag text plain tag) text)
      | some .flowSequenceStart =>
        pass
        return named name (.sequence (collectionTag .seq tag) (← flowItems fuel handles true))
      | some .flowMappingStart =>
        pass
        return named name (.mapping (collectionTag .map tag) (← flowPairs fuel handles true))
      | _ =>
        -- A hyphen without a token that starts a list stands no deeper than the key before it.
        if unindented && next = some .blockEntry then
          return named name (.sequence (collectionTag .seq tag) (← unindentedItems fuel handles))
        else if block && next = some .blockSequenceStart then
          pass
          return named name (.sequence (collectionTag .seq tag) (← blockItems fuel handles))
        else if block && next = some .blockMappingStart then
          pass
          return named name (.mapping (collectionTag .map tag) (← blockPairs fuel handles))
        -- A name or a tag alone stands for an empty text.
        else if name.isSome || tag.isSome then
          return named name (.scalar (scalarTag "" true tag) "")
        else refuse

/-- Reads a node unless one of these tokens comes next. -/
def nodeUnless (fuel : Nat) (handles : List (String × String)) (block unindented : Bool)
    (ends : List Token) : Compose Node := do
  match fuel with
  | 0 => refuse
  | fuel + 1 =>
    if ← nextIn ends then return absent else node fuel handles block unindented

/-- The items of a list, each on lines of its own. -/
def blockItems (fuel : Nat) (handles : List (String × String)) : Compose (List Node) := do
  match fuel with
  | 0 => refuse
  | fuel + 1 =>
    if ← passIf .blockEntry then
      let item ← nodeUnless fuel handles true false [.blockEntry, .blockEnd]
      return item :: (← blockItems fuel handles)
    else if ← passIf .blockEnd then return []
    else refuse

/-- The items of a list that is not indented more than the key before it. -/
def unindentedItems (fuel : Nat) (handles : List (String × String)) : Compose (List Node) := do
  match fuel with
  | 0 => refuse
  | fuel + 1 =>
    if ← passIf .blockEntry then
      let item ← nodeUnless fuel handles true false [.blockEntry, .key, .value, .blockEnd]
      return item :: (← unindentedItems fuel handles)
    -- What comes next belongs to the mapping around the list, so nothing is passed.
    else return []

/-- The pairs of a mapping, each on lines of its own. -/
def blockPairs (fuel : Nat) (handles : List (String × String)) :
    Compose (List (Node × Node)) := do
  match fuel with
  | 0 => refuse
  | fuel + 1 =>
    let ends := [Token.key, .value, .blockEnd]
    if ← passIf .key then
      let key ← nodeUnless fuel handles true true ends
      let value ← if ← passIf .value then nodeUnless fuel handles true true ends else pure absent
      return (key, value) :: (← blockPairs fuel handles)
    else if ← passIf .blockEnd then return []
    else refuse

/-- A pair after the key token, inside brackets that one of these tokens goes on with or ends. -/
def flowPair (fuel : Nat) (handles : List (String × String)) (ends : List Token) :
    Compose (Node × Node) := do
  match fuel with
  | 0 => refuse
  | fuel + 1 =>
    let key ← nodeUnless fuel handles false false (.value :: ends)
    let value ←
      if ← passIf .value then nodeUnless fuel handles false false ends else pure absent
    return (key, value)

/-- The items of a list in brackets. A pair among them is a mapping of its own. -/
def flowItems (fuel : Nat) (handles : List (String × String)) (first : Bool) :
    Compose (List Node) := do
  match fuel with
  | 0 => refuse
  | fuel + 1 =>
    if ← passIf .flowSequenceEnd then return []
    if !first then
      if !(← passIf .flowEntry) then refuse
    if ← passIf .key then
      -- A single pair may stand among the items without braces of its own.
      let pair ← flowPair fuel handles [.flowEntry, .flowSequenceEnd]
      return .mapping .map [pair] :: (← flowItems fuel handles false)
    else if ← passIf .flowSequenceEnd then return []
    else
      let item ← node fuel handles false false
      return item :: (← flowItems fuel handles false)

/-- The pairs of a mapping in brackets. A key alone has no value. -/
def flowPairs (fuel : Nat) (handles : List (String × String)) (first : Bool) :
    Compose (List (Node × Node)) := do
  match fuel with
  | 0 => refuse
  | fuel + 1 =>
    if ← passIf .flowMappingEnd then return []
    if !first then
      if !(← passIf .flowEntry) then refuse
    if ← passIf .key then
      let pair ← flowPair fuel handles [.flowEntry, .flowMappingEnd]
      return pair :: (← flowPairs fuel handles false)
    else if ← passIf .flowMappingEnd then return []
    else
      let key ← node fuel handles false false
      return (key, absent) :: (← flowPairs fuel handles false)

end

/-! ### Documents -/

/-- The handles that every document knows. -/
def commonHandles : List (String × String) := [("!", "!"), ("!!", Tag.common)]

/-- The handles that the directives of a document give, and then the common ones. -/
def directives (versioned : Bool) (handles : List (String × String)) :
    List Token → Except Fault (List (String × String))
  | .directive (.version major) :: rest =>
    -- Only the major version counts.
    if versioned || major ≠ 1 then .error .malformed else directives true handles rest
  | .directive (.tag handle start) :: rest =>
    if handles.any (fun e => e.1 = handle) then .error .malformed
    else directives versioned (handles ++ [(handle, start)]) rest
  | .directive .other :: rest => directives versioned handles rest
  | .fault what :: _ => .error what
  | _ => .ok (handles ++ commonHandles)

/-- Whether a token is a directive. -/
def isDirective : Token → Bool
  | .directive _ => true
  | _ => false

/-- Whether a token stands between documents. -/
def isOuter (t : Token) : Bool := isDirective t || t = .documentStart || t = .documentEnd

/-- Reads a document without a line that starts it. -/
def bareDocument (fuel : Nat) : Compose Node := node fuel commonHandles true false

/-- Reads a document with a line that starts it, after its directives. -/
def startedDocument (fuel : Nat) : Compose Node := do
  let tokens := (← get).tokens
  let handles ← (directives false [] tokens : Except Fault _)
  modify fun s => { s with tokens := tokens.dropWhile isDirective }
  if !(← passIf .documentStart) then refuse
  match ← peek with
  | none => return absent
  | some t => if isOuter t then return absent else node fuel handles true false

/-- Passes the end of a document, behind which there is no other. -/
def lastEnd : Compose Unit := do
  -- Points may end the document any number of times.
  modify fun s => { s with tokens := s.tokens.dropWhile (· = .documentEnd) }
  if (← peek).isSome then
    -- The directives of another document are read before it is refused.
    let _ ← (directives false [] (← get).tokens : Except Fault _)
    refuse

/-- Reads all there is: one document at most. -/
def whole (fuel : Nat) : Compose (Option Node) := do
  match ← peek with
  | none => return none
  | some t =>
    let root ←
      if isDirective t || t = .documentStart then startedDocument fuel else bareDocument fuel
    lastEnd
    return some root

end Compose

/-- The document that some tokens hold. -/
def Node.ofTokens? (tokens : List Token) : Except Fault (Option Node) := do
  let (root, _) ← (Compose.whole (3 * tokens.length + 3)).run { tokens := tokens }
  return root

end Backlog.Yaml
