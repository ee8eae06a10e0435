import Backlog.Data
import Backlog.Number.Binary64
import Backlog.Yaml.Node

namespace Backlog.Yaml

open Backlog.Number Backlog.Text

/-!
# Values of documents

A value is made of a node, of its tag and of what stands below it. Scalars without a tag are given
one by their looks. What cannot be made into a value is refused with a fault that tells a bad
document from a value that breaks down on the way.

* `parse` — the value that a document holds;
* `Error.message` — the wording of a refusal.

A mapping takes the pairs of the mappings that are merged into it before its own. A name may stand
inside its own node; the value then ends there.
-/

/-- Why a document has no value. -/
inductive Error where
  /-- It does not follow the grammar, or its tags do not fit their nodes. -/
  | malformed
  | badCode (code : Nat)
  | notABool (text : String)
  | emptyNumber
  | notWhole (text : String) (base : Nat)
  | tooLong (digits : Nat)
  | notANumber (text : String)
  | notATime
  | calendar (cause : CalendarError)
  /-- A text in it has half of a surrogate pair. The program takes it as it is, but there is no text
  that stands for it here. -/
  | halfPair
  deriving DecidableEq, Repr

/-- The wording of a refusal. -/
def Error.message : Error → String
  | .malformed => "invalid YAML"
  | .badCode code =>
    if code < Nat.pow 2 31 then "chr() arg not in range(0x110000)"
    else "Python int too large to convert to C int"
  | .notABool text => quoted text
  | .emptyNumber => "string index out of range"
  | .notWhole text base => s!"invalid literal for int() with base {base}: {quoted text}"
  | .tooLong digits => tooLongMessage digits
  | .notANumber text => s!"could not convert string to float: {quoted text}"
  | .notATime => "'NoneType' object has no attribute 'groupdict'"
  | .calendar cause => cause.message
  | .halfPair => "half of a surrogate pair"

/-- A reader of documents. -/
abbrev Reader := String → Except Error Data

/-- A break of the grammar, as a refusal. -/
def Error.ofFault : Fault → Error
  | .malformed => .malformed
  | .badCode code => .badCode code
  | .halfPair => .halfPair

/-! ### Numbers and times -/

/-- The value of a digit in bases up to 16. -/
def baseDigit? (c : Char) : Option Nat := (hexValue? c).or (decimalValue? c)

/-- Drops the mark of a base, a zero and a letter. -/
def dropBaseMark (base : Nat) : List Char → List Char
  | '0' :: c :: rest =>
    let mark := if base = 2 then 'b' else if base = 8 then 'o' else 'x'
    if c.toLower = mark then rest else '0' :: c :: rest
  | cs => cs

/-- Reads a whole number in base 2, 8 or 16. -/
def readInBase (base : Nat) (text : List Char) : Except Error Int :=
  let (negative, body) := splitSign (trimBlanks text)
  let digits := dropBaseMark base body
  let values := digits.filterMap baseDigit?
  -- A character without a value shortens `values`, so the lengths tell whether all have one.
  if digits.isEmpty || values.length < digits.length || values.any (base ≤ ·) then
    .error (.notWhole (String.ofList text) base)
  else .ok (signed negative (values.foldl (fun n v => base * n + v) 0))

/-- Reads a whole number in base 10. -/
def readInTen (text : List Char) : Except Error Int :=
  match readInt (String.ofList text) with
  | .ok n => .ok n
  | .error (.tooLong digits) => .error (.tooLong digits)
  | .error .malformed => .error (.notWhole (String.ofList text) 10)

/-- Splits at colons. -/
def splitColons : List Char → List (List Char)
  | [] => [[]]
  | c :: rest =>
    if c = ':' then [] :: splitColons rest
    else match splitColons rest with
      | part :: parts => (c :: part) :: parts
      | [] => [[c]]

/-- The whole number of a text: underscores do not count, and the first characters or a colon say
    which base it is in. -/
def readWhole (text : String) : Except Error Int := do
  let cs := text.toList.filter (· ≠ '_')
  let (negative, body) := splitSign cs
  let sign (n : Int) : Int := if negative then -n else n
  match body with
  | [] => throw .emptyNumber
  | ['0'] => return 0
  | '0' :: 'b' :: rest => return sign (← readInBase 2 rest)
  | '0' :: 'x' :: rest => return sign (← readInBase 16 rest)
  -- A leading zero means base 8, and the zero itself is one of the digits.
  | '0' :: _ => return sign (← readInBase 8 body)
  | _ =>
    if body.contains ':' then
      let parts ← (splitColons body).mapM readInTen
      return sign (parts.foldl (fun n part => 60 * n + part) 0)
    else return sign (← readInTen body)

/-- Reads one decimal number with blanks around it, digits of any script among its digits. -/
def readDouble (text : List Char) : Except Error Binary64 :=
  let plain := (trimBlanks text).map fun c =>
    if c.toNat < 0x80 then c else ((decimalValue? c).map Nat.digitChar).getD c
  let (negative, body) := splitSign plain
  let read := if body = "infinity".toList then some (Binary64.infinity negative)
    else Binary64.ofText? (String.ofList plain)
  match read with
  | some x => .ok x
  | none => .error (.notANumber (String.ofList text))

/-- The sum of some parts in base 60, the last one counting once. -/
def sumSixties (parts : List Binary64) : Binary64 :=
  (parts.reverse.foldl (fun (acc : Binary64 × Nat) part =>
    (acc.1.add (part.scale acc.2), acc.2 * 60)) (Binary64.zero false, 1)).1

/-- The floating-point number of a text. -/
def readFloat (text : String) : Except Error Binary64 := do
  let cs := (text.toList.filter (· ≠ '_')).map Char.toLower
  if cs.isEmpty then throw .emptyNumber
  let (negative, body) := splitSign cs
  let sign (x : Binary64) : Binary64 := if negative then x.negate else x
  if body = ".inf".toList then return sign (Binary64.infinity false)
  else if body = ".nan".toList then return Binary64.nan
  else if body.contains ':' then
    let parts ← (splitColons body).mapM readDouble
    return sign (sumSixties parts)
  else return sign (← readDouble body)

/-- The number that some digits stand for. -/
def number (digits : List Char) : Nat := Nat.ofDigitChars 10 digits 0

/-- The microseconds of a fraction of a second: its first six digits. -/
def microseconds (fraction : List Char) : Nat :=
  let digits := fraction.take 6
  number (digits ++ List.replicate (6 - digits.length) '0')

/-- The offset of a zone in minutes. -/
def offsetOf : Option (Option (Char × List Char × List Char)) → Option Int
  | none => none
  | some none => some 0
  | some (some (sign, hour, minute)) =>
    some (signed (sign = '-') (60 * number hour + number minute))

/-- The day or the point in time of a text. -/
def readTime (text : String) : Except Error Scalar :=
  match TimeText.ofChars? (Tag.dropLineEnd text.toList) with
  | none => .error .notATime
  | some t =>
    let year := number t.year
    let month := number t.month
    let day := number t.day
    match t.clock with
    | none => (Date.make? year month day).mapError .calendar |>.map .date
    | some c =>
      (Moment.make? year month day (number c.hour) (number c.minute) (number c.second)
        (microseconds c.fraction) (offsetOf c.zone)).mapError .calendar |>.map .moment

/-- The truth value of a text. -/
def readBool (text : String) : Except Error Bool :=
  let word := String.ofList (text.toList.map Char.toLower)
  if word = "yes" || word = "true" || word = "on" then .ok true
  else if word = "no" || word = "false" || word = "off" then .ok false
  else .error (.notABool word)

/-! ### Bytes -/

/-- The value of a character in base 64. -/
def sixBits? (c : Char) : Option Nat :=
  let n := c.toNat
  if 'A' ≤ c && c ≤ 'Z' then some (n - 65)
  else if 'a' ≤ c && c ≤ 'z' then some (n - 71)
  else if c.isDigit then some (n + 4)
  else if c = '+' then some 62
  else if c = '/' then some 63
  else none

/-- Decodes base 64: groups of four characters, the last one filled up with equals signs. All other
    characters are passed over. `place` is the place in the group, `left` what is left of the bits
    of the character before, `fill` the number of equals signs so far. -/
def decodeSixBits (place left fill : Nat) : List Char → Option Bytes
  | [] => if place = 0 then some [] else none
  | c :: rest =>
    if c = '=' then
      if 2 ≤ place && 4 ≤ place + fill + 1 then some []
      else decodeSixBits place left (fill + 1) rest
    else
      match sixBits? c with
      | none => decodeSixBits place left fill rest
      | some v =>
        if place = 0 then decodeSixBits 1 v 0 rest
        else if place = 1 then
          (decodeSixBits 2 (v % 16) 0 rest).map (UInt8.ofNat (4 * left + v / 16) :: ·)
        else if place = 2 then
          (decodeSixBits 3 (v % 4) 0 rest).map (UInt8.ofNat (16 * left + v / 4) :: ·)
        else (decodeSixBits 0 0 0 rest).map (UInt8.ofNat (64 * left + v) :: ·)

/-- The bytes of a text in base 64. -/
def readBytes (text : String) : Except Error Bytes :=
  let cs := text.toList
  if cs.any (fun c => 0x7f < c.toNat) then .error .malformed
  else match decodeSixBits 0 0 0 cs with
    | some bytes => .ok bytes
    | none => .error .malformed

/-! ### Nodes -/

/-- The nodes that have names. -/
abbrev Names := List (String × Node)

mutual

/-- The named nodes below a node. -/
def Node.names : Node → Names
  | .scalar _ _ => []
  | .sequence _ items => itemNames items
  | .mapping _ pairs => pairNames pairs
  | .anchored name node => (name, node) :: node.names
  | .alias _ => []

/-- The named nodes below the items of a list. -/
def itemNames : List Node → Names
  | [] => []
  | item :: rest => item.names ++ itemNames rest

/-- The named nodes below the pairs of a mapping. -/
def pairNames : List (Node × Node) → Names
  | [] => []
  | (key, value) :: rest => key.names ++ value.names ++ pairNames rest

end

mutual

/-- The number of nodes below and including a node. -/
def Node.size : Node → Nat
  | .scalar _ _ => 1
  | .sequence _ items => itemSizes items + 1
  | .mapping _ pairs => pairSizes pairs + 1
  | .anchored _ node => node.size + 1
  | .alias _ => 1

/-- The number of nodes below the items of a list. -/
def itemSizes : List Node → Nat
  | [] => 0
  | item :: rest => item.size + itemSizes rest

/-- The number of nodes below the pairs of a mapping. -/
def pairSizes : List (Node × Node) → Nat
  | [] => 0
  | (key, value) :: rest => key.size + value.size + pairSizes rest

end

/-- A node without its name, or the one that its name stands for; and the names that were met. -/
def Node.unnamed (names : Names) (fuel : Nat) : Node → List String × Node
  | .anchored name node =>
    match fuel with
    | 0 => ([name], node)
    | fuel + 1 =>
      let (met, found) := node.unnamed names fuel
      (name :: met, found)
  | .alias name =>
    match fuel with
    | 0 => ([name], .alias name)
    | fuel + 1 =>
      match names.find? (fun e => e.1 = name) with
      | some (_, node) =>
        let (met, found) := node.unnamed names fuel
        (name :: met, found)
      | none => ([name], .alias name)
  | node => ([], node)

/-- A node without its name. -/
def Node.bare (names : Names) (node : Node) : Node := (node.unnamed names (names.length + 1)).2

/-- The kind that a node shows. -/
def Node.tagged? (names : Names) (node : Node) : Option Tag :=
  match node.bare names with
  | .scalar tag _ => some tag
  | .sequence tag _ => some tag
  | .mapping tag _ => some tag
  | _ => none

mutual

/-- The pairs of a mapping with those merged into it in front. `active` holds the names of the
    mappings that are being merged; of those no merged pairs are taken again. -/
def mergedPairs (names : Names) (fuel : Nat) (active : List String) (pairs : List (Node × Node)) :
    Except Error (List (Node × Node)) :=
  match fuel with
  | 0 => .ok pairs
  | fuel + 1 => do
    let isMerge (pair : Node × Node) : Bool := pair.1.tagged? names = some .merge
    let own := pairs.filter (fun pair => !isMerge pair)
    let sources := (pairs.filter isMerge).map Prod.snd
    let merged ← sources.mapM fun source => do
      match source.bare names with
      | .sequence _ items => do
        let parts ← items.mapM (sourcePairs names fuel active)
        -- Of two mappings in a list the first has the last word, so it has to come last.
        return parts.reverse.flatten
      | _ => sourcePairs names fuel active source
    return merged.flatten ++ own

/-- The pairs that a mapping gives to another one. -/
def sourcePairs (names : Names) (fuel : Nat) (active : List String) (source : Node) :
    Except Error (List (Node × Node)) :=
  match fuel with
  | 0 => .ok []
  | fuel + 1 =>
    let (met, node) := source.unnamed names (names.length + 1)
    match node with
    | .mapping _ pairs =>
      -- A mapping that is being merged gives only its own pairs, or it would be merged for ever.
      if met.any active.contains then
        .ok (pairs.filter (fun pair => pair.1.tagged? names ≠ some .merge))
      else mergedPairs names fuel (met ++ active) pairs
    | _ => .error .malformed

end

/-- The text of a node that is to be a single value: its own, or that under the value key. -/
def Node.text? (names : Names) (fuel : Nat) (node : Node) : Except Error String :=
  match fuel with
  | 0 => .error .malformed
  | fuel + 1 =>
    match node.bare names with
    | .scalar _ text => .ok text
    | .mapping _ pairs =>
      match pairs.find? (fun pair => pair.1.tagged? names = some .value) with
      | some (_, value) => value.text? names fuel
      | none => .error .malformed
    | _ => .error .malformed

/-- The value of a text of some kind. -/
def scalarValue (tag : Tag) (text : String) : Except Error Data :=
  match tag with
  | .null => .ok .null
  | .bool => (readBool text).map Data.bool
  | .int => (readWhole text).map Data.int
  | .float => (readFloat text).map Data.float
  | .binary => (readBytes text).map (fun b => .scalar (.bytes b))
  | .timestamp => (readTime text).map Data.scalar
  | .str => .ok (.text text)
  | _ => .error .malformed

/-- Whether a kind is that of a text. -/
def Tag.isScalar : Tag → Bool
  | .null | .bool | .int | .float | .binary | .timestamp | .str => true
  | _ => false

/-- A value as a key. -/
def keyOf : Data → Except Error Scalar
  | .scalar s => .ok s
  | _ => .error .malformed

/-- The value that stands where a name stands inside its own node. -/
def loopedValue : Node → Data
  | .mapping _ _ => .loopedMap
  | _ => .loopedList

mutual

/-- The value of a node; `active` holds the names around it. -/
def value (names : Names) (fuel : Nat) (active : List String) (node : Node) :
    Except Error Data :=
  match fuel with
  | 0 => .error .malformed
  | fuel + 1 =>
    match node with
    | .anchored name inner => value names fuel (name :: active) inner
    | .alias name =>
      match names.find? (fun e => e.1 = name) with
      | none => .error .malformed
      | some (_, inner) =>
        -- Inside its own node a name stands for a value that never ends.
        if active.contains name then .ok (loopedValue (inner.bare names))
        else value names fuel (name :: active) inner
    | .scalar tag text => scalarValue tag text
    | .sequence tag items =>
      match tag with
      | .seq => (items.mapM (value names fuel active)).map Data.list
      | .omap => (items.mapM (pairValue names fuel active)).map Data.list
      | .pairs => (items.mapM (pairValue names fuel active)).map Data.list
      | _ => .error .malformed
    | .mapping tag pairs =>
      match tag with
      | .map => (mappingValue names fuel active pairs).map Data.ofPairs
      | .set => do
        let entries ← mappingValue names fuel active pairs
        match Data.ofPairs entries with
        | .map entries => return .set (entries.map Prod.fst)
        | v => return v
      | tag =>
        if tag.isScalar then do
          let text ← (Node.mapping tag pairs).text? names (fuel + 1)
          scalarValue tag text
        else .error .malformed

/-- The pairs of a mapping as keys and values. -/
def mappingValue (names : Names) (fuel : Nat) (active : List String) (pairs : List (Node × Node)) :
    Except Error (List (Scalar × Data)) :=
  match fuel with
  | 0 => .error .malformed
  | fuel + 1 => do
    let merged ← mergedPairs names (fuel + 1) active pairs
    merged.mapM fun pair => do
      -- `=` as a key of a mapping is an ordinary text.
      let keyNode := match pair.1.bare names with
        | .scalar .value text => Node.scalar .str text
        | _ => pair.1
      let key ← keyOf (← value names fuel active keyNode)
      return (key, ← value names fuel active pair.2)

/-- The one pair of a mapping. -/
def pairValue (names : Names) (fuel : Nat) (active : List String) (node : Node) :
    Except Error Data :=
  match fuel with
  | 0 => .error .malformed
  | fuel + 1 =>
    match node.bare names with
    | .mapping _ [pair] => do
      let key ← value names fuel active pair.1
      return .tuple [key, ← value names fuel active pair.2]
    | _ => .error .malformed

end

/-- The value that a document holds; an empty document holds nothing. -/
def parse (text : String) : Except Error Data := do
  let tokens ← (Token.ofChars text.toList).mapError .ofFault
  match ← (Node.ofTokens? tokens).mapError .ofFault with
  | none => return .null
  | some root =>
    let names := root.names
    value names (4 * (root.size + 1) * (names.length + 1)) [] root

end Backlog.Yaml
