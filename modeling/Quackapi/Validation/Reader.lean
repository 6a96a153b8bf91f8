import Quackapi.Params.Request
import Quackapi.Util.Json

/-! The reader of JSON documents and the writer of declared structures. A text is a list of bytes; the
reader answers with the node and the text after it. -/

namespace Quackapi.Validation
open Params

/-- A node as the reader leaves it: a scalar is the text the node keeps. -/
inductive JsonNode
  | nil
  | bool (scalar : Str)
  | number (scalar : Str)
  | string (scalar : Str)
  | array (children : List JsonNode)
  | object (members : List (Str × JsonNode))

def maxNestingDepth : Nat := 128

def isJsonSpace (c : Char) : Bool := c == ' ' || c == '\n' || c == '\r' || c == '\t'

def skipWhitespace (s : Str) : Str := s.dropWhile isJsonSpace

def consume (expected : Char) (s : Str) : Option Str :=
  match skipWhitespace s with
  | c :: s => if c = expected then some s else none
  | [] => none

def hexValue (c : Char) : Option Nat :=
  if '0' ≤ c ∧ c ≤ '9' then some (c.toNat - '0'.toNat)
  else if 'a' ≤ c ∧ c ≤ 'f' then some (10 + c.toNat - 'a'.toNat)
  else if 'A' ≤ c ∧ c ≤ 'F' then some (10 + c.toNat - 'A'.toNat)
  else none

/-- The bytes of a code point; a lone surrogate has three, as any other one there. -/
def appendUtf8 (codepoint : Nat) : Str :=
  if codepoint ≤ 0x7f then [Char.ofNat codepoint]
  else if codepoint ≤ 0x7ff then
    [Char.ofNat (0xc0 ||| (codepoint >>> 6)), Char.ofNat (0x80 ||| (codepoint &&& 0x3f))]
  else if codepoint ≤ 0xffff then
    [Char.ofNat (0xe0 ||| (codepoint >>> 12)), Char.ofNat (0x80 ||| ((codepoint >>> 6) &&& 0x3f)),
      Char.ofNat (0x80 ||| (codepoint &&& 0x3f))]
  else
    [Char.ofNat (0xf0 ||| (codepoint >>> 18)), Char.ofNat (0x80 ||| ((codepoint >>> 12) &&& 0x3f)),
      Char.ofNat (0x80 ||| ((codepoint >>> 6) &&& 0x3f)), Char.ofNat (0x80 ||| (codepoint &&& 0x3f))]

def parseUnicodeEscape : Str → Option (Nat × Str)
  | a :: b :: c :: d :: s => do
    let a ← hexValue a
    let b ← hexValue b
    let c ← hexValue c
    let d ← hexValue d
    return (((a * 16 + b) * 16 + c) * 16 + d, s)
  | _ => none

def escapeFollows (s : Str) : Bool := decide (6 ≤ s.length) && "\\u".toList.isPrefixOf s

/-- After `\u`: the bytes of the code point, a surrogate pair taken as one. -/
def readUnicode (s : Str) : Option (Str × Str) := do
  let (codepoint, s) ← parseUnicodeEscape s
  if 0xd800 ≤ codepoint ∧ codepoint ≤ 0xdbff ∧ escapeFollows s = true then
    let (low, s) ← parseUnicodeEscape (s.drop 2)
    if low < 0xdc00 ∨ 0xdfff < low then none
    else return (appendUtf8 (0x10000 + ((codepoint - 0xd800) <<< 10) + (low - 0xdc00)), s)
  else return (appendUtf8 codepoint, s)

/-- After a backslash: the bytes that are meant, and the text behind. -/
def readEscape : Str → Option (Str × Str)
  | [] => none
  | escaped :: s =>
    if escaped = '"' ∨ escaped = '\\' ∨ escaped = '/' then some ([escaped], s)
    else if escaped = 'b' then some (['\x08'], s)
    else if escaped = 'f' then some (['\x0c'], s)
    else if escaped = 'n' then some (['\n'], s)
    else if escaped = 'r' then some (['\r'], s)
    else if escaped = 't' then some (['\t'], s)
    else if escaped = 'u' then readUnicode s
    else none

/-- The loop behind the opening quote; each round takes at least one byte. -/
def readString : Nat → Str → Option (Str × Str)
  | 0, _ => none
  | _, [] => none
  | fuel + 1, c :: s =>
    if c = '"' then some ([], s)
    else if c.toNat < 0x20 then none
    else if c = '\\' then do
      let (text, s) ← readEscape s
      let (result, s) ← readString fuel s
      return (text ++ result, s)
    else do
      let (result, s) ← readString fuel s
      return (c :: result, s)

def parseString (s : Str) : Option (Str × Str) := do
  let s ← consume '"' s
  readString s.length s

/-- The reader of a value, given one for the values within it. -/
abbrev Reader := Str → Option (JsonNode × Str)

/-- The rounds of an array or object behind its opening; each takes at least one byte. -/
def parseItems {α : Type} (item : Str → Option (α × Str)) (closing : Char) :
    Nat → Str → Option (List α × Str)
  | 0, _ => none
  | fuel + 1, s => do
    let (a, s) ← item s
    match skipWhitespace s with
    | [] => none
    | c :: s =>
      if c = closing then return ([a], s)
      else if c = ',' then
        let (as, s) ← parseItems item closing fuel s
        return (a :: as, s)
      else none

def parseSequence {α : Type} (item : Str → Option (α × Str)) (opening closing : Char) (s : Str) :
    Option (List α × Str) := do
  let s ← consume opening s
  match skipWhitespace s with
  | [] => none
  | c :: s => if c = closing then return ([], s) else parseItems item closing (c :: s).length (c :: s)

def parseArray (value : Reader) (s : Str) : Option (JsonNode × Str) :=
  (parseSequence value '[' ']' s).map fun r => (.array r.1, r.2)

def parseMember (value : Reader) (s : Str) : Option ((Str × JsonNode) × Str) := do
  let (key, s) ← parseString s
  let s ← consume ':' s
  let (node, s) ← value s
  return ((key, node), s)

def parseObject (value : Reader) (s : Str) : Option (JsonNode × Str) :=
  (parseSequence (parseMember value) '\x7b' '\x7d' s).map fun r => (.object r.1, r.2)

def isNumberChar (c : Char) : Bool :=
  c.isDigit || c == '.' || c == 'e' || c == 'E' || c == '+' || c == '-'

/-- A value; without a reader for what is within, objects and arrays are refused. The reader keeps no
text of a boolean. -/
def parseValueWith (nested : Option Reader) (s : Str) : Option (JsonNode × Str) :=
  match skipWhitespace s with
  | [] => none
  | c :: rest =>
    if c = '"' then (parseString (c :: rest)).map fun r => (.string r.1, r.2)
    else if c = '\x7b' then nested.bind fun value => parseObject value (c :: rest)
    else if c = '[' then nested.bind fun value => parseArray value (c :: rest)
    else if "true".toList.isPrefixOf (c :: rest) then some (.bool [], rest.drop 3)
    else if "false".toList.isPrefixOf (c :: rest) then some (.bool [], rest.drop 4)
    else if "null".toList.isPrefixOf (c :: rest) then some (.nil, rest.drop 3)
    else if c = '-' ∨ c.isDigit then
      some (.number (c :: rest.takeWhile isNumberChar), rest.dropWhile isNumberChar)
    else none

def parseValue : Nat → Reader
  | 0 => parseValueWith none
  | levels + 1 => parseValueWith (some (parseValue levels))

def parseDocument (input : Str) : Option JsonNode :=
  match parseValue maxNestingDepth input with
  | some (node, s) => if skipWhitespace s = [] then some node else none
  | none => none

def comma (first : Bool) : Str := if first then [] else [',']

mutual

def serializeTransformNode (replaceVariant : Bool) : JsonNode → Str
  | .nil => "null".toList
  | .bool scalar => scalar
  | .number scalar => scalar
  | .string scalar =>
    if replaceVariant && upper (trim scalar) == "VARIANT".toList then jsonString "JSON".toList
    else jsonString scalar
  | .array children => '[' :: serializeChildren replaceVariant true children ++ [']']
  | .object members => '\x7b' :: serializeMembers replaceVariant true members ++ ['\x7d']

def serializeChildren (replaceVariant first : Bool) : List JsonNode → Str
  | [] => []
  | child :: children => comma first ++ serializeTransformNode replaceVariant child ++
      serializeChildren replaceVariant false children

def serializeMembers (replaceVariant first : Bool) : List (Str × JsonNode) → Str
  | [] => []
  | member :: members => comma first ++ serializeMember replaceVariant member ++
      serializeMembers replaceVariant false members

def serializeMember (replaceVariant : Bool) : Str × JsonNode → Str
  | (key, node) => jsonString key ++ ':' :: serializeTransformNode replaceVariant node

end

mutual

def JsonNode.bools : JsonNode → Nat
  | .nil => 0
  | .bool _ => 1
  | .number _ => 0
  | .string _ => 0
  | .array children => childrenBools children
  | .object members => membersBools members

def childrenBools : List JsonNode → Nat
  | [] => 0
  | child :: children => child.bools + childrenBools children

def membersBools : List (Str × JsonNode) → Nat
  | [] => 0
  | member :: members => memberBools member + membersBools members

def memberBools : Str × JsonNode → Nat
  | (_, node) => node.bools

end

end Quackapi.Validation
