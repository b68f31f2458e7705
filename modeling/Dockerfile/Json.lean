import Dockerfile.Decimal
import Dockerfile.Text.Basic

/-!
JSON values, and the texts that they are written in and read from.
-/

namespace Dockerfile

/-! ### Values

A number is whole or real, as it was written; a record keeps its fields in order and
has each key once.
-/

inductive Json where
  | null
  | bool (b : Bool)
  | int (n : Int)
  | real (x : Float)
  | text (s : String)
  | list (items : List Json)
  | record (fields : List (String × Json))
  deriving Inhabited

namespace Json

/-- What sort of value it is. -/
inductive Kind where
  | null | bool | int | real | text | list | record
  deriving DecidableEq, Repr

def kind : Json → Kind
  | .null => .null
  | .bool _ => .bool
  | .int _ => .int
  | .real _ => .real
  | .text _ => .text
  | .list _ => .list
  | .record _ => .record

/-- The name of a sort of value in messages. -/
def Kind.name : Kind → String
  | .null => "NoneType"
  | .bool => "bool"
  | .int => "int"
  | .real => "float"
  | .text => "str"
  | .list => "list"
  | .record => "dict"

/-- Null, false, zero, and the empty text, list and record carry nothing. -/
def isVoid : Json → Bool
  | .null => true
  | .bool b => !b
  | .int n => n == 0
  | .real x => x == 0
  | .text s => s.isEmpty
  | .list items => items.isEmpty
  | .record fields => fields.isEmpty

/-- The value of a record's field. -/
def field? (key : String) : Json → Option Json
  | .record fields => fields.lookup key
  | _ => none

/-- Sets a field: in its place if the key is there, and at the end otherwise. -/
def setField (fields : List (String × Json)) (key : String) (value : Json) : List (String × Json) :=
  match fields with
  | [] => [(key, value)]
  | (k, v) :: rest => if k = key then (k, value) :: rest else (k, v) :: setField rest key value

/-! ### Writing

JSON text is in ASCII only. `compact` writes a value on one line, with a blank after each comma and
colon; `indented` gives each item and field a line of its own.

A character outside printable ASCII is written `\uXXXX` with lower-case digits, those above U+FFFF
as a surrogate pair; quote, backslash and the five common control characters have short escapes.
-/

/-- A 16-bit unit as `\uXXXX`. -/
def unitEscape (n : Nat) : List Char :=
  ['\\', 'u', Nat.digitChar (n / 4096 % 16), Nat.digitChar (n / 256 % 16),
    Nat.digitChar (n / 16 % 16), Nat.digitChar (n % 16)]

/-- A character as it stands inside a JSON string. -/
def escape (c : Char) : List Char :=
  let n := c.toNat
  if c = '\x22' then ['\\', '\x22']
  else if c = '\\' then ['\\', '\\']
  else if c = '\n' then ['\\', 'n']
  else if c = '\r' then ['\\', 'r']
  else if c = '\t' then ['\\', 't']
  else if n = 0x0c then ['\\', 'f']
  else if n = 0x08 then ['\\', 'b']
  else if 0x20 ≤ n ∧ n < 0x7f then [c]
  else if n < 0x10000 then unitEscape n
  else unitEscape (0xd800 + (n - 0x10000) / 0x400) ++ unitEscape (0xdc00 + (n - 0x10000) % 0x400)

def quoted (s : String) : List Char :=
  '\x22' :: s.toList.flatMap escape ++ ['\x22']

/-- A real number; JSON has its own words for those that are not finite. -/
def realText (x : Float) : List Char :=
  if x.isNaN then "NaN".toList
  else if x.isInf then (if x < 0 then "-Infinity" else "Infinity").toList
  else (Decimal.shortestText x).toList

/-- A value that holds no other. -/
def leaf : Json → List Char
  | .bool true => "true".toList
  | .bool false => "false".toList
  | .int n => (toString n).toList
  | .real x => realText x
  | .text s => quoted s
  | _ => "null".toList

mutual

/-- The value on one line. -/
def compact : Json → List Char
  | .list items => '[' :: compactItems items ++ [']']
  | .record fields => '\x7b' :: compactFields fields ++ ['\x7d']
  | value => leaf value

def compactItems : List Json → List Char
  | [] => []
  | [item] => compact item
  | item :: rest => compact item ++ ',' :: ' ' :: compactItems rest

def compactFields : List (String × Json) → List Char
  | [] => []
  | [(key, value)] => quoted key ++ ':' :: ' ' :: compact value
  | (key, value) :: rest =>
    quoted key ++ ':' :: ' ' :: compact value ++ ',' :: ' ' :: compactFields rest

end

/-- A line break and the indentation of a nesting depth, two blanks a level. -/
def newline (depth : Nat) : List Char :=
  '\n' :: List.replicate (2 * depth) ' '

mutual

/-- The value over several lines, its own line being at nesting depth `depth`. -/
def indented (depth : Nat) : Json → List Char
  | .list [] => ['[', ']']
  | .list items => '[' :: indentedItems (depth + 1) items ++ newline depth ++ [']']
  | .record [] => ['\x7b', '\x7d']
  | .record fields => '\x7b' :: indentedFields (depth + 1) fields ++ newline depth ++ ['\x7d']
  | value => leaf value

def indentedItems (depth : Nat) : List Json → List Char
  | [] => []
  | [item] => newline depth ++ indented depth item
  | item :: rest => newline depth ++ indented depth item ++ ',' :: indentedItems depth rest

def indentedFields (depth : Nat) : List (String × Json) → List Char
  | [] => []
  | [(key, value)] => newline depth ++ quoted key ++ ':' :: ' ' :: indented depth value
  | (key, value) :: rest =>
    newline depth ++ quoted key ++ ':' :: ' ' :: indented depth value ++
      ',' :: indentedFields depth rest

end

def compactText (value : Json) : String :=
  String.ofList (compact value)

def indentedText (value : Json) : String :=
  String.ofList (indented 0 value)

/-! ### Values in messages

A text stands in a message as it is, and anything else written out, with the texts inside it quoted.
-/

/-- A value without parts, inside another. -/
def leafMessage : Json → String
  | .bool true => "True"
  | .bool false => "False"
  | .int n => toString n
  | .real x => Decimal.shortestText x
  | .text s => Text.quoted s
  | _ => "None"

mutual

def inner : Json → String
  | .list items => "[" ++ innerItems items ++ "]"
  | .record fields => "\x7b" ++ innerFields fields ++ "\x7d"
  | value => leafMessage value

def innerItems : List Json → String
  | [] => ""
  | [item] => inner item
  | item :: rest => inner item ++ ", " ++ innerItems rest

def innerFields : List (String × Json) → String
  | [] => ""
  | [(key, value)] => Text.quoted key ++ ": " ++ inner value
  | (key, value) :: rest => Text.quoted key ++ ": " ++ inner value ++ ", " ++ innerFields rest

end

def message : Json → String
  | .text s => s
  | value => inner value

/-! ### Reading

Every reader takes the characters that are left and returns what it read with
the characters after it; `ofText?` asks that only blanks follow.

The characters of a string are first read as units, of which an escape gives one; `joinPairs` then
makes one character of a surrogate pair. The readers of values spend one unit of `fuel` a step,
and as each step reads at least one character, the length of the text is enough.
-/

def isJsonBlank (c : Char) : Bool :=
  c == ' ' || c == '\n' || c == '\r' || c == '\t'

def skip (cs : List Char) : List Char :=
  cs.dropWhile isJsonBlank

def hexValue? (c : Char) : Option Nat :=
  if '0' ≤ c ∧ c ≤ '9' then some (c.toNat - 48)
  else if 'a' ≤ c ∧ c ≤ 'f' then some (c.toNat - 87)
  else if 'A' ≤ c ∧ c ≤ 'F' then some (c.toNat - 55)
  else none

/-- The unit that four hexadecimal digits write. -/
def hexUnit? (a b c d : Char) : Option Nat := do
  return 4096 * (← hexValue? a) + 256 * (← hexValue? b) + 16 * (← hexValue? c) + (← hexValue? d)

/-- The character that a backslash and this letter stand for. -/
def shortEscape? (c : Char) : Option Char :=
  if c = '\x22' ∨ c = '\\' ∨ c = '/' then some c
  else if c = 'n' then some '\n'
  else if c = 'r' then some '\r'
  else if c = 't' then some '\t'
  else if c = 'b' then some '\x08'
  else if c = 'f' then some '\x0c'
  else none

/-- The units of a string after its opening quote, up to and without the closing one. -/
def readUnits? : List Char → Option (List Nat × List Char)
  | [] => none
  | '\\' :: 'u' :: a :: b :: c :: d :: rest => do
    let unit ← hexUnit? a b c d
    let (units, rest) ← readUnits? rest
    return (unit :: units, rest)
  | '\\' :: e :: rest => do
    let c ← shortEscape? e
    let (units, rest) ← readUnits? rest
    return (c.toNat :: units, rest)
  | c :: rest =>
    if c = '\x22' then some ([], rest)
    else if c = '\\' ∨ c.toNat < 0x20 then none
    else do
      let (units, rest) ← readUnits? rest
      return (c.toNat :: units, rest)

/-- The character of a unit; half of a surrogate pair alone is no character. -/
def unitChar (n : Nat) : Char :=
  if 0xd800 ≤ n ∧ n < 0xe000 then '�' else Char.ofNat n

/-- The characters of a list of units. -/
def joinPairs : List Nat → List Char
  | [] => []
  | [n] => [unitChar n]
  | high :: low :: rest =>
    if (0xd800 ≤ high ∧ high < 0xdc00) ∧ 0xdc00 ≤ low ∧ low < 0xe000 then
      Char.ofNat (0x10000 + (high - 0xd800) * 0x400 + (low - 0xdc00)) :: joinPairs rest
    else unitChar high :: joinPairs (low :: rest)

/-- A string after its opening quote. -/
def readString? (cs : List Char) : Option (String × List Char) :=
  (readUnits? cs).map fun (units, rest) => (String.ofList (joinPairs units), rest)

def decimalValue (digits : List Char) : Nat :=
  digits.foldl (fun n c => 10 * n + (c.toNat - 48)) 0

/-- The digits at the front, and what follows them. -/
def spanDigits (cs : List Char) : List Char × List Char :=
  (cs.takeWhile Char.isDigit, cs.dropWhile Char.isDigit)

/-- The decimals after a point, if there is one; a point without digits is refused. -/
def readDecimals? : List Char → Option (List Char × List Char)
  | '.' :: rest => if (spanDigits rest).1.isEmpty then none else some (spanDigits rest)
  | rest => some ([], rest)

/-- The power of ten after its mark, if there is one. -/
def readPower? : List Char → Option (Option Int × List Char)
  | c :: rest =>
    if c = 'e' ∨ c = 'E' then
      let (negative, rest) := match rest with
        | '-' :: more => (true, more)
        | '+' :: more => (false, more)
        | more => (false, more)
      let (digits, rest) := spanDigits rest
      if digits.isEmpty then none
      else
        let n : Int := decimalValue digits
        some (some (if negative then -n else n), rest)
    else some (none, c :: rest)
  | [] => some (none, [])

/-- `digits · 10 ^ power` as a double. -/
def toReal (negative : Bool) (digits : Nat) (power : Int) : Float :=
  let x := Float.ofScientific digits (power < 0) power.natAbs
  if negative then -x else x

def readNumber? (cs : List Char) : Option (Json × List Char) := do
  let (negative, cs) := match cs with
    | '-' :: rest => (true, rest)
    | rest => (false, rest)
  let (whole, rest) := spanDigits cs
  if whole.isEmpty ∨ (whole.head? = some '0' ∧ 1 < whole.length) then none
  let (decimals, rest) ← readDecimals? rest
  let (power, rest) ← readPower? rest
  if decimals.isEmpty ∧ power.isNone then
    let n : Int := decimalValue whole
    return (.int (if negative then -n else n), rest)
  else
    return (.real (toReal negative (decimalValue (whole ++ decimals))
      (power.getD 0 - decimals.length)), rest)

/-- The characters after `word`, if they begin with it. -/
def expect? (word : String) (cs : List Char) : Option (List Char) :=
  if word.toList.isPrefixOf cs then some (cs.drop word.length) else none

/-- A null, a truth value or a number. -/
def readLeaf? (cs : List Char) : Option (Json × List Char) :=
  match expect? "null" cs, expect? "true" cs, expect? "false" cs with
  | some rest, _, _ => some (.null, rest)
  | _, some rest, _ => some (.bool true, rest)
  | _, _, some rest => some (.bool false, rest)
  | _, _, _ => readNumber? cs

mutual

def readValue? : Nat → List Char → Option (Json × List Char)
  | 0, _ => none
  | fuel + 1, cs =>
    match skip cs with
    | '\x22' :: rest => (readString? rest).map fun (s, rest) => (.text s, rest)
    | '[' :: rest =>
      match skip rest with
      | ']' :: rest => some (.list [], rest)
      | rest => (readItems? fuel rest).map fun (items, rest) => (.list items, rest)
    | '\x7b' :: rest =>
      match skip rest with
      | '\x7d' :: rest => some (.record [], rest)
      | rest => (readFields? fuel [] rest).map fun (fields, rest) => (.record fields, rest)
    | rest => readLeaf? rest

/-- The items of a list that has at least one, with its closing bracket. -/
def readItems? : Nat → List Char → Option (List Json × List Char)
  | 0, _ => none
  | fuel + 1, cs => do
    let (item, rest) ← readValue? fuel cs
    match skip rest with
    | ',' :: rest =>
      let (items, rest) ← readItems? fuel rest
      return (item :: items, rest)
    | ']' :: rest => return ([item], rest)
    | _ => none

/-- The fields of a record that has at least one, with its closing brace, added to those before
them. -/
def readFields? : Nat → List (String × Json) → List Char → Option (List (String × Json) × List Char)
  | 0, _, _ => none
  | fuel + 1, before, cs =>
    match skip cs with
    | '\x22' :: rest => do
      let (key, rest) ← readString? rest
      match skip rest with
      | ':' :: rest =>
        let (value, rest) ← readValue? fuel rest
        let fields := setField before key value
        match skip rest with
        | ',' :: rest => readFields? fuel fields rest
        | '\x7d' :: rest => return (fields, rest)
        | _ => none
      | _ => none
    | _ => none

end

/-- The value that a JSON text writes. -/
def ofText? (s : String) : Option Json :=
  let cs := s.toList
  match readValue? (cs.length + 1) cs with
  | some (value, rest) => if (skip rest).isEmpty then some value else none
  | none => none

end Json

end Dockerfile
