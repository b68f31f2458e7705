/-!
Text encodings: which there are, under what names, and what bytes write in them.
-/

namespace Dockerfile

/-! ### Names and failures

A name is compared without regard to case, and any run of characters other than letters, digits
and points counts as one separator.
-/

inductive Encoding where
  | ascii | utf8 | utf8Signed | utf16 | latin1 | windows1252
  deriving DecidableEq, Repr

namespace Encoding

/-- The names of an encoding, in normal form. -/
def names : Encoding → List String
  | .ascii => ["ascii", "646", "ansi_x3.4_1968", "ansi_x3_4_1968", "ansi_x3.4_1986", "cp367",
      "csascii", "ibm367", "iso646_us", "iso_646.irv_1991", "iso_ir_6", "us", "us_ascii"]
  | .utf8 => ["utf_8", "u8", "utf", "utf8", "utf8_ucs2", "utf8_ucs4", "cp65001"]
  | .utf8Signed => ["utf_8_sig"]
  | .utf16 => ["utf_16", "u16", "utf16"]
  | .latin1 => ["latin_1", "8859", "cp819", "csisolatin1", "ibm819", "iso8859", "iso8859_1",
      "iso_8859_1", "iso_8859_1_1987", "iso_ir_100", "l1", "latin", "latin1"]
  | .windows1252 => ["cp1252", "1252", "windows_1252"]

def all : List Encoding :=
  [.ascii, .utf8, .utf8Signed, .utf16, .latin1, .windows1252]

def isNameChar (c : Char) : Bool :=
  c.isAlphanum || c == '.'

/-- A name in normal form: lower case, with single underscores for separators. -/
def normalName (name : String) : String :=
  "_".intercalate (((name.toList.splitOnP (! isNameChar ·)).filter (! ·.isEmpty)).map fun piece =>
    String.ofList (piece.map Char.toLower))

def ofName? (name : String) : Option Encoding :=
  all.find? fun e => e.names.contains (normalName name)

/-- Why bytes cannot be read. -/
inductive Reason where
  | notAscii | invalidStart | invalidContinuation | unexpectedEnd | undefined | truncated
  | illegalEncoding | illegalSurrogate
  deriving DecidableEq, Repr

def Reason.text : Reason → String
  | .notAscii => "ordinal not in range(128)"
  | .invalidStart => "invalid start byte"
  | .invalidContinuation => "invalid continuation byte"
  | .unexpectedEnd => "unexpected end of data"
  | .undefined => "character maps to <undefined>"
  | .truncated => "truncated data"
  | .illegalEncoding => "illegal encoding"
  | .illegalSurrogate => "illegal UTF-16 surrogate"

/-- Bytes that cannot be read: the first of them, where it stands and how many there are. -/
structure Malformed where
  codec : String
  byte : UInt8
  position : Nat
  length : Nat
  reason : Reason
  deriving DecidableEq, Repr

def hexByte (b : UInt8) : String :=
  String.ofList [Nat.digitChar (b.toNat / 16), Nat.digitChar (b.toNat % 16)]

def Malformed.message (m : Malformed) : String :=
  let last := m.position + m.length - 1
  let place :=
    if m.length = 1 then s!"byte 0x{hexByte m.byte} in position {m.position}"
    else s!"bytes in position {m.position}-{last}"
  s!"'{m.codec}' codec can't decode {place}: {m.reason.text}"

/-! ### ASCII, Latin-1 and Windows-1252

In these, every byte is a character.
-/

/-- Reads byte by byte, from the given position on. -/
def decodeBytes (codec : String) (reason : Reason) (char? : UInt8 → Option Char) (position : Nat) :
    List UInt8 → Except Malformed (List Char)
  | [] => .ok []
  | b :: rest =>
    match char? b with
    | none => .error ⟨codec, b, position, 1, reason⟩
    | some c => (decodeBytes codec reason char? (position + 1) rest).map (c :: ·)

def asciiChar? (b : UInt8) : Option Char :=
  if b < 0x80 then some (Char.ofNat b.toNat) else none

/-- The characters of the bytes from 80 to 9F in Windows-1252. -/
def windowsRow : List (Option Char) :=
  [some '€', none, some '‚', some 'ƒ', some '„', some '…', some '†', some '‡', some 'ˆ', some '‰',
   some 'Š', some '‹', some 'Œ', none, some 'Ž', none, none, some '‘', some '’', some '“',
   some '”', some '•', some '–', some '—', some '˜', some '™', some 'š', some '›', some 'œ', none,
   some 'ž', some 'Ÿ']

/-- The other bytes are as in Latin-1. -/
def windowsChar? (b : UInt8) : Option Char :=
  if 0x80 ≤ b ∧ b < 0xa0 then (windowsRow[b.toNat - 0x80]?).join
  else some (Char.ofNat b.toNat)

def decodeAscii (bytes : List UInt8) : Except Malformed (List Char) :=
  decodeBytes "ascii" .notAscii asciiChar? 0 bytes

def decodeLatin1 (bytes : List UInt8) : List Char :=
  bytes.map fun b => Char.ofNat b.toNat

def decodeWindows1252 (bytes : List UInt8) : Except Malformed (List Char) :=
  decodeBytes "charmap" .undefined windowsChar? 0 bytes

/-! ### UTF-8

The lead byte of a character fixes how many bytes follow and which of them may come second,
so that no character is written longer than needed, none is half of a surrogate pair and none
lies above U+10FFFF.
-/

/-- The bytes that may follow a lead: the range of each. -/
def tailRanges (lead : UInt8) : List (UInt8 × UInt8) :=
  if lead < 0xe0 then [(0x80, 0xbf)]
  else if lead = 0xe0 then [(0xa0, 0xbf), (0x80, 0xbf)]
  else if lead = 0xed then [(0x80, 0x9f), (0x80, 0xbf)]
  else if lead < 0xf0 then [(0x80, 0xbf), (0x80, 0xbf)]
  else if lead = 0xf0 then [(0x90, 0xbf), (0x80, 0xbf), (0x80, 0xbf)]
  else if lead = 0xf4 then [(0x80, 0x8f), (0x80, 0xbf), (0x80, 0xbf)]
  else [(0x80, 0xbf), (0x80, 0xbf), (0x80, 0xbf)]

/-- The bits that a lead gives to its character. -/
def leadBits (lead : UInt8) : Nat :=
  if lead < 0xe0 then lead.toNat - 0xc0
  else if lead < 0xf0 then lead.toNat - 0xe0
  else lead.toNat - 0xf0

/-- Reads the bytes that follow a lead, `length` bytes having been read and `bits` being their
value; a failure gives the number of bytes that were right. -/
def readTail (bits length : Nat) :
    List (UInt8 × UInt8) → List UInt8 → Except (Nat × Reason) Nat
  | [], _ => .ok bits
  | _ :: _, [] => .error (length, .unexpectedEnd)
  | (low, high) :: ranges, b :: rest =>
    if low ≤ b ∧ b ≤ high then readTail (64 * bits + (b.toNat - 0x80)) (length + 1) ranges rest
    else .error (length, .invalidContinuation)

/-- The code point of a character that starts with this lead, and the number of bytes after it. -/
def readScalar (lead : UInt8) (rest : List UInt8) : Except (Nat × Reason) (Nat × Nat) :=
  if lead < 0x80 then .ok (lead.toNat, 0)
  else if lead < 0xc2 ∨ 0xf4 < lead then .error (1, .invalidStart)
  else
    let ranges := tailRanges lead
    (readTail (leadBits lead) 1 ranges rest).map fun bits => (bits, ranges.length)

/-- Reads characters from the given position on, after passing over `skip` bytes. -/
def decodeUtf8From (position : Nat) : Nat → List UInt8 → Except Malformed (List Char)
  | _, [] => .ok []
  | skip + 1, _ :: rest => decodeUtf8From (position + 1) skip rest
  | 0, b :: rest =>
    match readScalar b rest with
    | .ok (n, more) => (decodeUtf8From (position + 1) more rest).map (Char.ofNat n :: ·)
    | .error (length, reason) => .error ⟨"utf-8", b, position, length, reason⟩

def decodeUtf8 (bytes : List UInt8) : Except Malformed (List Char) :=
  decodeUtf8From 0 0 bytes

/-- With a byte order mark in front, which is no part of the text; positions count after it. -/
def decodeUtf8Signed : List UInt8 → Except Malformed (List Char)
  | 0xef :: 0xbb :: 0xbf :: rest => decodeUtf8 rest
  | bytes => decodeUtf8 bytes

/-! ### UTF-16

A byte order mark in front tells the order of the bytes and is no part of the text;
without one the low byte comes first. Positions count the mark.
-/

inductive ByteOrder where
  | little | big
  deriving DecidableEq, Repr

def ByteOrder.codec : ByteOrder → String
  | .little => "utf-16-le"
  | .big => "utf-16-be"

/-- The unit that two bytes write. -/
def ByteOrder.unit (order : ByteOrder) (a b : UInt8) : Nat :=
  match order with
  | .little => a.toNat + 256 * b.toNat
  | .big => 256 * a.toNat + b.toNat

def isHighSurrogate (unit : Nat) : Bool :=
  0xd800 ≤ unit && unit < 0xdc00

def isLowSurrogate (unit : Nat) : Bool :=
  0xdc00 ≤ unit && unit < 0xe000

/-- Reads units from the given position on. -/
def decodeUnits (order : ByteOrder) (position : Nat) : List UInt8 → Except Malformed (List Char)
  | [] => .ok []
  | [a] => .error ⟨order.codec, a, position, 1, .truncated⟩
  | [a, b] =>
    let unit := order.unit a b
    if isHighSurrogate unit then .error ⟨order.codec, a, position, 2, .unexpectedEnd⟩
    else if isLowSurrogate unit then .error ⟨order.codec, a, position, 2, .illegalEncoding⟩
    else .ok [Char.ofNat unit]
  | [a, b, c] =>
    let unit := order.unit a b
    if isHighSurrogate unit then .error ⟨order.codec, a, position, 3, .unexpectedEnd⟩
    else if isLowSurrogate unit then .error ⟨order.codec, a, position, 2, .illegalEncoding⟩
    else .error ⟨order.codec, c, position + 2, 1, .truncated⟩
  | a :: b :: c :: d :: rest =>
    let unit := order.unit a b
    let next := order.unit c d
    if isHighSurrogate unit then
      if isLowSurrogate next then
        let n := 0x10000 + (unit - 0xd800) * 0x400 + (next - 0xdc00)
        (decodeUnits order (position + 4) rest).map (Char.ofNat n :: ·)
      else .error ⟨order.codec, a, position, 2, .illegalSurrogate⟩
    else if isLowSurrogate unit then .error ⟨order.codec, a, position, 2, .illegalEncoding⟩
    else (decodeUnits order (position + 2) (c :: d :: rest)).map (Char.ofNat unit :: ·)

def decodeUtf16 : List UInt8 → Except Malformed (List Char)
  | 0xff :: 0xfe :: rest => decodeUnits .little 2 rest
  | 0xfe :: 0xff :: rest => decodeUnits .big 2 rest
  | bytes => decodeUnits .little 0 bytes

/-! ### Decoding by name -/

def decode : Encoding → List UInt8 → Except Malformed (List Char)
  | .ascii => decodeAscii
  | .utf8 => decodeUtf8
  | .utf8Signed => decodeUtf8Signed
  | .utf16 => decodeUtf16
  | .latin1 => fun bytes => .ok (decodeLatin1 bytes)
  | .windows1252 => decodeWindows1252

/-- Why bytes could not be decoded. -/
inductive Failure where
  | unknownName (name : String)
  | malformed (m : Malformed)
  deriving DecidableEq, Repr

def Failure.message : Failure → String
  | .unknownName name => "unknown encoding: " ++ name
  | .malformed m => m.message

/-- The text that bytes hold. No bytes are the empty text under any name. -/
def decodeNamed (name : String) (bytes : List UInt8) : Except Failure String :=
  if bytes.isEmpty then .ok ""
  else match ofName? name with
    | none => .error (.unknownName name)
    | some encoding => (encoding.decode bytes).map String.ofList |>.mapError .malformed

end Encoding

/-! ### Files -/

/-- A guess at the encoding of a file, and how sure it is: 1 is certain. -/
structure Guess where
  encoding : Option String
  confidence : Option Float

/-- A file: its bytes, and the guess at their encoding. -/
structure Source where
  bytes : List UInt8
  guess : Guess

end Dockerfile
