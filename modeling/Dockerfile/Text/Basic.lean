import Dockerfile.Text.Classes

/-!
Texts: what they are cut into, what is looked for in them, and how they are quoted.

The functions on `List Char` carry the meaning; those on `String` are their images under `toList`,
which the `toList_…` lemmas say.
-/

namespace Dockerfile.Text

/-! ### Blanks and line breaks

Blanks separate words and are trimmed from the ends of a text; line breaks end a physical line, and
each of them is blank (`isBlank_of_isLineBreak`). Neither a zero-width space (U+200B) nor a byte
order mark (U+FEFF) is blank.
-/

/-- Tabs, line breaks, the information separators, and every space character. -/
def isBlank (c : Char) : Bool :=
  let n := c.toNat
  (9 ≤ n && n ≤ 13) || (0x1c ≤ n && n ≤ 0x20) || n == 0x85 || n == 0xa0 || n == 0x1680 ||
  (0x2000 ≤ n && n ≤ 0x200a) || n == 0x2028 || n == 0x2029 || n == 0x202f || n == 0x205f ||
  n == 0x3000

/-- Line feed, vertical tab, form feed, carriage return, the file, group and record separators,
next line, and the line and paragraph separators. -/
def isLineBreak (c : Char) : Bool :=
  let n := c.toNat
  (10 ≤ n && n ≤ 13) || (0x1c ≤ n && n ≤ 0x1e) || n == 0x85 || n == 0x2028 || n == 0x2029

theorem isBlank_of_isLineBreak {c : Char} (h : isLineBreak c) : isBlank c := by
  simp only [isLineBreak, isBlank, Bool.or_eq_true, Bool.and_eq_true, decide_eq_true_eq,
    beq_iff_eq] at *
  omega

/-! ### Words

* `strip` removes blanks at both ends.
* `words` is the list of maximal runs of non-blank characters.
* `firstWord?` is the first word with what follows it, less the blanks between the two; blanks at
  the end of the text stay.
-/

/-- The characters without the blanks they end in. -/
def trimEnd (cs : List Char) : List Char :=
  (cs.reverse.dropWhile isBlank).reverse

/-- The characters without the blanks at either end. -/
def trim (cs : List Char) : List Char :=
  trimEnd (cs.dropWhile isBlank)

/-- The maximal runs of non-blank characters, in order. -/
def wordsOf (cs : List Char) : List (List Char) :=
  (cs.splitOnP isBlank).filter (! ·.isEmpty)

/-- The text without the blanks at either end. -/
def strip (s : String) : String :=
  String.ofList (trim s.toList)

/-- The blank-separated words of a text. -/
def words (s : String) : List String :=
  (wordsOf s.toList).map String.ofList

/-- The first word and the text that follows it from the next non-blank character on, or nothing
for a blank text. -/
def firstWord? (s : String) : Option (String × String) :=
  let cs := s.toList.dropWhile isBlank
  if cs.isEmpty then none
  else some (String.ofList (cs.takeWhile (! isBlank ·)),
    String.ofList ((cs.dropWhile (! isBlank ·)).dropWhile isBlank))

@[simp]
theorem toList_strip (s : String) : (strip s).toList = trim s.toList := by
  simp [strip]

@[simp]
theorem map_toList_words (s : String) : (words s).map String.toList = wordsOf s.toList := by
  simp [words, Function.comp_def]

/-! ### Lines

A line break ends a line and is no part of it; a carriage return with the line feed after it is one
break; text after the last break is a line unless it is empty.
-/

/-- The physical lines of a text. -/
def linesOf : List Char → List (List Char)
  | [] => []
  | '\r' :: '\n' :: rest => [] :: linesOf rest
  | c :: rest =>
    if isLineBreak c then [] :: linesOf rest
    else match linesOf rest with
      | [] => [[c]]
      | line :: more => (c :: line) :: more

/-! ### Phrases

* `occurs` and `mentions` — does the phrase stand somewhere in the text? (`occurs_iff`)
* `removeAll` — the text with every occurrence taken out, from left to right and without overlap.
* `startsWith`, `endsWith` — the phrase stands at that end of the text.
* `before`, `after` — the text on either side of the first occurrence of a character.
-/

/-- The phrase is a contiguous part of the characters. -/
def occurs (phrase : List Char) : List Char → Bool
  | [] => phrase.isEmpty
  | c :: rest => phrase.isPrefixOf (c :: rest) || occurs phrase rest

/-- Drops `skip` characters, then takes out every occurrence of the phrase that starts after
them. -/
def removeFrom (phrase : List Char) : Nat → List Char → List Char
  | _, [] => []
  | skip + 1, _ :: rest => removeFrom phrase skip rest
  | 0, c :: rest =>
    if phrase.isPrefixOf (c :: rest) then removeFrom phrase (phrase.length - 1) rest
    else c :: removeFrom phrase 0 rest

/-- The text holds the phrase. -/
def mentions (s phrase : String) : Bool :=
  occurs phrase.toList s.toList

/-- The text without any occurrence of the (non-empty) phrase. -/
def removeAll (s phrase : String) : String :=
  String.ofList (removeFrom phrase.toList 0 s.toList)

def startsWith (s phrase : String) : Bool :=
  phrase.toList.isPrefixOf s.toList

def endsWith (s phrase : String) : Bool :=
  phrase.toList.isSuffixOf s.toList

/-- The text up to the first `c`, or all of it. -/
def before (c : Char) (s : String) : String :=
  String.ofList (s.toList.takeWhile (· != c))

/-- The text after the first `c`, or nothing. -/
def after (c : Char) (s : String) : String :=
  String.ofList ((s.toList.dropWhile (· != c)).drop 1)

theorem occurs_iff {phrase cs : List Char} : occurs phrase cs ↔ phrase <:+: cs := by
  induction cs with
  | nil => simp [occurs]
  | cons c rest ih =>
    rw [occurs, Bool.or_eq_true, List.isPrefixOf_iff_prefix, ih, List.infix_cons_iff]

theorem mentions_iff {s phrase : String} : mentions s phrase ↔ phrase.toList <:+: s.toList :=
  occurs_iff

/-! ### Upper and lower case

Keywords, stage markers and secret names are recognised without regard to case, always against
words of ASCII letters. `upper` and `lower` follow the full case mapping, where one letter may
become several, for every character whose mapped form holds an ASCII letter. Any other character
outside ASCII stands for itself: its mapped form has no ASCII letter either, so no comparison with
an ASCII word can tell the two apart.
-/

/-- The upper-case form of a character. -/
def upperForm : Char → List Char
  | 'ß' => ['S', 'S']
  | 'ı' => ['I']
  | 'ŉ' => ['ʼ', 'N']
  | 'ſ' => ['S']
  | 'ǰ' => ['J', '\u030c']
  | 'ẖ' => ['H', '\u0331']
  | 'ẗ' => ['T', '\u0308']
  | 'ẘ' => ['W', '\u030a']
  | 'ẙ' => ['Y', '\u030a']
  | 'ẚ' => ['A', 'ʾ']
  | 'ﬀ' => ['F', 'F']
  | 'ﬁ' => ['F', 'I']
  | 'ﬂ' => ['F', 'L']
  | 'ﬃ' => ['F', 'F', 'I']
  | 'ﬄ' => ['F', 'F', 'L']
  | 'ﬅ' => ['S', 'T']
  | 'ﬆ' => ['S', 'T']
  | c => [c.toUpper]

/-- The lower-case form of a character. -/
def lowerForm : Char → List Char
  | 'İ' => ['i', '\u0307']
  | '\u212a' => ['k']
  | c => [c.toLower]

def upper (s : String) : String :=
  String.ofList (s.toList.flatMap upperForm)

def lower (s : String) : String :=
  String.ofList (s.toList.flatMap lowerForm)

/-! ### Similarity

The longest block that two texts share is found first, then the longest blocks to its left and to
its right, and so on. The texts are alike if the blocks make up at least six tenths of both.
-/

/-- The number of characters that both lists start with. -/
def commonStart : List Char → List Char → Nat
  | a :: as, b :: bs => if a = b then commonStart as bs + 1 else 0
  | _, _ => 0

/-- A block that two texts share: where it starts in each, and its length. -/
structure Block where
  left : Nat
  right : Nat
  length : Nat
  deriving DecidableEq, Repr

/-- The longest shared block; of several, the one that starts first in the first text, then in the
second. -/
def longestBlock (as bs : List Char) : Block :=
  let starts := (List.range as.length).flatMap fun i => (List.range bs.length).map fun j => (i, j)
  starts.foldl
    (fun best (i, j) =>
      let length := commonStart (as.drop i) (bs.drop j)
      if best.length < length then ⟨i, j, length⟩ else best)
    ⟨0, 0, 0⟩

/-- The characters in shared blocks. Every block shortens the texts, so as many rounds as the first
has characters are enough. -/
def sharedCount : Nat → List Char → List Char → Nat
  | 0, _, _ => 0
  | rounds + 1, as, bs =>
    let block := longestBlock as bs
    if block.length = 0 then 0
    else block.length + sharedCount rounds (as.take block.left) (bs.take block.right) +
      sharedCount rounds (as.drop (block.left + block.length))
        (bs.drop (block.right + block.length))

def areAlike (s t : String) : Bool :=
  let shared := sharedCount s.length s.toList t.toList
  3 * (s.length + t.length) ≤ 10 * shared

/-! ### Quoted texts

In messages, a text stands between single quotes, or between double quotes if it holds a single
quote and no double quote. The quote, the backslash, line feed, carriage return and tab are escaped
by a backslash, other characters that are not printable by their code point.
-/

/-- The code point in hexadecimal, with two, four or eight digits. -/
def codeEscape (n : Nat) : List Char :=
  let digit (k : Nat) := Nat.digitChar (n / Nat.pow 16 k % 16)
  if n < 0x100 then ['\\', 'x', digit 1, digit 0]
  else if n < 0x10000 then ['\\', 'u', digit 3, digit 2, digit 1, digit 0]
  else ['\\', 'U', digit 7, digit 6, digit 5, digit 4, digit 3, digit 2, digit 1, digit 0]

/-- The quote that a text is put between. -/
def quoteMark (cs : List Char) : Char :=
  if cs.contains '\x27' && !cs.contains '\x22' then '\x22' else '\x27'

def quotedChar (mark c : Char) : List Char :=
  if c = mark ∨ c = '\\' then ['\\', c]
  else if c = '\n' then ['\\', 'n']
  else if c = '\r' then ['\\', 'r']
  else if c = '\t' then ['\\', 't']
  else if isPrintable c then [c]
  else codeEscape c.toNat

/-- The text in quotes. -/
def quoted (s : String) : String :=
  let mark := quoteMark s.toList
  String.ofList (mark :: s.toList.flatMap (quotedChar mark) ++ [mark])

end Dockerfile.Text
