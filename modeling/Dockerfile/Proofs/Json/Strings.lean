import Dockerfile.Json

/-!
Strings in JSON text.

A character is written as one or two units (`unitsOf`), each of them as itself, by a short escape or
by four hexadecimal digits. Reading takes the units off again one character at a time
(`readUnits?_escape`), and joining the surrogate pairs among them gives back the characters
(`joinPairs_flatMap_unitsOf`).
-/

namespace Dockerfile.Json

variable {c : Char} {cs rest : List Char} {n : Nat}

/-! ### Units -/

/-- The two units of a character above U+FFFF. -/
def highUnit (c : Char) : Nat :=
  0xd800 + (c.toNat - 0x10000) / 0x400

def lowUnit (c : Char) : Nat :=
  0xdc00 + (c.toNat - 0x10000) % 0x400

/-- The units of 16 bits that a character takes. -/
def unitsOf (c : Char) : List Nat :=
  if c.toNat < 0x10000 then [c.toNat] else [highUnit c, lowUnit c]

theorem unitsOf_of_lt (h : c.toNat < 0x10000) : unitsOf c = [c.toNat] :=
  if_pos h

theorem unitsOf_of_le (h : 0x10000 ≤ c.toNat) : unitsOf c = [highUnit c, lowUnit c] :=
  if_neg (Nat.not_lt.mpr h)

theorem not_surrogate (c : Char) : ¬ (0xd800 ≤ c.toNat ∧ c.toNat < 0xe000) := by
  have valid := c.valid
  simp only [UInt32.isValidChar, Nat.isValidChar] at valid
  change ¬ (0xd800 ≤ c.val.toNat ∧ c.val.toNat < 0xe000)
  omega

theorem toNat_lt (c : Char) : c.toNat < 0x110000 := by
  have valid := c.valid
  simp only [UInt32.isValidChar, Nat.isValidChar] at valid
  change c.val.toNat < 0x110000
  omega

theorem joinPairs_cons_toNat (h : c.toNat < 0x10000) (units : List Nat) :
    joinPairs (c.toNat :: units) = c :: joinPairs units := by
  have outside := not_surrogate c
  have single : unitChar c.toNat = c := by
    rw [unitChar, if_neg outside, Char.ofNat_toNat]
  cases units with
  | nil => rw [joinPairs, joinPairs, single]
  | cons low units =>
    rw [joinPairs, if_neg (by omega), single]

theorem joinPairs_unitsOf_append (c : Char) (units : List Nat) :
    joinPairs (unitsOf c ++ units) = c :: joinPairs units := by
  by_cases small : c.toNat < 0x10000
  · rw [unitsOf_of_lt small]
    exact joinPairs_cons_toNat small units
  · have large : 0x10000 ≤ c.toNat := Nat.le_of_not_lt small
    have bound := toNat_lt c
    have pair : 0x10000 + (highUnit c - 0xd800) * 0x400 + (lowUnit c - 0xdc00) = c.toNat := by
      rw [highUnit, lowUnit]
      omega
    rw [unitsOf_of_le large, List.cons_append, List.cons_append, List.nil_append, joinPairs,
      if_pos (by rw [highUnit, lowUnit]; omega), pair, Char.ofNat_toNat]

theorem joinPairs_flatMap_unitsOf (cs : List Char) : joinPairs (cs.flatMap unitsOf) = cs := by
  induction cs with
  | nil => rfl
  | cons c cs ih => rw [List.flatMap_cons, joinPairs_unitsOf_append, ih]

/-! ### Escapes -/

/-- A character is escaped by a letter, not at all, or by the digits of its units. -/
inductive Escaped (c : Char) : List Char → Prop
  | short {e : Char} : e ≠ 'u' → shortEscape? e = some c → c.toNat < 0x10000 → Escaped c ['\\', e]
  | plain : c ≠ '\x22' → c ≠ '\\' → 0x20 ≤ c.toNat → c.toNat < 0x7f → Escaped c [c]
  | unit : c.toNat < 0x10000 → Escaped c (unitEscape c.toNat)
  | pair : 0x10000 ≤ c.toNat → Escaped c (unitEscape (highUnit c) ++ unitEscape (lowUnit c))

theorem escaped_escape (c : Char) : Escaped c (escape c) := by
  have of_toNat {d : Char} (h : c.toNat = d.toNat) : c = d := by
    rw [← Char.ofNat_toNat c, h, Char.ofNat_toNat]
  have short {d : Char} (h : c = d) (e : Char) (text : escape d = ['\\', e]) (ne : e ≠ 'u')
      (read : shortEscape? e = some d) (small : d.toNat < 0x10000) : Escaped c (escape c) := by
    rw [h, text]
    exact .short ne read small
  by_cases quote : c = '\x22'
  · exact short quote '\x22' rfl (by decide) rfl (by decide)
  by_cases backslash : c = '\\'
  · exact short backslash '\\' rfl (by decide) rfl (by decide)
  by_cases lf : c = '\n'
  · exact short lf 'n' rfl (by decide) rfl (by decide)
  by_cases cr : c = '\r'
  · exact short cr 'r' rfl (by decide) rfl (by decide)
  by_cases tab : c = '\t'
  · exact short tab 't' rfl (by decide) rfl (by decide)
  by_cases feed : c.toNat = 0x0c
  · exact short (of_toNat (d := '\x0c') feed) 'f' rfl (by decide) rfl (by decide)
  by_cases back : c.toNat = 0x08
  · exact short (of_toNat (d := '\x08') back) 'b' rfl (by decide) rfl (by decide)
  simp only [escape, quote, backslash, lf, cr, tab, feed, back, if_false]
  split
  · next h => exact .plain quote backslash h.1 h.2
  split
  · next h => exact .unit h
  · next h => exact .pair (Nat.le_of_not_lt h)

theorem hexValue?_digitChar : ∀ n < 16, hexValue? n.digitChar = some n := by
  decide

theorem hexUnit?_digitChars (h : n < 0x10000) :
    hexUnit? (n / 4096 % 16).digitChar (n / 256 % 16).digitChar (n / 16 % 16).digitChar
      (n % 16).digitChar = some n := by
  have digit (m : Nat) : hexValue? (m % 16).digitChar = some (m % 16) :=
    hexValue?_digitChar _ (Nat.mod_lt m (by decide))
  have sum : 4096 * (n / 4096 % 16) + 256 * (n / 256 % 16) + 16 * (n / 16 % 16) + n % 16 = n := by
    omega
  simp only [hexUnit?, digit, Option.pure_def, Option.bind_eq_bind, Option.bind_some, sum]

theorem readUnits?_unitEscape (h : n < 0x10000) (rest : List Char) :
    readUnits? (unitEscape n ++ rest) = (readUnits? rest).map (Prod.map (n :: ·) id) := by
  simp only [unitEscape, List.cons_append, List.nil_append]
  rw [readUnits?, hexUnit?_digitChars h]
  cases readUnits? rest <;> rfl

theorem readUnits?_short {e : Char} (ne : e ≠ 'u') (h : shortEscape? e = some c)
    (rest : List Char) :
    readUnits? ('\\' :: e :: rest) = (readUnits? rest).map (Prod.map (c.toNat :: ·) id) := by
  rw [readUnits?, h]
  · cases readUnits? rest <;> rfl
  · simp [ne]

theorem readUnits?_plain (quote : c ≠ '\x22') (backslash : c ≠ '\\') (printed : 0x20 ≤ c.toNat)
    (rest : List Char) :
    readUnits? (c :: rest) = (readUnits? rest).map (Prod.map (c.toNat :: ·) id) := by
  rw [readUnits?, if_neg quote, if_neg (by simp [backslash]; omega)]
  · cases readUnits? rest <;> rfl
  · simp [backslash]
  · simp [backslash]

theorem readUnits?_escape (c : Char) (rest : List Char) :
    readUnits? (escape c ++ rest) = (readUnits? rest).map (Prod.map (unitsOf c ++ ·) id) := by
  have escaped := escaped_escape c
  generalize escape c = text at escaped ⊢
  cases escaped with
  | short ne read small =>
    rw [unitsOf_of_lt small]
    exact readUnits?_short ne read rest
  | plain quote backslash printed small =>
    rw [unitsOf_of_lt (by omega)]
    exact readUnits?_plain quote backslash printed rest
  | unit small =>
    rw [unitsOf_of_lt small]
    exact readUnits?_unitEscape small rest
  | pair large =>
    have bound := toNat_lt c
    rw [unitsOf_of_le large, List.append_assoc, readUnits?_unitEscape (by rw [highUnit]; omega),
      readUnits?_unitEscape (by rw [lowUnit]; omega), Option.map_map]
    rfl

/-- Reading a string that was written takes its characters and the closing quote. -/
theorem readUnits?_flatMap_escape (cs rest : List Char) :
    readUnits? (cs.flatMap escape ++ '\x22' :: rest) = some (cs.flatMap unitsOf, rest) := by
  induction cs with
  | nil => simp [readUnits?]
  | cons c cs ih =>
    rw [List.flatMap_cons, List.append_assoc, readUnits?_escape, ih, List.flatMap_cons]
    rfl

theorem quoted_append (s : String) (rest : List Char) :
    quoted s ++ rest = '\x22' :: (s.toList.flatMap escape ++ '\x22' :: rest) := by
  simp [quoted]

theorem readString?_flatMap_escape (s : String) (rest : List Char) :
    readString? (s.toList.flatMap escape ++ '\x22' :: rest) = some (s, rest) := by
  simp only [readString?, readUnits?_flatMap_escape, Option.map_some, joinPairs_flatMap_unitsOf,
    String.ofList_toList]

/-! ### ASCII -/

/-- The text is in ASCII. -/
def Ascii (cs : List Char) : Prop :=
  ∀ c ∈ cs, c.toNat < 128

theorem ascii_append : Ascii (cs ++ rest) ↔ Ascii cs ∧ Ascii rest :=
  List.forall_mem_append

theorem ascii_cons : Ascii (c :: rest) ↔ c.toNat < 128 ∧ Ascii rest :=
  List.forall_mem_cons

theorem ascii_nil : Ascii [] :=
  List.forall_mem_nil _

theorem ascii_unitEscape (n : Nat) : Ascii (unitEscape n) := by
  have digits : ∀ m < 16, m.digitChar.toNat < 128 := by decide
  have digit (m : Nat) : (m % 16).digitChar.toNat < 128 := digits _ (Nat.mod_lt m (by decide))
  simp only [unitEscape, ascii_cons, digit, ascii_nil, and_true]
  decide

theorem toNat_lt_of_shortEscape? {e : Char} (h : shortEscape? e = some c) : e.toNat < 128 := by
  unfold shortEscape? at h
  split at h
  · next same => rcases same with rfl | rfl | rfl <;> decide
  split at h
  · next lf => rw [lf]; decide
  split at h
  · next cr => rw [cr]; decide
  split at h
  · next tab => rw [tab]; decide
  split at h
  · next back => rw [back]; decide
  split at h
  · next feed => rw [feed]; decide
  · cases h

theorem ascii_escape (c : Char) : Ascii (escape c) := by
  have escaped := escaped_escape c
  generalize escape c = text at escaped ⊢
  cases escaped with
  | short _ read _ =>
    simp only [ascii_cons, toNat_lt_of_shortEscape? read, ascii_nil, and_true]
    decide
  | plain _ _ _ small => exact ascii_cons.mpr ⟨by omega, ascii_nil⟩
  | unit _ => exact ascii_unitEscape _
  | pair _ => exact ascii_append.mpr ⟨ascii_unitEscape _, ascii_unitEscape _⟩

theorem ascii_quoted (s : String) : Ascii (quoted s) := by
  have inner : Ascii (s.toList.flatMap escape) := by
    intro c hc
    obtain ⟨d, -, hd⟩ := List.mem_flatMap.mp hc
    exact ascii_escape d c hd
  simp only [quoted, ascii_append, ascii_cons, inner, ascii_nil, and_true]
  decide

end Dockerfile.Json
