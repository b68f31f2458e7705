import Mathlib.Data.List.DropRight
import Dockerfile.Proofs.Json.Strings

/-!
Indented JSON text is read back.

A value without reals whose records have each key once (`Exact`) is read from its indented text,
wherever that stands (`ReadsBack`): the text needs no more fuel than it has characters, and what
follows it decides nothing, as long as a number ends there (`EndsNumber`). The parts of a list or a
record are read one after the other, so each kind of value has one lemma, and `Exact.readsBack` is
an induction over them. Main results: `ofText?_indentedText_append`, and `Exact.ascii` on the characters of
the text.
-/

namespace Dockerfile.Json

variable {c : Char} {cs ds rest : List Char} {n : Nat}

/-! ### Numbers -/

/-- A number ends here: no digit follows, and no decimals or power of ten. -/
def EndsNumber (rest : List Char) : Prop :=
  ∀ c ∈ rest.head?, c.isDigit = false ∧ c ≠ '.' ∧ c ≠ 'e' ∧ c ≠ 'E'

theorem endsNumber_cons :
    EndsNumber (c :: rest) ↔ c.isDigit = false ∧ c ≠ '.' ∧ c ≠ 'e' ∧ c ≠ 'E' := by
  simp [EndsNumber]

theorem spanDigits_append (digits : ∀ c ∈ ds, c.isDigit = true) (h : EndsNumber rest) :
    spanDigits (ds ++ rest) = (ds, rest) := by
  have stops : rest.takeWhile Char.isDigit = [] ∧ rest.dropWhile Char.isDigit = rest := by
    cases rest with
    | nil => exact ⟨rfl, rfl⟩
    | cons c rest =>
      have other := (endsNumber_cons.mp h).1
      exact ⟨List.takeWhile_cons_of_neg (by simp [other]),
        List.dropWhile_cons_of_neg (by simp [other])⟩
  rw [spanDigits, List.takeWhile_append_of_pos digits, List.dropWhile_append_of_pos digits, stops.1,
    stops.2, List.append_nil]

theorem readDecimals?_of_endsNumber (h : EndsNumber rest) :
    readDecimals? rest = some ([], rest) := by
  unfold readDecimals?
  split
  · exact absurd rfl (endsNumber_cons.mp h).2.1
  · rfl

theorem readPower?_of_endsNumber (h : EndsNumber rest) : readPower? rest = some (none, rest) := by
  cases rest with
  | nil => rfl
  | cons c rest =>
    obtain ⟨-, -, small, large⟩ := endsNumber_cons.mp h
    unfold readPower?
    exact if_neg (by simp [small, large])

theorem decimalValue_toDigits (n : Nat) : decimalValue (Nat.toDigits 10 n) = n := by
  have value : Nat.ofDigitChars 10 (Nat.toDigits 10 n) 0 = n :=
    Nat.ofDigitChars_toDigits (by decide) (by decide)
  rw [Nat.ofDigitChars_eq_foldl] at value
  exact value

theorem isDigit_of_mem_toDigits (h : c ∈ Nat.toDigits 10 n) : c.isDigit = true :=
  Nat.isDigit_of_mem_toDigits (by decide) (by decide) h

/-- A number other than zero is written without a zero in front. -/
theorem head?_toDigits (h : 0 < n) : (Nat.toDigits 10 n).head? ≠ some '0' := by
  induction n using Nat.strongRecOn with
  | ind n ih =>
    rw [Nat.toDigits_eq_if (by decide)]
    split
    · next small =>
      have digits : ∀ m < 10, 0 < m → m.digitChar ≠ '0' := by decide
      simpa using digits n small h
    · next large =>
      rw [List.head?_append_of_ne_nil _ Nat.toDigits_ne_nil]
      exact ih (n / 10) (by omega) (by omega)

theorem length_toDigits_of_head? (h : (Nat.toDigits 10 n).head? = some '0') :
    (Nat.toDigits 10 n).length ≤ 1 := by
  rcases Nat.eq_zero_or_pos n with rfl | positive
  · decide
  · exact absurd h (head?_toDigits positive)

/-- The digits of a number, after a minus sign if it is negative. -/
def signed (negative : Bool) (n : Nat) : List Char :=
  (if negative then ['-'] else []) ++ Nat.toDigits 10 n

theorem toList_toString (n : Int) :
    ∃ negative m, (toString n).toList = signed negative m ∧
      n = if negative then -(m : Int) else m := by
  cases n with
  | ofNat m =>
    refine ⟨false, m, ?_, rfl⟩
    change m.repr.toList = Nat.toDigits 10 m
    exact Nat.toList_repr
  | negSucc m =>
    refine ⟨true, m + 1, ?_, rfl⟩
    change ("-" ++ (m + 1).repr).toList = '-' :: Nat.toDigits 10 (m + 1)
    rw [String.toList_append, Nat.toList_repr]
    rfl

theorem readNumber?_signed (h : EndsNumber rest) (negative : Bool) (n : Nat) :
    readNumber? (signed negative n ++ rest)
      = some (.int (if negative then -(n : Int) else n), rest) := by
  unfold readNumber?
  split
  next found cs sign =>
  have parts : found = negative ∧ cs = Nat.toDigits 10 n ++ rest := by
    cases negative with
    | true => simpa [signed, eq_comm] using sign
    | false =>
      obtain ⟨d, ds, digits⟩ := List.exists_cons_of_ne_nil (Nat.toDigits_ne_nil (n := n) (b := 10))
      have digit : d.isDigit = true := isDigit_of_mem_toDigits (n := n) (by simp [digits])
      have ne : d ≠ '-' := by
        rintro rfl
        cases digit
      simpa [signed, digits, ne, eq_comm] using sign
  obtain ⟨rfl, rfl⟩ := parts
  simpa [spanDigits_append (fun _ => isDigit_of_mem_toDigits) h, readDecimals?_of_endsNumber h,
    readPower?_of_endsNumber h, decimalValue_toDigits] using length_toDigits_of_head?

/-! ### Blanks between values -/

theorem skip_cons (h : isJsonBlank c = false) (rest : List Char) : skip (c :: rest) = c :: rest :=
  List.dropWhile_cons_of_neg (by simp [h])

theorem skip_newline_append (depth : Nat) (cs : List Char) :
    skip (newline depth ++ cs) = skip cs := by
  have blanks : ∀ c ∈ newline depth, isJsonBlank c = true := by
    intro c hc
    rcases List.mem_cons.mp hc with rfl | hc
    · rfl
    · rw [(List.mem_replicate.mp hc).2]
      rfl
  exact List.dropWhile_append_of_pos blanks

theorem skip_skip (cs : List Char) : skip (skip cs) = skip cs :=
  List.dropWhile_idempotent isJsonBlank cs

theorem readValue?_skip (fuel : Nat) (cs : List Char) :
    readValue? fuel (skip cs) = readValue? fuel cs := by
  cases fuel with
  | zero => simp [readValue?]
  | succ fuel => simp only [readValue?, skip_skip]

theorem readItems?_skip (fuel : Nat) (cs : List Char) :
    readItems? fuel (skip cs) = readItems? fuel cs := by
  cases fuel with
  | zero => simp [readItems?]
  | succ fuel => simp only [readItems?, readValue?_skip]

theorem readFields?_skip (fuel : Nat) (before : List (String × Json)) (cs : List Char) :
    readFields? fuel before (skip cs) = readFields? fuel before cs := by
  cases fuel with
  | zero => simp [readFields?]
  | succ fuel => simp only [readFields?, skip_skip]

/-! ### Values -/

/-- A value without reals in which no record has a key twice. -/
inductive Exact : Json → Prop
  | null : Exact .null
  | bool (b : Bool) : Exact (.bool b)
  | int (n : Int) : Exact (.int n)
  | text (s : String) : Exact (.text s)
  | list {items : List Json} : (∀ item ∈ items, Exact item) → Exact (.list items)
  | record {fields : List (String × Json)} : (fields.map Prod.fst).Nodup →
    (∀ field ∈ fields, Exact field.2) → Exact (.record fields)

/-- The value is read back from its text, wherever that stands. -/
def ReadsBack (v : Json) : Prop :=
  ∀ depth fuel rest, (indented depth v).length ≤ fuel → EndsNumber rest →
    readValue? fuel (indented depth v ++ rest) = some (v, rest)

theorem readsBack_text (s : String) : ReadsBack (.text s) := by
  intro depth fuel rest enough _
  have text : indented depth (.text s) = quoted s := by simp [indented, leaf]
  rw [text] at enough ⊢
  cases fuel with
  | zero => simp [quoted] at enough
  | succ fuel =>
    rw [quoted_append, readValue?, skip_cons rfl]
    simp [readString?_flatMap_escape]

/-- A value that holds no other is read back if the reader of such values does so. -/
theorem readsBack_leaf {v : Json} (c : Char) (more : List Char)
    (text : ∀ depth, indented depth v = c :: more) (blank : isJsonBlank c = false)
    (other : c ≠ '\x22' ∧ c ≠ '[' ∧ c ≠ '\x7b')
    (read : ∀ rest, EndsNumber rest → readLeaf? (c :: (more ++ rest)) = some (v, rest)) :
    ReadsBack v := by
  intro depth fuel rest enough ends
  rw [text] at enough ⊢
  cases fuel with
  | zero => simp at enough
  | succ fuel =>
    rw [← read rest ends, List.cons_append, readValue?, skip_cons blank]
    simp [other]

theorem expect?_append (word : String) (cs : List Char) :
    expect? word (word.toList ++ cs) = some cs := by
  simp [expect?, ← String.length_toList]

theorem expect?_eq_none (word : String) {d : Char} {ds : List Char} (h : word.toList = d :: ds)
    (ne : c ≠ d) (cs : List Char) : expect? word (c :: cs) = none := by
  simp [expect?, h, ne.symm]

theorem readsBack_null : ReadsBack .null := by
  refine readsBack_leaf 'n' ['u', 'l', 'l'] (fun _ => ?_) (by decide) (by decide) fun rest _ => ?_
  · simp [indented, leaf]
  · have word : expect? "null" ('n' :: 'u' :: 'l' :: 'l' :: rest) = some rest :=
      expect?_append "null" rest
    simp [readLeaf?, word]

theorem readsBack_bool (b : Bool) : ReadsBack (.bool b) := by
  cases b with
  | true =>
    refine readsBack_leaf 't' ['r', 'u', 'e'] (fun _ => ?_) (by decide) (by decide) fun rest _ => ?_
    · simp [indented, leaf]
    · have word : expect? "true" ('t' :: 'r' :: 'u' :: 'e' :: rest) = some rest :=
        expect?_append "true" rest
      simp [readLeaf?, word, expect?_eq_none "null" (c := 't') rfl (by decide)]
  | false =>
    refine readsBack_leaf 'f' ['a', 'l', 's', 'e'] (fun _ => ?_) (by decide) (by decide)
      fun rest _ => ?_
    · simp [indented, leaf]
    · have word : expect? "false" ('f' :: 'a' :: 'l' :: 's' :: 'e' :: rest) = some rest :=
        expect?_append "false" rest
      simp [readLeaf?, word, expect?_eq_none "null" (c := 'f') rfl (by decide),
        expect?_eq_none "true" (c := 'f') rfl (by decide)]

theorem exists_signed_eq_cons (negative : Bool) (n : Nat) :
    ∃ c more, signed negative n = c :: more ∧ (c = '-' ∨ c.isDigit = true) := by
  cases negative with
  | true => exact ⟨'-', _, rfl, .inl rfl⟩
  | false =>
    obtain ⟨d, ds, digits⟩ := List.exists_cons_of_ne_nil (Nat.toDigits_ne_nil (n := n) (b := 10))
    exact ⟨d, ds, digits, .inr (isDigit_of_mem_toDigits (n := n) (by simp [digits]))⟩

theorem readsBack_int (n : Int) : ReadsBack (.int n) := by
  obtain ⟨negative, m, text, value⟩ := toList_toString n
  obtain ⟨c, more, start, sign⟩ := exists_signed_eq_cons negative m
  have ne (d : Char) (other : d ≠ '-' ∧ d.isDigit = false) : c ≠ d := by
    rintro rfl
    rcases sign with sign | digit
    · exact other.1 sign
    · cases digit.symm.trans other.2
  refine readsBack_leaf c more (fun depth => ?_) ?_ ?_ fun rest ends => ?_
  · rw [← start, ← text]
    simp [indented, leaf]
  · simp [isJsonBlank, ne ' ' (by decide), ne '\n' (by decide), ne '\r' (by decide),
      ne '\t' (by decide)]
  · exact ⟨ne _ (by decide), ne _ (by decide), ne _ (by decide)⟩
  · have number := readNumber?_signed ends negative m
    rw [start, List.cons_append, ← value] at number
    rw [readLeaf?, expect?_eq_none "null" rfl (ne 'n' (by decide)),
      expect?_eq_none "true" rfl (ne 't' (by decide)),
      expect?_eq_none "false" rfl (ne 'f' (by decide))]
    exact number

/-! ### Lists and records -/

theorem readValue?_newline_append (fuel depth : Nat) (cs : List Char) :
    readValue? fuel (newline depth ++ cs) = readValue? fuel cs := by
  rw [← readValue?_skip, skip_newline_append, readValue?_skip]

theorem endsNumber_newline_append (depth : Nat) (cs : List Char) :
    EndsNumber (newline depth ++ cs) :=
  endsNumber_cons.mpr (by decide)

theorem readItems?_closing (fuel : Nat) (cs : List Char) : readItems? fuel (']' :: cs) = none := by
  have leaf : readLeaf? (']' :: cs) = none := by
    simp [readLeaf?, expect?, readNumber?, spanDigits]
  match fuel with
  | 0 => simp [readItems?]
  | 1 => simp [readItems?, readValue?]
  | fuel + 2 => simp [readItems?, readValue?, skip_cons, isJsonBlank, leaf]

theorem readFields?_closing (fuel : Nat) (before : List (String × Json)) (cs : List Char) :
    readFields? fuel before ('\x7d' :: cs) = none := by
  cases fuel with
  | zero => simp [readFields?]
  | succ fuel => simp [readFields?, skip_cons, isJsonBlank]

theorem length_newline (depth : Nat) : (newline depth).length = 2 * depth + 1 := by
  simp [newline]

/-- The items of a list are read back one after the other, each from its own line. -/
theorem readItems?_indentedItems {items : List Json} (readsBack : ∀ item ∈ items, ReadsBack item)
    (nonempty : items ≠ []) {depth fuel : Nat} (enough : (indentedItems depth items).length < fuel)
    (outer : Nat) (rest : List Char) :
    readItems? fuel (indentedItems depth items ++ (newline outer ++ ']' :: rest))
      = some (items, rest) := by
  induction items generalizing fuel with
  | nil => exact absurd rfl nonempty
  | cons item items ih =>
    obtain ⟨readItem, readOthers⟩ := List.forall_mem_cons.mp readsBack
    cases fuel with
    | zero => exact absurd enough (Nat.not_lt_zero _)
    | succ fuel =>
      cases items with
      | nil =>
        simp only [indentedItems, List.length_append, length_newline] at enough
        have read := readItem depth fuel _ (by omega)
          (endsNumber_newline_append outer (']' :: rest))
        rw [readItems?, indentedItems, List.append_assoc, readValue?_newline_append, read]
        simp [skip_newline_append, skip_cons, isJsonBlank]
      | cons next items =>
        simp only [indentedItems, List.length_append, List.length_cons, length_newline] at enough
        have others := ih readOthers (List.cons_ne_nil _ _) (show _ < fuel by omega)
        simp only [readItems?, indentedItems, List.append_assoc, List.cons_append,
          readValue?_newline_append]
        rw [readItem depth fuel _ (by omega) (endsNumber_cons.mpr (by decide))]
        simp [skip_cons, isJsonBlank, others]

theorem setField_of_notMem {fields : List (String × Json)} {key : String}
    (h : key ∉ fields.map Prod.fst) (value : Json) :
    setField fields key value = fields ++ [(key, value)] := by
  induction fields with
  | nil => rfl
  | cons field fields ih =>
    obtain ⟨ne, rest⟩ := not_or.mp (mt List.mem_cons.mpr h)
    simp [setField, Ne.symm ne, ih rest]

/-- One field is read back and joins those before it; a comma after it brings the next. -/
theorem readFields?_field {before : List (String × Json)} {key : String} {value : Json}
    (new : key ∉ before.map Prod.fst) (readsBack : ReadsBack value) {depth fuel : Nat}
    (enough : (indented depth value).length ≤ fuel) (ends : EndsNumber rest) {mark : Char}
    {after : List Char} (follows : skip rest = mark :: after) :
    readFields? (fuel + 1) before
        (newline depth ++ (quoted key ++ ':' :: ' ' :: (indented depth value ++ rest)))
      = if mark = ',' then readFields? fuel (before ++ [(key, value)]) after
        else if mark = '\x7d' then some (before ++ [(key, value)], after)
        else none := by
  have read := readsBack depth fuel rest enough ends
  have blank : readValue? fuel (' ' :: (indented depth value ++ rest)) = some (value, rest) := by
    rw [← read, ← readValue?_skip, ← readValue?_skip fuel (_ ++ _)]
    rfl
  rw [readFields?, skip_newline_append, quoted_append, skip_cons rfl]
  simp only [readString?_flatMap_escape, Option.bind_eq_bind, Option.bind_some, blank, follows,
    setField_of_notMem new, skip_cons (c := ':') rfl]
  split
  · next same =>
    cases same
    rfl
  · next same =>
    cases same
    rfl
  · next comma brace =>
    rw [if_neg fun h : mark = ',' => comma after (by rw [h]),
      if_neg fun h : mark = '\x7d' => brace after (by rw [h])]

/-- The fields of a record are read back in their order, as no key stands twice. -/
theorem readFields?_indentedFields {fields : List (String × Json)}
    (readsBack : ∀ field ∈ fields, ReadsBack field.2) (nonempty : fields ≠ [])
    (before : List (String × Json)) (distinct : ((before ++ fields).map Prod.fst).Nodup)
    {depth fuel : Nat} (enough : (indentedFields depth fields).length < fuel) (outer : Nat)
    (rest : List Char) :
    readFields? fuel before (indentedFields depth fields ++ (newline outer ++ '\x7d' :: rest))
      = some (before ++ fields, rest) := by
  induction fields generalizing fuel before with
  | nil => exact absurd rfl nonempty
  | cons field fields ih =>
    obtain ⟨key, value⟩ := field
    have readField : ReadsBack value := readsBack _ List.mem_cons_self
    have new : key ∉ before.map Prod.fst := by
      rw [List.map_append, List.nodup_append] at distinct
      exact fun old => distinct.2.2 key old key List.mem_cons_self rfl
    cases fuel with
    | zero => exact absurd enough (Nat.not_lt_zero _)
    | succ fuel =>
      cases fields with
      | nil =>
        simp only [indentedFields, List.length_append, List.length_cons, length_newline] at enough
        simp only [indentedFields, List.append_assoc, List.cons_append]
        exact readFields?_field new readField (by omega)
          (endsNumber_newline_append outer ('\x7d' :: rest)) (skip_newline_append outer _)
      | cons next fields =>
        simp only [indentedFields, List.length_append, List.length_cons, length_newline] at enough
        simp only [indentedFields, List.append_assoc, List.cons_append]
        rw [readFields?_field new readField (by omega) (endsNumber_cons.mpr (by decide))
          (skip_cons rfl _), if_pos rfl, ih (fun v hv => readsBack v (List.mem_cons_of_mem _ hv))
          (List.cons_ne_nil _ _) _ (by simpa using distinct) (by omega), List.append_assoc]
        rfl

theorem readsBack_list {items : List Json} (h : ∀ item ∈ items, ReadsBack item) :
    ReadsBack (.list items) := by
  intro depth fuel rest enough _
  cases fuel with
  | zero => cases items <;> simp [indented] at enough
  | succ fuel =>
    cases items with
    | nil => simp [indented, readValue?, skip_cons, isJsonBlank]
    | cons item items =>
      have short : (indentedItems (depth + 1) (item :: items)).length < fuel := by
        simp only [indented, List.length_append, List.length_cons, length_newline] at enough
        omega
      have read := readItems?_indentedItems h (List.cons_ne_nil _ _) short depth rest
      rw [← readItems?_skip] at read
      simp only [indented, List.append_assoc, List.cons_append, List.nil_append, readValue?,
        skip_cons (c := '[') rfl]
      -- no item starts with the bracket that would close an empty list
      split
      · next closing =>
        rw [closing, readItems?_closing] at read
        cases read
      · rw [read]
        rfl

theorem readsBack_record {fields : List (String × Json)} (distinct : (fields.map Prod.fst).Nodup)
    (h : ∀ field ∈ fields, ReadsBack field.2) : ReadsBack (.record fields) := by
  intro depth fuel rest enough _
  cases fuel with
  | zero => cases fields <;> simp [indented] at enough
  | succ fuel =>
    cases fields with
    | nil => simp [indented, readValue?, skip_cons, isJsonBlank]
    | cons field fields =>
      have short : (indentedFields (depth + 1) (field :: fields)).length < fuel := by
        simp only [indented, List.length_append, List.length_cons, length_newline] at enough
        omega
      have read := readFields?_indentedFields h (List.cons_ne_nil _ _) [] distinct short depth rest
      rw [← readFields?_skip] at read
      simp only [indented, List.append_assoc, List.cons_append, List.nil_append, readValue?,
        skip_cons (c := '\x7b') rfl]
      split
      · next closing =>
        rw [closing, readFields?_closing] at read
        cases read
      · rw [read]
        rfl

theorem Exact.readsBack {v : Json} (h : Exact v) : ReadsBack v := by
  induction h with
  | null => exact readsBack_null
  | bool b => exact readsBack_bool b
  | int n => exact readsBack_int n
  | text s => exact readsBack_text s
  | list _ ih => exact readsBack_list ih
  | record distinct _ ih => exact readsBack_record distinct ih

theorem endsNumber_of_blank (h : ∀ c ∈ cs, isJsonBlank c = true) : EndsNumber cs := by
  intro c hc
  have blank := h c (List.mem_of_mem_head? hc)
  simp only [isJsonBlank, Bool.or_eq_true, beq_iff_eq] at blank
  rcases blank with ((rfl | rfl) | rfl) | rfl <;> decide

/-- An exact value is read back from its text, with or without blanks after it. -/
theorem ofText?_indentedText_append {v : Json} (h : Exact v) {blanks : String}
    (blank : ∀ c ∈ blanks.toList, isJsonBlank c = true) :
    ofText? (indentedText v ++ blanks) = some v := by
  have skipped : skip blanks.toList = [] := List.dropWhile_eq_nil_iff.mpr blank
  have enough : (indented 0 v).length ≤ (indented 0 v ++ blanks.toList).length + 1 := by
    rw [List.length_append]
    omega
  have read := h.readsBack 0 _ _ enough (endsNumber_of_blank blank)
  have text : (indentedText v ++ blanks).toList = indented 0 v ++ blanks.toList := by
    rw [String.toList_append, indentedText, String.toList_ofList]
  simp only [ofText?, text, read, skipped, List.isEmpty_nil, if_true]

/-! ### ASCII -/

theorem ascii_newline (depth : Nat) : Ascii (newline depth) := by
  intro c hc
  rcases List.mem_cons.mp hc with rfl | hc
  · decide
  · rw [(List.mem_replicate.mp hc).2]
    decide

theorem ascii_indentedItems {items : List Json} {depth : Nat}
    (h : ∀ item ∈ items, Ascii (indented depth item)) : Ascii (indentedItems depth items) := by
  induction items with
  | nil => simp [indentedItems, ascii_nil]
  | cons item items ih =>
    obtain ⟨here, others⟩ := List.forall_mem_cons.mp h
    cases items with
    | nil => simp [indentedItems, ascii_append, ascii_newline, here]
    | cons next items =>
      simp only [indentedItems, ascii_append, ascii_cons, ascii_newline, here, ih others]
      decide

theorem ascii_indentedFields {fields : List (String × Json)} {depth : Nat}
    (h : ∀ field ∈ fields, Ascii (indented depth field.2)) :
    Ascii (indentedFields depth fields) := by
  induction fields with
  | nil => simp [indentedFields, ascii_nil]
  | cons field fields ih =>
    obtain ⟨here, others⟩ := List.forall_mem_cons.mp h
    cases fields with
    | nil =>
      simp only [indentedFields, ascii_append, ascii_cons, ascii_newline, ascii_quoted, here]
      decide
    | cons next fields =>
      simp only [indentedFields, ascii_append, ascii_cons, ascii_newline, ascii_quoted, here,
        ih others]
      decide

theorem ascii_toString (n : Int) : Ascii (toString n).toList := by
  obtain ⟨negative, m, text, -⟩ := toList_toString n
  have digits : Ascii (Nat.toDigits 10 m) := by
    intro c hc
    have digit := Char.isDigit_iff_toNat.mp (isDigit_of_mem_toDigits hc)
    exact Nat.lt_of_le_of_lt digit.2 (by decide)
  rw [text, signed, ascii_append]
  refine ⟨?_, digits⟩
  cases negative <;> simp [Ascii]

theorem Exact.ascii {v : Json} (h : Exact v) (depth : Nat) : Ascii (indented depth v) := by
  induction h generalizing depth with
  | null => simp [indented, leaf, Ascii]
  | bool b => cases b <;> simp [indented, leaf, Ascii]
  | int n => simpa only [indented, leaf] using ascii_toString n
  | text s => simpa only [indented, leaf] using ascii_quoted s
  | @list items _ ih =>
    have inner : Ascii (indentedItems (depth + 1) items) :=
      ascii_indentedItems fun item hitem => ih item hitem (depth + 1)
    cases items with
    | nil => simp [indented, Ascii]
    | cons =>
      simp only [indented, ascii_append, ascii_cons, ascii_nil, ascii_newline, inner]
      decide
  | @record fields _ _ ih =>
    have inner : Ascii (indentedFields (depth + 1) fields) :=
      ascii_indentedFields fun field hfield => ih field hfield (depth + 1)
    cases fields with
    | nil => simp [indented, Ascii]
    | cons =>
      simp only [indented, ascii_append, ascii_cons, ascii_nil, ascii_newline, inner]
      decide

end Dockerfile.Json
