import Eltanin.TextLines

/-!
# JSON documents

A document keeps the members of an object in the order of the text, also
those whose name is repeated.  It is printed without any white space, and
every control character of a string is escaped, so that what is printed is
one line.  Only the digits of floats and the parser are left open.
-/

namespace Json

/-- A number as `serde_json` keeps it; a float is its IEEE 754 bits. -/
inductive JsonNumber where
  | posInt (value : UInt64)
  | negInt (value : Int64)
  | float (bits : UInt64)
  deriving DecidableEq

inductive JsonValue where
  | null
  | bool (value : Bool)
  | number (value : JsonNumber)
  | string (value : String)
  | array (items : List JsonValue)
  | object (members : List (String × JsonValue))

namespace JsonValue

def get (self : JsonValue) (key : String) : Option JsonValue :=
  match self with
  | .object members => members.lookup key
  | _ => none

def asStr : JsonValue → Option String
  | .string value => some value
  | _ => none

def asU64 : JsonValue → Option UInt64
  | .number (.posInt value) => some value
  | _ => none

/-- Of members with one name the last one counts. -/
def keepLast : List (String × JsonValue) → List (String × JsonValue)
  | [] => []
  | member :: rest =>
      if member.1 ∈ rest.map Prod.fst then keepLast rest
      else member :: keepLast rest

mutual

/-- The document as a `serde_json::Value` holds it. -/
def merged : JsonValue → JsonValue
  | .array items => .array (mergedItems items)
  | .object members => .object (keepLast (mergedMembers members))
  | value => value

def mergedItems : List JsonValue → List JsonValue
  | [] => []
  | item :: rest => item.merged :: mergedItems rest

def mergedMembers :
    List (String × JsonValue) → List (String × JsonValue)
  | [] => []
  | (name, value) :: rest => (name, value.merged) :: mergedMembers rest

end

end JsonValue

/-! ## Printing -/

def quote : Char := '\x22'

def backslash : Char := '\x5c'

def hexDigit (n : ℕ) : Char :=
  if n < 10 then Char.ofNat (48 + n) else Char.ofNat (87 + n)

/-- The letter of an escape of two characters. -/
def shortEscape (c : Char) : Option Char :=
  if c = quote then some quote
  else if c = backslash then some backslash
  else if c.toNat = 8 then some 'b'
  else if c.toNat = 9 then some 't'
  else if c.toNat = 10 then some 'n'
  else if c.toNat = 12 then some 'f'
  else if c.toNat = 13 then some 'r'
  else none

def escape (c : Char) : List Char :=
  match shortEscape c with
  | some letter => [backslash, letter]
  | none =>
      if c.toNat < 32 then
        [backslash, 'u', '0', '0', hexDigit (c.toNat / 16),
          hexDigit (c.toNat % 16)]
      else [c]

def printString (value : String) : List Char :=
  quote :: value.toList.flatMap escape ++ [quote]

section Printing

variable (float : UInt64 → List Char)

def printNumber : JsonNumber → List Char
  | .posInt value => Nat.toDigits 10 value.toNat
  | .negInt value =>
      if value < 0 then '-' :: Nat.toDigits 10 value.toInt.natAbs
      else Nat.toDigits 10 value.toInt.natAbs
  | .float bits => float bits

mutual

def compact : JsonValue → List Char
  | .null => ['n', 'u', 'l', 'l']
  | .bool true => ['t', 'r', 'u', 'e']
  | .bool false => ['f', 'a', 'l', 's', 'e']
  | .number value => printNumber float value
  | .string value => printString value
  | .array items => '[' :: compactItems items ++ [']']
  | .object members => '\x7b' :: compactMembers members ++ ['\x7d']

def compactItems : List JsonValue → List Char
  | [] => []
  | [item] => compact item
  | item :: rest => compact item ++ ',' :: compactItems rest

def compactMembers : List (String × JsonValue) → List Char
  | [] => []
  | [(name, value)] => printString name ++ ':' :: compact value
  | (name, value) :: rest =>
      printString name ++ ':' :: compact value ++ ',' :: compactMembers rest

end

end Printing

/-- A text without control characters. -/
def Visible (text : List Char) : Prop :=
  ∀ c ∈ text, 32 ≤ c.toNat

/-- What is left open of `serde_json`: the text of a float, the parser, and
the text of the error for a line which cannot be read.

Where a type is read from a text, the text is parsed to a value first and the
value is read then.  This takes for granted that the whole text can be parsed
to a value.  A reader which skips a member it does not know also skips what no
value can hold, a number such as `1e999` or half of a surrogate pair, and such
texts are not described here. -/
structure JsonText where
  float : UInt64 → List Char
  parse : List UInt8 → Option JsonValue
  errorText : List Char → String

namespace JsonText

def print (text : JsonText) (value : JsonValue) : List Char :=
  compact text.float value

/-- The parser reads this document back from its text. -/
def Reads (text : JsonText) (value : JsonValue) : Prop :=
  text.parse (TextLines.encode (text.print value)) = some value

def Plain (text : JsonText) : Prop :=
  ∀ bits, Visible (text.float bits)

/-- A text of which the parser knows one document. -/
def knowing (document : JsonValue) : JsonText where
  float bits := Nat.toDigits 10 bits.toNat
  parse bytes :=
    if bytes = TextLines.encode
        (compact (fun bits => Nat.toDigits 10 bits.toNat) document) then
      some document
    else none
  errorText _ := "expected value"

theorem reads_knowing (document : JsonValue) :
    (knowing document).Reads document :=
  if_pos rfl

end JsonText

/-! ## Control characters -/

section Visible

variable {text first second : List Char} {c : Char}

theorem visible_nil : Visible [] := by
  simp [Visible]

theorem visible_cons_iff : Visible (c :: text) ↔ 32 ≤ c.toNat ∧ Visible text :=
  List.forall_mem_cons

theorem visible_append_iff :
    Visible (first ++ second) ↔ Visible first ∧ Visible second :=
  List.forall_mem_append

theorem Visible.not_mem (hvisible : Visible text) (hcontrol : c.toNat < 32) :
    c ∉ text := by
  intro hmem
  have hle := hvisible c hmem
  omega

end Visible

theorem visible_quote : 32 ≤ quote.toNat := by decide

theorem visible_backslash : 32 ≤ backslash.toNat := by decide

theorem visible_hexDigit {n : ℕ} (hn : n < 16) : 32 ≤ (hexDigit n).toNat := by
  have hall : ∀ m < 16, 32 ≤ (hexDigit m).toNat := by decide
  exact hall n hn

theorem visible_of_shortEscape {c letter : Char}
    (hshort : shortEscape c = some letter) : 32 ≤ letter.toNat := by
  unfold shortEscape at hshort
  repeat' split at hshort
  all_goals simp only [Option.some.injEq, reduceCtorEq] at hshort
  all_goals
    rw [← hshort]
    decide

theorem visible_escape (c : Char) : Visible (escape c) := by
  unfold escape
  cases hshort : shortEscape c with
  | some letter =>
      have hletter := visible_of_shortEscape hshort
      simp [Visible, visible_backslash, hletter]
  | none =>
      by_cases hcontrol : c.toNat < 32
      · have hhigh := visible_hexDigit (n := c.toNat / 16) (by omega)
        have hlow := visible_hexDigit (n := c.toNat % 16) (by omega)
        simp [hcontrol, Visible, visible_backslash, hhigh, hlow]
      · simp [hcontrol, Visible, Nat.not_lt.mp hcontrol]

theorem visible_printString (value : String) : Visible (printString value) := by
  have hescaped : Visible (value.toList.flatMap escape) := by
    intro c hmem
    rcases List.mem_flatMap.mp hmem with ⟨d, -, hd⟩
    exact visible_escape d c hd
  rw [printString, List.cons_append, visible_cons_iff, visible_append_iff,
    visible_cons_iff]
  exact ⟨visible_quote, hescaped, visible_quote, visible_nil⟩

theorem visible_toDigits (n : ℕ) : Visible (Nat.toDigits 10 n) := by
  intro c hmem
  have hdigit := Nat.isDigit_of_mem_toDigits (by decide) (by decide) hmem
  simp only [Char.isDigit, Bool.and_eq_true, decide_eq_true_eq] at hdigit
  have hle : (48 : UInt32).toNat ≤ c.val.toNat := hdigit.1
  exact Nat.le_trans (by decide) hle

theorem length_toDigits_le (value : UInt64) :
    (Nat.toDigits 10 value.toNat).length ≤ 20 := by
  rw [Nat.length_toDigits_le_iff (by decide) (by decide)]
  exact Nat.lt_trans value.toNat_lt_size (by decide)

theorem JsonText.plain_knowing (document : JsonValue) :
    (JsonText.knowing document).Plain := by
  intro bits
  exact visible_toDigits bits.toNat

section Plain

variable {text : JsonText}

theorem visible_printNumber (hplain : text.Plain) (value : JsonNumber) :
    Visible (printNumber text.float value) := by
  cases value with
  | posInt value => exact visible_toDigits _
  | negInt value =>
      rw [printNumber]
      split
      · exact visible_cons_iff.mpr ⟨by decide, visible_toDigits _⟩
      · exact visible_toDigits _
  | float bits => exact hplain bits

mutual

theorem visible_compact (hplain : text.Plain) (value : JsonValue) :
    Visible (compact text.float value) := by
  match value with
  | .null => simp [compact, Visible]
  | .bool true => simp [compact, Visible]
  | .bool false => simp [compact, Visible]
  | .number value =>
      rw [compact]
      exact visible_printNumber hplain value
  | .string value =>
      rw [compact]
      exact visible_printString value
  | .array items =>
      have hitems := visible_compactItems hplain items
      rw [compact, List.cons_append, visible_cons_iff, visible_append_iff]
      exact ⟨by decide, hitems, by simp [Visible]⟩
  | .object members =>
      have hmembers := visible_compactMembers hplain members
      rw [compact, List.cons_append, visible_cons_iff, visible_append_iff]
      exact ⟨by decide, hmembers, by simp [Visible]⟩

theorem visible_compactItems (hplain : text.Plain) (items : List JsonValue) :
    Visible (compactItems text.float items) := by
  match items with
  | [] => simp [compactItems, Visible]
  | [item] =>
      rw [compactItems]
      exact visible_compact hplain item
  | item :: second :: rest =>
      rw [compactItems, visible_append_iff, visible_cons_iff]
      · exact ⟨visible_compact hplain item, by decide,
          visible_compactItems hplain (second :: rest)⟩
      · simp

theorem visible_compactMembers (hplain : text.Plain)
    (members : List (String × JsonValue)) :
    Visible (compactMembers text.float members) := by
  match members with
  | [] => simp [compactMembers, Visible]
  | [(name, value)] =>
      rw [compactMembers, visible_append_iff, visible_cons_iff]
      exact ⟨visible_printString name, by decide,
        visible_compact hplain value⟩
  | (name, value) :: second :: rest =>
      rw [compactMembers, visible_append_iff, visible_append_iff,
        visible_cons_iff, visible_cons_iff]
      · exact ⟨⟨visible_printString name, by decide,
          visible_compact hplain value⟩, by decide,
          visible_compactMembers hplain (second :: rest)⟩
      · simp

end

end Plain

end Json
