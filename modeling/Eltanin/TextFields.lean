import Mathlib.Data.List.Basic

/-!
# Fields and numbers of a text

A line is taken apart at its last separator or at all its blanks, and a field
that holds a number is read back from its decimal digits.
-/

namespace TextFields

/-! ## The last separator -/

section LastSeparator

variable {α : Type*} [DecidableEq α]

/-- What is before and after the last separator of a text. -/
def rsplitOnce (separator : α) : List α → Option (List α × List α)
  | [] => none
  | item :: rest =>
      match rsplitOnce separator rest with
      | some (before, after) => some (item :: before, after)
      | none => if item = separator then some ([], rest) else none

variable {separator : α} {before after text : List α}

theorem rsplitOnce_eq_none (habsent : separator ∉ text) :
    rsplitOnce separator text = none := by
  induction text with
  | nil => rfl
  | cons item rest ih =>
      rw [List.mem_cons, not_or] at habsent
      rw [rsplitOnce, ih habsent.2]
      exact if_neg (Ne.symm habsent.1)

theorem rsplitOnce_append_cons (habsent : separator ∉ after) :
    rsplitOnce separator (before ++ separator :: after) =
      some (before, after) := by
  induction before with
  | nil =>
      rw [List.nil_append, rsplitOnce, rsplitOnce_eq_none habsent]
      exact if_pos rfl
  | cons item before ih => rw [List.cons_append, rsplitOnce, ih]

end LastSeparator

/-! ## Fields -/

section Fields

variable {α : Type*} {blank : α → Bool}

/-- The fields of a text: what is left of it between its blanks. -/
def fields (blank : α → Bool) (text : List α) : List (List α) :=
  (text.splitOnP blank).filter (· ≠ [])

@[simp] theorem fields_nil : fields blank [] = [] := by
  simp [fields]

theorem fields_append_cons (first rest : List α) {separator : α}
    (hblank : blank separator = true) :
    fields blank (first ++ separator :: rest) =
      fields blank first ++ fields blank rest := by
  rw [fields, List.splitOnP_append_cons first rest hblank,
    List.filter_append]
  rfl

theorem fields_cons (rest : List α) {separator : α}
    (hblank : blank separator = true) :
    fields blank (separator :: rest) = fields blank rest := by
  have hsplit := fields_append_cons [] rest hblank
  rwa [fields_nil, List.nil_append, List.nil_append] at hsplit

/-- A text after which a field ends. -/
def EndsField (blank : α → Bool) (rest : List α) : Prop :=
  ∀ item ∈ rest.head?, blank item = true

theorem fields_append (first : List α) {rest : List α}
    (hends : EndsField blank rest) :
    fields blank (first ++ rest) =
      fields blank first ++ fields blank rest := by
  cases rest with
  | nil => rw [fields_nil, List.append_nil, List.append_nil]
  | cons separator rest =>
      have hblank : blank separator = true := hends separator rfl
      rw [fields_append_cons first rest hblank, fields_cons rest hblank]

/-- A text which is a field by itself. -/
structure IsField (blank : α → Bool) (text : List α) : Prop where
  nonempty : text ≠ []
  unbroken : ∀ item ∈ text, blank item = false

theorem IsField.fields_eq {text : List α} (hfield : IsField blank text) :
    fields blank text = [text] := by
  rw [fields, List.splitOnP_eq_singleton hfield.unbroken]
  simp [hfield.nonempty]

theorem endsField_flatMap {separator : α} (items : List (List α))
    {rest : List α} (hblank : blank separator = true)
    (hends : EndsField blank rest) :
    EndsField blank
      (items.flatMap (fun item => separator :: item) ++ rest) := by
  cases items with
  | nil => exact hends
  | cons item items =>
      intro first hfirst
      rw [Option.mem_some_iff.mp hfirst] at hblank
      exact hblank

/-- Fields with a separator in front of each. -/
theorem fields_flatMap {separator : α} {items : List (List α)}
    {rest : List α} (hblank : blank separator = true)
    (hitems : ∀ item ∈ items, IsField blank item)
    (hends : EndsField blank rest) :
    fields blank (items.flatMap (fun item => separator :: item) ++ rest) =
      items ++ fields blank rest := by
  induction items with
  | nil => rfl
  | cons item items ih =>
      have hitem := hitems item List.mem_cons_self
      have hrest := ih fun other hother =>
        hitems other (List.mem_cons_of_mem item hother)
      have htail := endsField_flatMap items hblank hends
      rw [List.flatMap_cons, List.append_assoc, List.cons_append,
        fields_cons _ hblank, fields_append item htail, hitem.fields_eq,
        hrest]
      rfl

end Fields

/-! ## Decimal numbers -/

/-- Why a text is no number of a bounded type. -/
inductive ParseIntError where
  | empty
  | invalidDigit
  | posOverflow
  deriving DecidableEq, Repr

def ParseIntError.text : ParseIntError → String
  | .empty => "cannot parse integer from empty string"
  | .invalidDigit => "invalid digit found in string"
  | .posOverflow => "number too large to fit in target type"

def parseDigits (bound value : ℕ) : List Char → Except ParseIntError ℕ
  | [] => .ok value
  | c :: rest =>
      if ¬c.isDigit then .error .invalidDigit
      else if 10 * value + (c.toNat - '0'.toNat) < bound then
        parseDigits bound (10 * value + (c.toNat - '0'.toNat)) rest
      else .error .posOverflow

/-- A number below the bound, with or without a plus sign in front. -/
def parseUnsigned (bound : ℕ) (text : List Char) : Except ParseIntError ℕ :=
  match text with
  | [] => .error .empty
  | ['+'] => .error .invalidDigit
  | '+' :: digits => parseDigits bound 0 digits
  | digits => parseDigits bound 0 digits

theorem le_ofDigitChars (digits : List Char) (value : ℕ) :
    value ≤ Nat.ofDigitChars 10 digits value := by
  induction digits generalizing value with
  | nil => exact Nat.le_of_eq Nat.ofDigitChars_nil.symm
  | cons c rest ih =>
      rw [Nat.ofDigitChars_cons]
      have hrest := ih (10 * value + (c.toNat - '0'.toNat))
      omega

theorem parseDigits_eq {bound : ℕ} {digits : List Char}
    (hdigits : ∀ c ∈ digits, c.isDigit = true) (value : ℕ)
    (hbound : Nat.ofDigitChars 10 digits value < bound) :
    parseDigits bound value digits =
      .ok (Nat.ofDigitChars 10 digits value) := by
  induction digits generalizing value with
  | nil => rw [parseDigits, Nat.ofDigitChars_nil]
  | cons c rest ih =>
      have hdigit := hdigits c List.mem_cons_self
      have hrest : ∀ d ∈ rest, d.isDigit = true := fun d hd =>
        hdigits d (List.mem_cons_of_mem c hd)
      rw [Nat.ofDigitChars_cons] at hbound ⊢
      have hle := le_ofDigitChars rest (10 * value + (c.toNat - '0'.toNat))
      rw [parseDigits, if_neg (not_not_intro hdigit),
        if_pos (Nat.lt_of_le_of_lt hle hbound), ih hrest _ hbound]

def decimal (n : ℕ) : List Char := Nat.toDigits 10 n

theorem decimal_ne_nil (n : ℕ) : decimal n ≠ [] := Nat.toDigits_ne_nil

theorem isDigit_of_mem_decimal {n : ℕ} {c : Char} (hmem : c ∈ decimal n) :
    c.isDigit = true :=
  Nat.isDigit_of_mem_toDigits (by decide) (by decide) hmem

/-- The digits of a number are read as that number. -/
theorem parseUnsigned_decimal {bound n : ℕ} (hbound : n < bound) :
    parseUnsigned bound (decimal n) = .ok n := by
  have hvalue : Nat.ofDigitChars 10 (decimal n) 0 = n :=
    Nat.ofDigitChars_ten_toDigits
  have hparse : parseDigits bound 0 (decimal n) = .ok n := by
    rw [parseDigits_eq (fun c hc => isDigit_of_mem_decimal hc), hvalue]
    rwa [hvalue]
  have hplus : ∀ rest, decimal n ≠ '+' :: rest := by
    intro rest heq
    have hdigit : '+'.isDigit = true :=
      isDigit_of_mem_decimal (heq ▸ List.mem_cons_self)
    exact absurd hdigit (by decide)
  unfold parseUnsigned
  split
  · exact absurd ‹_› (decimal_ne_nil n)
  · exact absurd ‹_› (hplus [])
  · exact absurd ‹_› (hplus _)
  · exact hparse

def parseU32 (text : List Char) : Except ParseIntError UInt32 :=
  (parseUnsigned UInt32.size text).map UInt32.ofNat

def parseU64 (text : List Char) : Except ParseIntError UInt64 :=
  (parseUnsigned UInt64.size text).map UInt64.ofNat

theorem parseU32_decimal (n : UInt32) :
    parseU32 (decimal n.toNat) = .ok n := by
  rw [parseU32, parseUnsigned_decimal n.toNat_lt_size, Except.map,
    UInt32.ofNat_toNat]

theorem parseU64_decimal (n : UInt64) :
    parseU64 (decimal n.toNat) = .ok n := by
  rw [parseU64, parseUnsigned_decimal n.toNat_lt_size, Except.map,
    UInt64.ofNat_toNat]

end TextFields
