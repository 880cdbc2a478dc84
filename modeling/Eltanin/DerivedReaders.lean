import Eltanin.JsonDocument
import Mathlib.Algebra.Group.Nat.Defs
import Mathlib.Data.List.Nodup

/-!
# Derived readers

What a derived implementation of `Deserialize` makes of a document.  A struct
is an object with each of its fields at most once, or an array of its fields
in their order; only a type which denies unknown fields looks at the other
members of an object.  An internally tagged enum takes one member for the name
of the variant and the rest for its content.  Such a content is buffered, and
a value from a buffer is read a little more generously than one from a text.
-/

namespace Json

abbrev Members := List (String × JsonValue)

/-! ## Scalars and containers -/

def u64Json (value : UInt64) : JsonValue :=
  .number (.posInt value)

def u32Json (value : UInt32) : JsonValue :=
  .number (.posInt value.toUInt64)

def u16Json (value : UInt16) : JsonValue :=
  .number (.posInt value.toUInt64)

def i64Json (value : Int64) : JsonValue :=
  if 0 ≤ value then .number (.posInt value.toUInt64)
  else .number (.negInt value)

def optionJson {α : Type} (json : α → JsonValue) : Option α → JsonValue
  | none => .null
  | some value => json value

def vectorJson {α : Type} (json : α → JsonValue) (items : List α) :
    JsonValue :=
  .array (items.map json)

def readString : JsonValue → Option String
  | .string value => some value
  | _ => none

def readU64 : JsonValue → Option UInt64
  | .number (.posInt value) => some value
  | _ => none

def readU32 : JsonValue → Option UInt32
  | .number (.posInt value) =>
      if value.toNat < UInt32.size then some value.toUInt32 else none
  | _ => none

def readU16 : JsonValue → Option UInt16
  | .number (.posInt value) =>
      if value.toNat < UInt16.size then some value.toUInt16 else none
  | _ => none

def readI64 : JsonValue → Option Int64
  | .number (.posInt value) =>
      if value.toNat < 2 ^ 63 then some value.toInt64 else none
  | .number (.negInt value) => some value
  | _ => none

def readVector {α : Type} (read : JsonValue → Option α) :
    JsonValue → Option (List α)
  | .array items => items.mapM read
  | _ => none

/-! ## Structs -/

/-- The members in which a struct looks its fields up. -/
def fieldsOf (denyUnknownFields : Bool) (names : List String) :
    JsonValue → Option Members
  | .object members =>
      if (∀ name ∈ names, (members.map Prod.fst).count name ≤ 1) ∧
          (denyUnknownFields = true → ∀ name ∈ members.map Prod.fst,
            name ∈ names) then
        some members
      else none
  | .array items =>
      if items.length = names.length then some (names.zip items) else none
  | _ => none

def required {α : Type} (read : JsonValue → Option α) (fields : Members)
    (name : String) : Option α :=
  (fields.lookup name).bind read

/-- A field of an optional type, which may also be missing. -/
def optional {α : Type} (read : JsonValue → Option α) (fields : Members)
    (name : String) : Option (Option α) :=
  match fields.lookup name with
  | none => some none
  | some .null => some none
  | some value => (read value).map some

/-! ## Enums -/

/-- A variant without fields is its name, or an object of its name and
nothing; in a buffer the nothing may also be an empty object. -/
def readUnitVariant {α : Type} (buffered : Bool)
    (variant : String → Option α) : JsonValue → Option α
  | .string name => variant name
  | .object [(name, .null)] => variant name
  | .object [(name, .object [])] => if buffered then variant name else none
  | _ => none

def taggedJson (tag name : String) (members : Members) : JsonValue :=
  .object ((tag, .string name) :: members)

/-- The tag of an internally tagged enum, and the rest. -/
def taggedContent (tag : String) : JsonValue → Option (JsonValue × JsonValue)
  | .object members =>
      match members.filter fun member => member.1 = tag with
      | [(_, value)] =>
          some (value, .object (members.filter fun member => member.1 ≠ tag))
      | _ => none
  | .array (value :: rest) => some (value, .array rest)
  | _ => none

/-- A buffered tag may also be the position of the variant. -/
def selectVariant {α : Type} (buffered : Bool) (variants : List (String × α)) :
    JsonValue → Option α
  | .string name => variants.lookup name
  | .number (.posInt index) =>
      if buffered then variants[index.toNat]?.map Prod.snd else none
  | _ => none

def readTagged {α : Type} (buffered : Bool) (tag : String)
    (variants : List (String × (JsonValue → Option α))) (value : JsonValue) :
    Option α :=
  (taggedContent tag value).bind fun content =>
    (selectVariant buffered variants content.1).bind fun read =>
      read content.2

/-- The content of a variant without fields, which is not looked at. -/
def readUnit {α : Type} (variant : α) : JsonValue → Option α
  | .object _ => some variant
  | .array [] => some variant
  | _ => none

/-- The only field of a variant. -/
def readField {α β : Type} (name : String) (read : JsonValue → Option α)
    (variant : α → β) (value : JsonValue) : Option β := do
  let fields ← fieldsOf false [name] value
  let content ← required read fields name
  return variant content

/-! ## Reading back -/

section Scalars

@[simp] theorem readString_string (value : String) :
    readString (.string value) = some value := rfl

@[simp] theorem readU64_u64Json (value : UInt64) :
    readU64 (u64Json value) = some value := rfl

@[simp] theorem readU32_u32Json (value : UInt32) :
    readU32 (u32Json value) = some value := by
  have hlt : value.toNat < UInt32.size := value.toNat_lt_size
  simp [readU32, u32Json, hlt]

@[simp] theorem readU16_u16Json (value : UInt16) :
    readU16 (u16Json value) = some value := by
  have hlt : value.toNat < UInt16.size := value.toNat_lt_size
  simp [readU16, u16Json, hlt]

@[simp] theorem readI64_i64Json (value : Int64) :
    readI64 (i64Json value) = some value := by
  unfold i64Json
  split
  next hpos =>
    have hlt : value.toUInt64.toNat < 2 ^ 63 := by
      rw [Int64.toNat_toUInt64_of_le hpos]
      exact value.toNatClampNeg_lt
    rw [readI64, if_pos hlt]
    exact congrArg some value.toInt64_toUInt64
  next => rfl

theorem readString_eq_some_iff {document : JsonValue} {value : String} :
    readString document = some value ↔ document = .string value := by
  cases document <;> simp [readString]

theorem readU64_eq_some_iff {document : JsonValue} {value : UInt64} :
    readU64 document = some value ↔ document = u64Json value := by
  constructor
  · intro hread
    unfold readU64 at hread
    split at hread
    next => rw [Option.some.inj hread, u64Json]
    next => contradiction
  · intro heq
    rw [heq, readU64_u64Json]

theorem readU16_eq_some_iff {document : JsonValue} {value : UInt16} :
    readU16 document = some value ↔ document = u16Json value := by
  constructor
  · intro hread
    unfold readU16 at hread
    split at hread
    next found =>
      split at hread
      next hlt =>
        have hsame : found.toUInt16.toUInt64 = found := by
          rw [← UInt64.toNat_inj]
          simpa using Nat.mod_eq_of_lt hlt
        rw [u16Json, ← Option.some.inj hread, hsame]
      next => contradiction
    next => contradiction
  · intro heq
    rw [heq, readU16_u16Json]

end Scalars

section Readers

variable {α : Type} {read : JsonValue → Option α} {json : α → JsonValue}

theorem readVector_vectorJson {items : List α}
    (hread : ∀ item ∈ items, read (json item) = some item) :
    readVector read (vectorJson json items) = some items := by
  rw [vectorJson, readVector]
  induction items with
  | nil => rfl
  | cons item rest ih =>
      have hitem := hread item List.mem_cons_self
      have hrest := ih fun other hother =>
        hread other (List.mem_cons_of_mem item hother)
      rw [List.map_cons, List.mapM_cons, hitem, hrest]
      rfl

/-- An object with just the members of a type is read by their names. -/
@[simp] theorem fieldsOf_object {denyUnknownFields : Bool} {names : List String}
    {members : Members} (hnames : members.map Prod.fst = names)
    (hdistinct : names.Nodup) :
    fieldsOf denyUnknownFields names (.object members) = some members := by
  have hcount := List.nodup_iff_count_le_one.mp hdistinct
  subst hnames
  exact if_pos ⟨fun name _ => hcount name, fun _ name hmem => hmem⟩

@[simp] theorem lookup_cons_of_ne {β : Type} {key other : String} {item : β}
    {rest : List (String × β)} (hne : key ≠ other) :
    ((other, item) :: rest).lookup key = rest.lookup key := by
  rw [List.lookup_cons, beq_false_of_ne hne]

section Single

variable {name : String} {document : JsonValue} {members : Members}

/-- A member which stands once in an object is found in it. -/
theorem lookup_of_single
    (hsingle : members.filter (fun member => member.1 = name) =
      [(name, document)]) :
    members.lookup name = some document := by
  induction members with
  | nil => simp at hsingle
  | cons member rest ih =>
      rcases member with ⟨other, value⟩
      by_cases heq : other = name
      · rw [List.filter_cons_of_pos (by simp [heq]),
          List.cons.injEq, Prod.mk.injEq] at hsingle
        rw [heq, hsingle.1.2, List.lookup_cons_self]
      · rw [List.filter_cons_of_neg (by simp [heq])] at hsingle
        rw [lookup_cons_of_ne (Ne.symm heq)]
        exact ih hsingle

theorem count_of_single
    (hsingle : members.filter (fun member => member.1 = name) =
      [(name, document)]) :
    (members.map Prod.fst).count name = 1 := by
  have hlength := congrArg List.length hsingle
  rw [List.length_singleton, ← List.countP_eq_length_filter] at hlength
  rw [List.count, List.countP_map, ← hlength]
  congr 1

theorem fieldsOf_single
    (hsingle : members.filter (fun member => member.1 = name) =
      [(name, document)]) :
    fieldsOf false [name] (.object members) = some members := by
  rw [fieldsOf, if_pos]
  constructor
  · intro other hmem
    rw [List.mem_singleton.mp hmem]
    exact Nat.le_of_eq (count_of_single hsingle)
  · intro hdeny
    contradiction

end Single

@[simp] theorem required_cons_self {name : String} {document : JsonValue}
    {rest : Members} :
    required read ((name, document) :: rest) name = read document := by
  simp [required]

@[simp] theorem required_cons_of_ne {name other : String}
    {document : JsonValue} {rest : Members} (hne : name ≠ other) :
    required read ((other, document) :: rest) name =
      required read rest name := by
  simp [required, hne]

theorem required_eq_some_iff {fields : Members} {name : String} {value : α} :
    required read fields name = some value ↔
      ∃ document, fields.lookup name = some document ∧
        read document = some value :=
  Option.bind_eq_some_iff

/-- An optional field is read back, unless the document of a value could be
taken for none. -/
theorem optional_optionJson {fields : Members} {name : String}
    {value : Option α}
    (hfield : fields.lookup name = some (optionJson json value))
    (hread : ∀ content, read (json content) = some content)
    (hnull : ∀ content, json content ≠ .null) :
    optional read fields name = some value := by
  cases value with
  | none => simp [optional, hfield, optionJson]
  | some content =>
      have hne := hnull content
      simp only [optional, hfield, optionJson, hread]
      rfl

theorem filter_tag_eq_nil {tag : String} {members : Members}
    (htag : tag ∉ members.map Prod.fst) :
    members.filter (fun member => member.1 = tag) = [] := by
  rw [List.filter_eq_nil_iff]
  intro member hmem heq
  rw [decide_eq_true_eq] at heq
  exact htag (heq ▸ List.mem_map_of_mem hmem)

theorem filter_not_tag_eq_self {tag : String} {members : Members}
    (htag : tag ∉ members.map Prod.fst) :
    members.filter (fun member => member.1 ≠ tag) = members := by
  rw [List.filter_eq_self]
  intro member hmem
  rw [decide_eq_true_eq]
  intro heq
  exact htag (heq ▸ List.mem_map_of_mem hmem)

theorem taggedContent_taggedJson {tag name : String} {members : Members}
    (htag : tag ∉ members.map Prod.fst) :
    taggedContent tag (taggedJson tag name members) =
      some (.string name, .object members) := by
  rw [taggedJson, taggedContent, List.filter_cons_of_pos (by simp),
    filter_tag_eq_nil htag, List.filter_cons_of_neg (by simp),
    filter_not_tag_eq_self htag]

/-- A tagged object is read by the variant of its name, as long as no field
has the name of the tag. -/
@[simp] theorem readTagged_taggedJson {buffered : Bool} {tag name : String}
    {variants : List (String × (JsonValue → Option α))} {members : Members}
    (htag : tag ∉ members.map Prod.fst) :
    readTagged buffered tag variants (taggedJson tag name members) =
      (variants.lookup name).bind fun read => read (.object members) := by
  rw [readTagged, taggedContent_taggedJson htag]
  rfl

@[simp] theorem readField_object {α β : Type} {name : String}
    {read : JsonValue → Option α} {variant : α → β} {document : JsonValue} :
    readField name read variant (.object [(name, document)]) =
      (read document).map variant := by
  cases hread : read document <;> simp [readField, hread]

end Readers

end Json
