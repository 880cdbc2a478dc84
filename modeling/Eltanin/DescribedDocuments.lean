import Eltanin.DocumentShapes

/-!
# Described documents

A reader is exact for a description when it returns a value on the documents
which describe that value and on no others.  The derived readers are exact for
descriptions which follow the structure of the type: a unit variant is its
name, a sequence describes its items one by one, and a struct carries
documents which describe its fields.
-/

namespace Json

section Description

variable {α β : Type}

def ReadsExactly (read : JsonValue → Option α)
    (describes : JsonValue → α → Prop) : Prop :=
  ∀ document value, read document = some value ↔ describes document value

/-- A document describes at most one value to an exact reader. -/
theorem ReadsExactly.unique {read : JsonValue → Option α}
    {describes : JsonValue → α → Prop} (hexact : ReadsExactly read describes)
    {document : JsonValue} {value other : α}
    (hvalue : describes document value) (hother : describes document other) :
    value = other := by
  have hread := (hexact document value).mpr hvalue
  rw [(hexact document other).mpr hother] at hread
  exact (Option.some.inj hread).symm

/-! ## Variants and sequences -/

theorem readU32_eq_some_iff {document : JsonValue} {value : UInt32} :
    readU32 document = some value ↔ document = u32Json value := by
  constructor
  · intro hread
    unfold readU32 at hread
    split at hread
    next found =>
      split at hread
      next hlt =>
        have hsame : found.toUInt32.toUInt64 = found := by
          rw [← UInt64.toNat_inj]
          simpa using Nat.mod_eq_of_lt hlt
        rw [u32Json, ← Option.some.inj hread, hsame]
      next => contradiction
    next => contradiction
  · intro heq
    rw [heq, readU32_u32Json]

/-- How a variant without fields may be written. -/
inductive NamesVariant (buffered : Bool) (name : String) : JsonValue → Prop
  | name : NamesVariant buffered name (.string name)
  | null : NamesVariant buffered name (.object [(name, .null)])
  | empty (hbuffered : buffered = true) :
      NamesVariant buffered name (.object [(name, .object [])])

theorem readUnitVariant_eq_some_iff {buffered : Bool}
    {variant : String → Option α} {document : JsonValue} {value : α} :
    readUnitVariant buffered variant document = some value ↔
      ∃ name, NamesVariant buffered name document ∧
        variant name = some value := by
  constructor
  · intro hread
    unfold readUnitVariant at hread
    split at hread
    next name => exact ⟨name, .name, hread⟩
    next name => exact ⟨name, .null, hread⟩
    next name =>
      cases buffered with
      | true => exact ⟨name, .empty rfl, hread⟩
      | false => contradiction
    next => contradiction
  · intro hnames
    rcases hnames with ⟨name, hnames, hvariant⟩
    cases hnames with
    | name => exact hvariant
    | null => exact hvariant
    | empty hbuffered => rw [readUnitVariant, if_pos hbuffered, hvariant]

/-- A reader which looks its names up in a table reads the names of the
table. -/
theorem readUnitVariant_lookup_exact {buffered : Bool} {name : α → String}
    {table : List (String × α)}
    (htable : ∀ entry ∈ table, entry.1 = name entry.2)
    (hlisted : ∀ value, table.lookup (name value) = some value) :
    ReadsExactly (readUnitVariant buffered fun key => table.lookup key)
      fun document value => NamesVariant buffered (name value) document := by
  intro document value
  rw [readUnitVariant_eq_some_iff]
  constructor
  · rintro ⟨key, hnames, hlookup⟩
    have hkey : key = name value := htable _ (mem_of_lookup hlookup)
    rw [← hkey]
    exact hnames
  · intro hnames
    exact ⟨name value, hnames, hlisted value⟩

def DescribesItems (describes : JsonValue → α → Prop) (document : JsonValue)
    (values : List α) : Prop :=
  ∃ items, document = .array items ∧ List.Forall₂ describes items values

theorem mapM_eq_some_iff_forall₂ {read : β → Option α} {items : List β}
    {values : List α} :
    items.mapM read = some values ↔
      List.Forall₂ (fun item value => read item = some value) items values
    := by
  induction items generalizing values with
  | nil => simp [eq_comm]
  | cons item rest ih =>
      rw [List.mapM_cons]
      simp only [Option.bind_eq_bind, Option.bind_eq_some_iff,
        Option.pure_def, Option.some.injEq, ih, List.forall₂_cons_left_iff]
      constructor
      · rintro ⟨value, hvalue, others, hothers, rfl⟩
        exact ⟨value, others, hvalue, hothers, rfl⟩
      · rintro ⟨value, others, hvalue, hothers, rfl⟩
        exact ⟨value, hvalue, others, hothers, rfl⟩

theorem readVector_exact {read : JsonValue → Option α}
    {describes : JsonValue → α → Prop}
    (hexact : ReadsExactly read describes) :
    ReadsExactly (readVector read) (DescribesItems describes) := by
  intro document values
  constructor
  · intro hread
    unfold readVector at hread
    split at hread
    next items =>
      refine ⟨items, rfl, (mapM_eq_some_iff_forall₂.mp hread).imp ?_⟩
      intro item value
      exact (hexact item value).mp
    next => contradiction
  · intro hitems
    rcases hitems with ⟨items, rfl, hitems⟩
    refine mapM_eq_some_iff_forall₂.mpr (hitems.imp ?_)
    intro item value
    exact (hexact item value).mpr

end Description

/-! ## Tags -/

section Tags

variable {α β : Type} {variants : List (String × α)} {tag : JsonValue}
  {item : α}

theorem selectVariant_eq_some_iff :
    selectVariant false variants tag = some item ↔
      ∃ name, tag = .string name ∧ variants.lookup name = some item := by
  unfold selectVariant
  split
  next name => simp
  next => simp
  next hname _ => simpa using fun name heq => (hname name heq).elim

/-- How a buffered tag may name a variant. -/
inductive TagsVariant (name : String) (index : ℕ) : JsonValue → Prop
  | name : TagsVariant name index (.string name)
  | index {position : UInt64} (hposition : position.toNat = index) :
      TagsVariant name index (.number (.posInt position))

theorem lookup_of_getElem? (hdistinct : (variants.map Prod.fst).Nodup)
    {name : String} {index : ℕ}
    (hitem : variants[index]? = some (name, item)) :
    variants.lookup name = some item := by
  induction variants generalizing index with
  | nil => simp at hitem
  | cons variant rest ih =>
      rw [List.map_cons, List.nodup_cons] at hdistinct
      cases index with
      | zero =>
          rw [List.getElem?_cons_zero, Option.some.injEq] at hitem
          rw [hitem, List.lookup_cons_self]
      | succ index =>
          rw [List.getElem?_cons_succ] at hitem
          have hmem := List.mem_map_of_mem (f := Prod.fst)
            (List.mem_of_getElem? hitem)
          have hne : name ≠ variant.1 := by
            intro heq
            exact hdistinct.1 (heq ▸ hmem)
          rw [lookup_cons_of_ne hne]
          exact ih hdistinct.2 hitem

theorem selectVariant_buffered_eq_some_iff
    (hdistinct : (variants.map Prod.fst).Nodup) :
    selectVariant true variants tag = some item ↔
      ∃ name index, variants[index]? = some (name, item) ∧
        TagsVariant name index tag := by
  constructor
  · intro hselect
    unfold selectVariant at hselect
    split at hselect
    next name =>
      obtain ⟨index, hitem⟩ :=
        List.mem_iff_getElem?.mp (mem_of_lookup hselect)
      exact ⟨name, index, hitem, .name⟩
    next position =>
      obtain ⟨⟨name, _⟩, hitem, rfl⟩ := Option.map_eq_some_iff.mp hselect
      exact ⟨name, _, hitem, .index rfl⟩
    next => contradiction
  · rintro ⟨name, index, hitem, htag⟩
    cases htag with
    | name => exact lookup_of_getElem? hdistinct hitem
    | index hposition =>
        exact Option.map_eq_some_iff.mpr ⟨_, hposition ▸ hitem, rfl⟩

theorem readTagged_eq_some_iff {variants : List (String × (JsonValue →
    Option β))} {tag : String} {buffered : Bool} {document : JsonValue}
    {value : β} :
    readTagged buffered tag variants document = some value ↔
      ∃ name content read, taggedContent tag document =
          some (name, content) ∧
        selectVariant buffered variants name = some read ∧
        read content = some value := by
  simp only [readTagged, Option.bind_eq_some_iff, Prod.exists]
  constructor
  · rintro ⟨name, content, htagged, read, hselect, hread⟩
    exact ⟨name, content, read, htagged, hselect, hread⟩
  · rintro ⟨name, content, read, htagged, hselect, hread⟩
    exact ⟨name, content, htagged, read, hselect, hread⟩

/-- A variant is read from the shape of its content with the tag. -/
theorem readTagged_of_carries {variants : List (String × (JsonValue →
    Option β))} {name : String} {buffered deny : Bool}
    {document : JsonValue} {fields : Members} {read : JsonValue → Option β}
    {value : β} (hfree : name ∉ fields.map Prod.fst)
    (hshape : Carries deny ((name, tag) :: fields) document)
    (hselect : selectVariant buffered variants tag = some read)
    (hread : ∀ content, Carries deny fields content →
      read content = some value) :
    readTagged buffered name variants document = some value := by
  obtain ⟨content, htagged, hcontent⟩ := (carries_tag_iff hfree).mp hshape
  exact readTagged_eq_some_iff.mpr
    ⟨tag, content, read, htagged, hselect, hread content hcontent⟩

theorem readUnit_eq_some_iff {document : JsonValue} {value variant : β} :
    readUnit variant document = some value ↔
      Carries false [] document ∧ variant = value := by
  rw [carries_iff (by simp)]
  cases document with
  | object members => simp [readUnit, fieldsOf]
  | array items => cases items <;> simp [readUnit, fieldsOf]
  | null => simp [readUnit, fieldsOf]
  | bool flag => simp [readUnit, fieldsOf]
  | number found => simp [readUnit, fieldsOf]
  | string text => simp [readUnit, fieldsOf]

theorem readField_eq_some_iff {γ : Type} {name : String}
    {read : JsonValue → Option β} {variant : β → γ} {document : JsonValue}
    {value : γ} :
    readField name read variant document = some value ↔
      ∃ field, Carries false [(name, field)] document ∧
        ∃ content, read field = some content ∧ variant content = value := by
  have hbind : readField name read variant document =
      ((fieldsOf false [name] document).bind fun found =>
        required read found name).map variant := by
    cases hfields : fieldsOf false [name] document with
    | none => simp [readField, hfields]
    | some found => cases hread : required read found name <;>
        simp [readField, hfields, hread]
  simp only [hbind, Option.map_eq_some_iff, bind_required_eq_some_iff]
  constructor
  · rintro ⟨content, ⟨field, hshape, hread⟩, hvalue⟩
    exact ⟨field, hshape, content, hread, hvalue⟩
  · rintro ⟨field, hshape, content, hread, hvalue⟩
    exact ⟨content, ⟨field, hshape, hread⟩, hvalue⟩

end Tags

/-! ## Structs -/

section Structs

variable {α β γ δ : Type} {denyUnknownFields : Bool} {value : JsonValue}
  {readFirst : JsonValue → Option α} {readSecond : JsonValue → Option β}
  {readThird : JsonValue → Option γ} {first second third : String}

theorem bind_required_triple_iff {make : α → β → γ → δ} {content : δ}
    (hdistinct : [first, second, third].Nodup) :
    ((fieldsOf denyUnknownFields [first, second, third] value).bind
        fun found => (required readFirst found first).bind fun a =>
          (required readSecond found second).bind fun b =>
            (required readThird found third).bind fun c =>
              some (make a b c)) = some content ↔
      ∃ left middle right, Carries denyUnknownFields
          [(first, left), (second, middle), (third, right)] value ∧
        ∃ a b c, readFirst left = some a ∧ readSecond middle = some b ∧
          readThird right = some c ∧ make a b c = content := by
  have hnames (left middle right : JsonValue) : ([(first, left),
      (second, middle), (third, right)].map Prod.fst).Nodup := hdistinct
  constructor
  · intro hread
    simp only [Option.bind_eq_some_iff, required_eq_some_iff,
      Option.some.injEq] at hread
    rcases hread with ⟨found, hfields, a, ⟨left, hleft, ha⟩, b,
      ⟨middle, hmiddle, hb⟩, c, ⟨right, hright, hc⟩, hmake⟩
    refine ⟨left, middle, right, (carries_iff (hnames _ _ _)).mpr
      ⟨found, hfields, ?_⟩, a, b, c, ha, hb, hc, hmake⟩
    simp [hleft, hmiddle, hright]
  · intro hshape
    rcases hshape with ⟨left, middle, right, hshape, a, b, c, ha, hb, hc,
      hmake⟩
    rcases (carries_iff (hnames left middle right)).mp hshape with
      ⟨found, hfields, hfound⟩
    simp only [List.map_cons, List.map_nil] at hfields
    simp only [List.forall_mem_cons] at hfound
    simp [hfields, required, hfound, ha, hb, hc, hmake]

/-- How a field of an optional type may be written. -/
inductive DescribesOption (describes : JsonValue → α → Prop)
    (document : JsonValue) : Option α → Prop
  | none (hnull : document = .null) :
      DescribesOption describes document none
  | some {content : α} (hne : document ≠ .null)
      (hcontent : describes document content) :
      DescribesOption describes document (some content)

variable {describes : JsonValue → α → Prop}

theorem optional_eq_some_iff (hexact : ReadsExactly readFirst describes)
    {found : Members} {content : Option α} :
    optional readFirst found first = some content ↔
      (found.lookup first = none ∧ content = none) ∨
        ∃ field, found.lookup first = some field ∧
          DescribesOption describes field content := by
  constructor
  · intro hread
    unfold optional at hread
    split at hread
    next hmissing => exact .inl ⟨hmissing, (Option.some.inj hread).symm⟩
    next hnull =>
      rw [← Option.some.inj hread]
      exact .inr ⟨.null, hnull, .none rfl⟩
    next field hne hfield =>
      obtain ⟨inner, hinner, rfl⟩ := Option.map_eq_some_iff.mp hread
      exact .inr ⟨field, hfield, .some hne ((hexact field inner).mp hinner)⟩
  · rintro (⟨hmissing, rfl⟩ | ⟨field, hfield, hdescribed⟩)
    · simp [optional, hmissing]
    · cases hdescribed with
      | none hnull => simp [optional, hfield, hnull]
      | some hne hcontent =>
          have hread := (hexact field _).mpr hcontent
          simp [optional, hfield, hread]

/-- The members which carry the second of two fields, when the first is
missing. -/
theorem carries_of_missing {found : Members} {right : JsonValue}
    (hfields : fieldsOf denyUnknownFields [first, second] value = some found)
    (hmissing : found.lookup first = none)
    (hright : found.lookup second = some right) :
    ∃ members, value = .object members ∧ first ∉ members.map Prod.fst ∧
      Carries denyUnknownFields [(second, right)] value := by
  cases value with
  | object members =>
      rw [fieldsOf] at hfields
      split at hfields
      next hboth =>
        rw [Option.some.injEq] at hfields
        subst hfields
        have hfirst : first ∉ members.map Prod.fst := by
          intro hmem
          obtain ⟨member, hmember, heq⟩ := List.mem_map.mp hmem
          have hne := List.lookup_eq_none_iff.mp hmissing member hmember
          simp [heq] at hne
        have honce : ∀ name ∈ [second],
            (members.map Prod.fst).count name ≤ 1 := by
          intro name hname
          exact hboth.1 name (List.mem_cons_of_mem first hname)
        have hknown : denyUnknownFields = true →
            ∀ name ∈ members.map Prod.fst, name ∈ [second] := by
          intro hdeny name hname
          rcases List.mem_cons.mp (hboth.2 hdeny name hname) with heq | hrest
          · exact (hfirst (heq ▸ hname)).elim
          · exact hrest
        refine ⟨members, rfl, hfirst,
          (carries_iff (by simp)).mpr ⟨members, if_pos ⟨honce, hknown⟩, ?_⟩⟩
        simpa using hright
      next => contradiction
  | array items =>
      rw [fieldsOf] at hfields
      split at hfields
      next hlength =>
        obtain ⟨left, other, rfl⟩ := List.length_eq_two.mp hlength
        rw [← Option.some.inj hfields] at hmissing
        simp at hmissing
      next => contradiction
  | null => contradiction
  | bool flag => contradiction
  | number found => contradiction
  | string text => contradiction

theorem fieldsOf_of_missing {members : Members} {right : JsonValue}
    (hfirst : first ∉ members.map Prod.fst)
    (hshape : Carries denyUnknownFields [(second, right)]
      (.object members)) :
    fieldsOf denyUnknownFields [first, second] (.object members) =
        some members ∧
      members.lookup first = none ∧ members.lookup second = some right := by
  obtain ⟨found, hfields, hfound⟩ := (carries_iff (by simp)).mp hshape
  rw [fieldsOf] at hfields
  split at hfields
  next hboth =>
    rw [Option.some.injEq] at hfields
    subst hfields
    have honce : ∀ name ∈ [first, second],
        (members.map Prod.fst).count name ≤ 1 := by
      intro name hname
      rcases List.mem_cons.mp hname with heq | hrest
      · rw [heq, List.count_eq_zero.mpr hfirst]
        exact Nat.zero_le 1
      · exact hboth.1 name hrest
    have hknown : denyUnknownFields = true →
        ∀ name ∈ members.map Prod.fst, name ∈ [first, second] := by
      intro hdeny name hname
      exact List.mem_cons_of_mem first (hboth.2 hdeny name hname)
    refine ⟨if_pos ⟨honce, hknown⟩, ?_, hfound _ List.mem_cons_self⟩
    rw [List.lookup_eq_none_iff]
    intro member hmember
    have hne : first ≠ member.1 := by
      intro heq
      exact hfirst (heq ▸ List.mem_map_of_mem hmember)
    simp [hne]
  next => contradiction

/-- A struct with an optional first field is the shape of both of its fields,
or an object without the first one. -/
theorem bind_optional_pair_iff (hexact : ReadsExactly readFirst describes)
    {make : Option α → β → δ} {content : δ} (hne : first ≠ second) :
    ((fieldsOf denyUnknownFields [first, second] value).bind fun found =>
        (optional readFirst found first).bind fun left =>
          (required readSecond found second).bind fun right =>
            some (make left right)) = some content ↔
      (∃ field right a b,
        Carries denyUnknownFields [(first, field), (second, right)] value ∧
          DescribesOption describes field a ∧ readSecond right = some b ∧
          make a b = content) ∨
      ∃ members right b, value = .object members ∧
        first ∉ members.map Prod.fst ∧
        Carries denyUnknownFields [(second, right)] value ∧
        readSecond right = some b ∧ make none b = content := by
  have hdistinct (field right : JsonValue) :
      ([(first, field), (second, right)].map Prod.fst).Nodup := by
    simp [hne]
  constructor
  · intro hread
    simp only [Option.bind_eq_some_iff, required_eq_some_iff,
      optional_eq_some_iff hexact, Option.some.injEq] at hread
    obtain ⟨found, hfields, a, hfirst, b, ⟨right, hright, hb⟩, hmake⟩ := hread
    rcases hfirst with ⟨hmissing, rfl⟩ | ⟨field, hfield, ha⟩
    · obtain ⟨members, hvalue, habsent, hshape⟩ :=
        carries_of_missing hfields hmissing hright
      exact .inr ⟨members, right, b, hvalue, habsent, hshape, hb, hmake⟩
    · refine .inl ⟨field, right, a, b, (carries_iff (hdistinct _ _)).mpr
        ⟨found, hfields, ?_⟩, ha, hb, hmake⟩
      simp [hfield, hright]
  · simp only [Option.bind_eq_some_iff, required_eq_some_iff,
      optional_eq_some_iff hexact, Option.some.injEq]
    rintro (⟨field, right, a, b, hshape, ha, hb, hmake⟩
      | ⟨members, right, b, rfl, hfirst, hshape, hb, hmake⟩)
    · obtain ⟨found, hfields, hfound⟩ :=
        (carries_iff (hdistinct field right)).mp hshape
      have hfield := hfound (first, field) (by simp)
      have hright := hfound (second, right) (by simp)
      exact ⟨found, hfields, a, .inr ⟨field, hfield, ha⟩, b,
        ⟨right, hright, hb⟩, hmake⟩
    · obtain ⟨hfields, hmissing, hright⟩ := fieldsOf_of_missing hfirst hshape
      exact ⟨members, hfields, none, .inl ⟨hmissing, rfl⟩, b,
        ⟨right, hright, hb⟩, hmake⟩

end Structs

end Json
