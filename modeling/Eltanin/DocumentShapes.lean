import Eltanin.DerivedReaders

/-!
# Shapes of documents

What a document looks like to its reader, apart from the order of members:
an object with exactly the members of a list, or whatever a derived struct
takes for these members.  The second is characterized by where the reader
finds its fields, and a tag is one more member of the shape.
-/

namespace Json

/-- An object with exactly these members, in some order. -/
def ExactObject (fields : Members) (value : JsonValue) : Prop :=
  ∃ members, value = .object members ∧ members.Perm fields

/-- What a derived struct takes for these fields: an object with each of them
once, and with others only if these are not denied, or the array of their
values. -/
inductive Carries (denyUnknownFields : Bool) (fields : Members) :
    JsonValue → Prop where
  | object {members others : Members}
      (hperm : members.Perm (fields ++ others))
      (hothers : ∀ other ∈ others, other.1 ∉ fields.map Prod.fst)
      (hdeny : denyUnknownFields = true → others = []) :
      Carries denyUnknownFields fields (.object members)
  | array : Carries denyUnknownFields fields (.array (fields.map Prod.snd))

section Members

variable {members fields others : Members} {key name : String}
  {document : JsonValue}

theorem mem_of_lookup {β : Type} {entries : List (String × β)} {item : β}
    (hlookup : entries.lookup key = some item) : (key, item) ∈ entries := by
  rcases List.lookup_eq_some_iff.mp hlookup with ⟨before, after, heq, -⟩
  rw [heq]
  exact List.mem_append_right before List.mem_cons_self

theorem count_pos_of_mem (hmem : (key, document) ∈ members) :
    0 < (members.map Prod.fst).count key :=
  List.count_pos_iff.mpr (List.mem_map_of_mem hmem)

theorem lookup_of_mem (hmem : (key, document) ∈ members)
    (honce : (members.map Prod.fst).count key ≤ 1) :
    members.lookup key = some document := by
  induction members with
  | nil => simp at hmem
  | cons member rest ih =>
      rcases member with ⟨other, value⟩
      rw [List.map_cons, List.count_cons] at honce
      rcases List.mem_cons.mp hmem with heq | hrest
      · rw [(Prod.mk.injEq ..).mp heq |>.1, (Prod.mk.injEq ..).mp heq |>.2,
          List.lookup_cons_self]
      · have hpos := count_pos_of_mem hrest
        have hne : key ≠ other := by
          intro heq
          rw [if_pos (by simp [heq])] at honce
          omega
        rw [lookup_cons_of_ne hne]
        exact ih hrest (by omega)

/-- The members with a name of the fields, when each of these is found once. -/
theorem filter_perm_of_lookup
    (hdistinct : (fields.map Prod.fst).Nodup)
    (honce : ∀ name ∈ fields.map Prod.fst,
      (members.map Prod.fst).count name ≤ 1)
    (hfound : ∀ field ∈ fields, members.lookup field.1 = some field.2) :
    (members.filter fun member => member.1 ∈ fields.map Prod.fst).Perm
      fields := by
  have hnodup : (members.filter fun member =>
      member.1 ∈ fields.map Prod.fst).Nodup := by
    apply List.Nodup.of_map Prod.fst
    rw [List.nodup_iff_count_le_one]
    intro name
    by_cases hname : name ∈ fields.map Prod.fst
    · have hsub : ((members.filter fun member =>
          member.1 ∈ fields.map Prod.fst).map Prod.fst).Sublist
            (members.map Prod.fst) := List.filter_sublist.map Prod.fst
      exact Nat.le_trans (hsub.count_le name) (honce name hname)
    · rw [List.count_eq_zero.mpr]
      · exact Nat.zero_le 1
      · intro hmem
        rcases List.mem_map.mp hmem with ⟨member, hmember, heq⟩
        have hin := of_decide_eq_true (List.mem_filter.mp hmember).2
        rw [heq] at hin
        exact hname hin
  rw [List.perm_ext_iff_of_nodup hnodup (List.Nodup.of_map Prod.fst hdistinct)]
  intro member
  rcases member with ⟨key, document⟩
  rw [List.mem_filter, decide_eq_true_eq]
  constructor
  · intro hboth
    rcases List.mem_map.mp hboth.2 with ⟨field, hfield, heq⟩
    have hlookup := hfound field hfield
    have hname : key ∈ fields.map Prod.fst := hboth.2
    rw [heq, lookup_of_mem hboth.1 (honce key hname)] at hlookup
    have hpair : (key, document) = field :=
      Prod.ext heq.symm (Option.some.inj hlookup)
    rw [hpair]
    exact hfield
  · intro hfield
    exact ⟨mem_of_lookup (hfound _ hfield), List.mem_map_of_mem hfield⟩

theorem count_of_perm (hdistinct : (fields.map Prod.fst).Nodup)
    (hperm : members.Perm (fields ++ others))
    (hothers : ∀ other ∈ others, other.1 ∉ fields.map Prod.fst)
    (hname : name ∈ fields.map Prod.fst) :
    (members.map Prod.fst).count name = 1 := by
  have hzero : (others.map Prod.fst).count name = 0 := by
    rw [List.count_eq_zero]
    intro hmem
    rcases List.mem_map.mp hmem with ⟨other, hother, heq⟩
    exact hothers other hother (heq ▸ hname)
  rw [(hperm.map Prod.fst).count_eq, List.map_append, List.count_append,
    hzero, List.count_eq_one_of_mem hdistinct hname]

theorem zip_lookup_iff {items : List JsonValue}
    (hdistinct : (fields.map Prod.fst).Nodup)
    (hlength : items.length = fields.length) :
    (∀ field ∈ fields,
        ((fields.map Prod.fst).zip items).lookup field.1 = some field.2) ↔
      items = fields.map Prod.snd := by
  induction fields generalizing items with
  | nil => simp [List.length_eq_zero_iff.mp hlength]
  | cons field rest ih =>
      cases items with
      | nil => simp at hlength
      | cons item items =>
          rw [List.map_cons, List.nodup_cons] at hdistinct
          have hrest := ih hdistinct.2 (Nat.succ.inj hlength)
          have hskip : ∀ other ∈ rest,
              ((field.1 :: rest.map Prod.fst).zip (item :: items)).lookup
                  other.1 =
                ((rest.map Prod.fst).zip items).lookup other.1 := by
            intro other hother
            apply lookup_cons_of_ne
            intro heq
            exact hdistinct.1 (heq ▸ List.mem_map_of_mem hother)
          rw [List.forall_mem_cons, List.map_cons, List.map_cons,
            List.cons.injEq, ← hrest]
          apply and_congr
          · simp
          · constructor
            · intro hall other hother
              rw [← hskip other hother]
              exact hall other hother
            · intro hall other hother
              rw [hskip other hother]
              exact hall other hother

end Members

theorem ExactObject.mem {fields members : Members} {name : String}
    {document : JsonValue} (hexact : ExactObject fields (.object members))
    (hmem : (name, document) ∈ fields) : (name, document) ∈ members := by
  rcases hexact with ⟨found, heq, hperm⟩
  rw [JsonValue.object.inj heq]
  exact hperm.mem_iff.mpr hmem

theorem ExactObject.length_eq {fields members : Members}
    (hexact : ExactObject fields (.object members)) :
    members.length = fields.length := by
  rcases hexact with ⟨found, heq, hperm⟩
  rw [JsonValue.object.inj heq]
  exact hperm.length_eq

theorem exactObject_object (fields : Members) :
    ExactObject fields (.object fields) :=
  ⟨fields, rfl, .refl fields⟩

section Carries

variable {denyUnknownFields : Bool} {fields : Members} {value : JsonValue}

theorem Carries.of_exactObject (hexact : ExactObject fields value) :
    Carries denyUnknownFields fields value := by
  rcases hexact with ⟨members, heq, hperm⟩
  have hall : members.Perm (fields ++ []) := by
    rw [List.append_nil]
    exact hperm
  rw [heq]
  exact .object hall (by simp) fun _ => rfl

theorem carries_array_iff {items : List JsonValue} :
    Carries denyUnknownFields fields (.array items) ↔
      items = fields.map Prod.snd := by
  constructor
  · intro hcarries
    cases hcarries
    rfl
  · intro heq
    rw [heq]
    exact .array

/-- A reader finds its fields where the shape says. -/
theorem carries_iff (hdistinct : (fields.map Prod.fst).Nodup) :
    Carries denyUnknownFields fields value ↔
      ∃ found, fieldsOf denyUnknownFields (fields.map Prod.fst) value =
          some found ∧
        ∀ field ∈ fields, found.lookup field.1 = some field.2 := by
  constructor
  · intro hcarries
    cases hcarries with
    | object hperm hothers hdeny =>
        rename_i members others
        have honce : ∀ name ∈ fields.map Prod.fst,
            (members.map Prod.fst).count name ≤ 1 := fun name hname =>
          Nat.le_of_eq (count_of_perm hdistinct hperm hothers hname)
        have hknown : denyUnknownFields = true →
            ∀ name ∈ members.map Prod.fst, name ∈ fields.map Prod.fst := by
          intro htrue name hname
          rw [hdeny htrue, List.append_nil] at hperm
          exact (hperm.map Prod.fst).mem_iff.mp hname
        refine ⟨members, if_pos ⟨honce, hknown⟩, ?_⟩
        intro field hfield
        have hname : field.1 ∈ fields.map Prod.fst :=
          List.mem_map_of_mem hfield
        apply lookup_of_mem _ (honce field.1 hname)
        exact hperm.mem_iff.mpr (List.mem_append_left others hfield)
    | array =>
        refine ⟨(fields.map Prod.fst).zip (fields.map Prod.snd),
          if_pos (by simp), ?_⟩
        exact (zip_lookup_iff hdistinct (by simp)).mpr rfl
  · intro hfields
    rcases hfields with ⟨found, hfields, hfound⟩
    cases value with
    | object members =>
        rw [fieldsOf] at hfields
        split at hfields
        next hboth =>
          rw [← Option.some.inj hfields] at hfound
          have hknown := filter_perm_of_lookup hdistinct hboth.1 hfound
          have hsplit := List.filter_append_perm
            (fun member => decide (member.1 ∈ fields.map Prod.fst)) members
          apply Carries.object
            (hsplit.symm.trans (hknown.append_right _))
          · intro other hother
            simpa using (List.mem_filter.mp hother).2
          · intro htrue
            rw [List.filter_eq_nil_iff]
            intro member hmem
            simpa using hboth.2 htrue member.1 (List.mem_map_of_mem hmem)
        next => contradiction
    | array items =>
        rw [fieldsOf] at hfields
        split at hfields
        next hlength =>
          rw [List.length_map] at hlength
          rw [← Option.some.inj hfields] at hfound
          rw [(zip_lookup_iff hdistinct hlength).mp hfound]
          exact Carries.array
        next => contradiction
    | null => contradiction
    | bool value => contradiction
    | number value => contradiction
    | string value => contradiction

/-- A reader of one field finds it in the shape of that field. -/
theorem bind_required_eq_some_iff {α : Type} {read : JsonValue → Option α}
    {name : String} {content : α} :
    ((fieldsOf denyUnknownFields [name] value).bind fun found =>
        required read found name) = some content ↔
      ∃ document, Carries denyUnknownFields [(name, document)] value ∧
        read document = some content := by
  rw [Option.bind_eq_some_iff]
  constructor
  · intro hread
    rcases hread with ⟨found, hfields, hfound⟩
    rcases required_eq_some_iff.mp hfound with ⟨document, hlookup, hread⟩
    exact ⟨document, (carries_iff (by simp)).mpr
      ⟨found, hfields, by simp [hlookup]⟩, hread⟩
  · intro hshape
    rcases hshape with ⟨document, hshape, hread⟩
    rcases (carries_iff (by simp)).mp hshape with ⟨found, hfields, hfound⟩
    exact ⟨found, hfields, required_eq_some_iff.mpr
      ⟨document, hfound _ List.mem_cons_self, hread⟩⟩

theorem bind_required_pair_iff {α β γ : Type} {first second : String}
    {readFirst : JsonValue → Option α} {readSecond : JsonValue → Option β}
    {make : α → β → γ} {content : γ} (hne : first ≠ second) :
    ((fieldsOf denyUnknownFields [first, second] value).bind fun found =>
        (required readFirst found first).bind fun left =>
          (required readSecond found second).bind fun right =>
            some (make left right)) = some content ↔
      ∃ left right, Carries denyUnknownFields [(first, left), (second, right)]
          value ∧
        ∃ a b, readFirst left = some a ∧ readSecond right = some b ∧
          make a b = content := by
  have hdistinct : ∀ left right : JsonValue,
      ([(first, left), (second, right)].map Prod.fst).Nodup := by
    intro left right
    simp [hne]
  constructor
  · intro hread
    simp only [Option.bind_eq_some_iff, required_eq_some_iff,
      Option.some.injEq] at hread
    rcases hread with ⟨found, hfields, a, ⟨left, hleft, ha⟩, b,
      ⟨right, hright, hb⟩, hmake⟩
    refine ⟨left, right, (carries_iff (hdistinct left right)).mpr
      ⟨found, hfields, ?_⟩, a, b, ha, hb, hmake⟩
    simp [hleft, hright]
  · intro hshape
    rcases hshape with ⟨left, right, hshape, a, b, ha, hb, hmake⟩
    rcases (carries_iff (hdistinct left right)).mp hshape with
      ⟨found, hfields, hfound⟩
    simp only [List.map_cons, List.map_nil] at hfields
    simp only [List.forall_mem_cons] at hfound
    simp [hfields, required, hfound, ha, hb, hmake]

/-- A reader of two fields succeeds on what carries two readable fields. -/
theorem exists_required_pair_iff {α β γ : Type} {first second : String}
    {readFirst : JsonValue → Option α} {readSecond : JsonValue → Option β}
    {make : α → β → γ} (hne : first ≠ second) :
    (∃ content, ((fieldsOf denyUnknownFields [first, second] value).bind
        fun found => (required readFirst found first).bind fun left =>
          (required readSecond found second).bind fun right =>
            some (make left right)) = some content) ↔
      ∃ left right,
        Carries denyUnknownFields [(first, left), (second, right)] value ∧
          (∃ content, readFirst left = some content) ∧
          ∃ content, readSecond right = some content := by
  simp only [bind_required_pair_iff hne]
  constructor
  · rintro ⟨-, left, right, hshape, a, b, ha, hb, -⟩
    exact ⟨left, right, hshape, ⟨a, ha⟩, b, hb⟩
  · rintro ⟨left, right, hshape, ⟨a, ha⟩, b, hb⟩
    exact ⟨make a b, left, right, hshape, a, b, ha, hb, rfl⟩

theorem taggedContent_object_iff {tag : String} {name content : JsonValue}
    {members : Members} :
    taggedContent tag (.object members) = some (name, content) ↔
      members.filter (fun member => member.1 = tag) = [(tag, name)] ∧
        content = .object (members.filter fun member => member.1 ≠ tag) := by
  rw [taggedContent]
  constructor
  · intro htagged
    split at htagged
    next other document hsingle =>
      have hmem : (other, document) ∈
          members.filter fun member => member.1 = tag := by
        rw [hsingle]
        exact List.mem_singleton_self _
      have hother : other = tag := by
        simpa using (List.mem_filter.mp hmem).2
      rw [Option.some.injEq, Prod.mk.injEq] at htagged
      rw [hsingle, hother, htagged.1]
      exact ⟨rfl, htagged.2.symm⟩
    next => contradiction
  · intro hboth
    rw [hboth.1, hboth.2]

/-- The tag of an enum is one more member of the shape of its content. -/
theorem carries_tag_iff {tag : String} {name : JsonValue}
    (htag : tag ∉ fields.map Prod.fst) :
    Carries denyUnknownFields ((tag, name) :: fields) value ↔
      ∃ content, taggedContent tag value = some (name, content) ∧
        Carries denyUnknownFields fields content := by
  constructor
  · intro hcarries
    cases hcarries with
    | object hperm hothers hdeny =>
        rename_i members others
        have hfree : tag ∉ (fields ++ others).map Prod.fst := by
          rw [List.map_append, List.mem_append, not_or]
          refine ⟨htag, ?_⟩
          intro hmem
          rcases List.mem_map.mp hmem with ⟨other, hother, heq⟩
          exact hothers other hother (heq ▸ List.mem_cons_self)
        have hmarked := hperm.filter fun member => member.1 = tag
        rw [List.cons_append, List.filter_cons_of_pos (by simp),
          filter_tag_eq_nil hfree, List.perm_singleton] at hmarked
        have hrest := hperm.filter fun member => member.1 ≠ tag
        rw [List.cons_append, List.filter_cons_of_neg (by simp),
          filter_not_tag_eq_self hfree] at hrest
        refine ⟨_, taggedContent_object_iff.mpr ⟨hmarked, rfl⟩,
          Carries.object hrest ?_ hdeny⟩
        intro other hother hmem
        exact hothers other hother (List.mem_cons_of_mem tag hmem)
    | array => exact ⟨_, rfl, Carries.array⟩
  · intro htagged
    rcases htagged with ⟨content, htagged, hcarries⟩
    cases value with
    | object members =>
        rcases taggedContent_object_iff.mp htagged with ⟨hsingle, hcontent⟩
        rw [hcontent] at hcarries
        cases hcarries with
        | object hperm hothers hdeny =>
            rename_i others
            have hrest : members.filter
                (fun member => !decide (member.1 = tag)) =
                members.filter fun member => member.1 ≠ tag := by
              simp
            have hsplit := List.filter_append_perm
              (fun member => decide (member.1 = tag)) members
            rw [hsingle, hrest] at hsplit
            have hall : members.Perm ((tag, name) :: fields ++ others) :=
              hsplit.symm.trans (hperm.append_left [(tag, name)])
            apply Carries.object hall _ hdeny
            intro other hother hmem
            have hfiltered := hperm.mem_iff.mpr
              (List.mem_append_right fields hother)
            rcases List.mem_cons.mp hmem with htagged | hfield
            · simp [htagged] at hfiltered
            · exact hothers other hother hfield
    | array items =>
        cases items with
        | nil => contradiction
        | cons first rest =>
            rw [taggedContent, Option.some.injEq, Prod.mk.injEq] at htagged
            rw [← htagged.2] at hcarries
            rw [htagged.1]
            cases hcarries
            exact Carries.array
    | null => contradiction
    | bool value => contradiction
    | number value => contradiction
    | string value => contradiction

theorem single_of_carries {name : String} {document : JsonValue}
    {members : Members} (hname : name ∉ fields.map Prod.fst)
    (hcarries : Carries denyUnknownFields ((name, document) :: fields)
      (.object members)) :
    members.filter (fun member => member.1 = name) = [(name, document)] := by
  rcases (carries_tag_iff hname).mp hcarries with ⟨content, htagged, -⟩
  exact (taggedContent_object_iff.mp htagged).1

end Carries

end Json
