import Mathlib.Data.List.Basic

/-!
# Lines of text and lines of bytes

A text is a list of Unicode scalar values, a file a list of bytes, and UTF-8
connects the two.  Every ASCII byte of an encoded text is the ASCII character
it stands for, so that cutting a file into lines at its newline bytes and
decoding each line gives the lines of the decoded file.
-/

namespace TextLines

/-! ## UTF-8 -/

def encode (text : List Char) : List UInt8 :=
  text.flatMap String.utf8EncodeChar

def decode? (bytes : List UInt8) : Option (List Char) :=
  bytes.toByteArray.utf8Decode?.map Array.toList

@[simp] theorem encode_nil : encode [] = [] := rfl

theorem encode_cons (c : Char) (text : List Char) :
    encode (c :: text) = String.utf8EncodeChar c ++ encode text := rfl

theorem encode_append (first second : List Char) :
    encode (first ++ second) = encode first ++ encode second :=
  List.flatMap_append

theorem length_encode_le (text : List Char) :
    (encode text).length ≤ 4 * text.length := by
  induction text with
  | nil => simp
  | cons c rest ih =>
      have hc : (String.utf8EncodeChar c).length ≤ 4 := by
        rw [String.length_utf8EncodeChar]
        exact c.utf8Size_le_four
      rw [encode_cons, List.length_append, List.length_cons]
      omega

theorem utf8EncodeChar_ascii {c : Char} (hascii : c.toNat ≤ 127) :
    String.utf8EncodeChar c = [UInt8.ofNat c.toNat] := by
  unfold String.utf8EncodeChar
  exact if_pos hascii

/-- Characters beyond ASCII are encoded without any ASCII byte. -/
theorem not_mem_utf8EncodeChar {c : Char} {byte : UInt8}
    (hchar : ¬c.toNat ≤ 127) (hbyte : byte.toNat ≤ 127) :
    byte ∉ String.utf8EncodeChar c := by
  have hcontinued : ∀ n : ℕ, byte ≠ UInt8.ofNat (n % 64 + 128) := by
    intro n heq
    rw [heq, UInt8.toNat_ofNat'] at hbyte
    omega
  have hlead : ∀ n k : ℕ, 128 ≤ k → n + k < 256 →
      byte ≠ UInt8.ofNat (n + k) := by
    intro n k hk hlt heq
    rw [heq, UInt8.toNat_ofNat'] at hbyte
    omega
  intro hmem
  unfold String.utf8EncodeChar at hmem
  simp only at hmem
  split at hmem
  next hascii => exact hchar hascii
  split at hmem
  · simp only [List.mem_cons, List.not_mem_nil, or_false] at hmem
    rcases hmem with heq | heq
    · exact hlead _ _ (by omega) (by omega) heq
    · exact hcontinued _ heq
  split at hmem
  · simp only [List.mem_cons, List.not_mem_nil, or_false] at hmem
    rcases hmem with heq | heq | heq
    · exact hlead _ _ (by omega) (by omega) heq
    · exact hcontinued _ heq
    · exact hcontinued _ heq
  · simp only [List.mem_cons, List.not_mem_nil, or_false] at hmem
    rcases hmem with heq | heq | heq | heq
    · exact hlead _ _ (by omega) (by omega) heq
    · exact hcontinued _ heq
    · exact hcontinued _ heq
    · exact hcontinued _ heq

theorem mem_encode_iff {text : List Char} {d : Char} (hd : d.toNat ≤ 127) :
    UInt8.ofNat d.toNat ∈ encode text ↔ d ∈ text := by
  rw [encode, List.mem_flatMap]
  constructor
  · intro hmem
    obtain ⟨c, hc, hbyte⟩ := hmem
    by_cases hascii : c.toNat ≤ 127
    · rw [utf8EncodeChar_ascii hascii, List.mem_singleton,
        ← UInt8.toNat_inj, UInt8.toNat_ofNat', UInt8.toNat_ofNat'] at hbyte
      have heq : d = c := Char.toNat_inj.mp (by omega)
      rw [heq]
      exact hc
    · have hsmall : (UInt8.ofNat d.toNat).toNat ≤ 127 := by
        rw [UInt8.toNat_ofNat']
        omega
      exact (not_mem_utf8EncodeChar hascii hsmall hbyte).elim
  · intro hmem
    refine ⟨d, hmem, ?_⟩
    rw [utf8EncodeChar_ascii hd]
    exact List.mem_singleton_self _

theorem toNat_le_of_mem_encode {text : List Char} {byte : UInt8}
    (hmem : byte ∈ encode text) : byte.toNat ≤ 247 := by
  obtain ⟨c, -, hbyte⟩ := List.mem_flatMap.mp hmem
  have hsmall : ∀ n k : ℕ, n + k ≤ 247 →
      (UInt8.ofNat (n + k)).toNat ≤ 247 := by
    intro n k hle
    rw [UInt8.toNat_ofNat']
    omega
  unfold String.utf8EncodeChar at hbyte
  simp only at hbyte
  split at hbyte
  next hascii =>
    rw [List.mem_singleton] at hbyte
    rw [hbyte]
    exact hsmall c.val.toNat 0 (by omega)
  split at hbyte
  · simp only [List.mem_cons, List.not_mem_nil, or_false] at hbyte
    rcases hbyte with heq | heq <;> rw [heq] <;>
      exact hsmall _ _ (by omega)
  split at hbyte
  · simp only [List.mem_cons, List.not_mem_nil, or_false] at hbyte
    rcases hbyte with heq | heq | heq <;> rw [heq] <;>
      exact hsmall _ _ (by omega)
  · simp only [List.mem_cons, List.not_mem_nil, or_false] at hbyte
    rcases hbyte with heq | heq | heq | heq <;> rw [heq] <;>
      exact hsmall _ _ (by omega)

theorem decode?_encode (text : List Char) :
    decode? (encode text) = some text := by
  have hbytes : (encode text).toByteArray = text.utf8Encode := rfl
  rw [decode?, hbytes, List.utf8Decode?_utf8Encode]
  rfl

theorem decode?_eq_some_iff {bytes : List UInt8} {text : List Char} :
    decode? bytes = some text ↔ bytes = encode text := by
  constructor
  · intro hdecode
    rw [decode?, Option.map_eq_some_iff] at hdecode
    rcases hdecode with ⟨characters, hcharacters, htext⟩
    have hvalid : bytes.toByteArray.utf8Decode?.isSome := by
      rw [hcharacters]
      rfl
    rcases ByteArray.isSome_utf8Decode?_iff.mp hvalid with ⟨found, hfound⟩
    rw [hfound, List.utf8Decode?_utf8Encode, Option.some.injEq]
      at hcharacters
    subst hcharacters
    subst htext
    have hlists := congrArg (fun array => array.data.toList) hfound
    simpa [List.utf8Encode, encode] using hlists
  · intro hbytes
    rw [hbytes, decode?_encode]

theorem encode_injective : Function.Injective encode := by
  intro first second heq
  have hdecoded := decode?_encode first
  rw [heq, decode?_encode] at hdecoded
  exact (Option.some.inj hdecoded).symm

theorem encode_eq_nil_iff {text : List Char} :
    encode text = [] ↔ text = [] := by
  rw [← encode_nil]
  exact encode_injective.eq_iff

theorem decode?_isSome_iff {bytes : List UInt8} :
    (decode? bytes).isSome = true ↔
      ByteArray.IsValidUTF8 bytes.toByteArray := by
  rw [decode?, Option.isSome_map, ByteArray.isSome_utf8Decode?_iff]

theorem decode?_eq_none_of_mem {bytes : List UInt8} {byte : UInt8}
    (hmem : byte ∈ bytes) (hbyte : 247 < byte.toNat) :
    decode? bytes = none := by
  cases hdecode : decode? bytes with
  | none => rfl
  | some text =>
      rw [decode?_eq_some_iff.mp hdecode] at hmem
      have hle := toNat_le_of_mem_encode hmem
      omega

theorem ofNat_toNat_eq_iff {c d : Char} (hc : c.toNat ≤ 127)
    (hd : d.toNat ≤ 127) :
    UInt8.ofNat c.toNat = UInt8.ofNat d.toNat ↔ c = d := by
  constructor
  · intro heq
    rw [← UInt8.toNat_inj, UInt8.toNat_ofNat', UInt8.toNat_ofNat'] at heq
    apply Char.toNat_inj.mp
    omega
  · intro heq
    rw [heq]

/-- An ASCII byte of an encoded text is a character of its own. -/
theorem exists_of_append_cons_eq_encode {first rest : List UInt8}
    {text : List Char} {d : Char} (hd : d.toNat ≤ 127)
    (heq : first ++ UInt8.ofNat d.toNat :: rest = encode text) :
    ∃ before after, first = encode before ∧ rest = encode after ∧
      text = before ++ d :: after := by
  induction text generalizing first with
  | nil => exact absurd heq (by simp)
  | cons c text ih =>
      have hlater : ∀ later,
          later ++ UInt8.ofNat d.toNat :: rest = encode text →
          first = String.utf8EncodeChar c ++ later →
          ∃ before after, first = encode before ∧ rest = encode after ∧
            c :: text = before ++ d :: after := by
        intro later hrest hfirst
        obtain ⟨before, after, hbefore, hafter, htext⟩ := ih hrest
        refine ⟨c :: before, after, ?_, hafter, ?_⟩
        · rw [hfirst, hbefore, encode_cons]
        · rw [htext, List.cons_append]
      rw [encode_cons, List.append_eq_append_iff] at heq
      rcases heq with ⟨part, hpart, hrest⟩ | ⟨later, hfirst, hrest⟩
      · cases part with
        | nil =>
            rw [List.append_nil] at hpart
            exact hlater [] hrest (by rw [hpart, List.append_nil])
        | cons byte part =>
            rw [List.cons_append, List.cons.injEq] at hrest
            obtain ⟨hbyte, hrest⟩ := hrest
            have hmem : UInt8.ofNat d.toNat ∈ String.utf8EncodeChar c := by
              rw [hpart, hbyte]
              exact List.mem_append_right first List.mem_cons_self
            have hsmall : (UInt8.ofNat d.toNat).toNat ≤ 127 := by
              rw [UInt8.toNat_ofNat']
              omega
            have hascii : c.toNat ≤ 127 := by
              by_contra hwide
              exact not_mem_utf8EncodeChar hwide hsmall hmem
            rw [utf8EncodeChar_ascii hascii, List.singleton_eq_append_iff]
              at hpart
            rcases hpart with ⟨hfirst, hlast⟩ | ⟨-, hlast⟩
            · rw [List.cons.injEq, ← hbyte, ofNat_toNat_eq_iff hd hascii]
                at hlast
              obtain ⟨rfl, rfl⟩ := hlast
              exact ⟨[], text, hfirst, hrest, rfl⟩
            · exact nomatch hlast
      · exact hlater later hrest.symm hfirst

/-- A text is cut at an ASCII byte as it is cut at that character. -/
theorem decode?_append_cons_eq_some_iff {first rest : List UInt8}
    {text : List Char} {d : Char} (hd : d.toNat ≤ 127) :
    decode? (first ++ UInt8.ofNat d.toNat :: rest) = some text ↔
      ∃ before after, decode? first = some before ∧
        decode? rest = some after ∧ text = before ++ d :: after := by
  simp only [decode?_eq_some_iff]
  constructor
  · exact exists_of_append_cons_eq_encode hd
  · rintro ⟨before, after, rfl, rfl, rfl⟩
    rw [encode_append, encode_cons, utf8EncodeChar_ascii hd]
    rfl

/-! ## Lines -/

section Lines

variable {α : Type*} [DecidableEq α]

/-- The lines of a list: each ends before a newline, or before a return and a
newline, and a last line may go without. -/
def lines (newline carriage : α) : List α → List (List α)
  | [] => []
  | item :: rest =>
      if item = newline then [] :: lines newline carriage rest
      else if item = carriage ∧ rest.head? = some newline then
        lines newline carriage rest
      else
        match lines newline carriage rest with
        | [] => [[item]]
        | line :: more => (item :: line) :: more

def prepend (chunk : List α) : List (List α) → List (List α)
  | [] => [chunk]
  | line :: more => (chunk ++ line) :: more

variable {newline carriage : α} {chunk rest : List α}

theorem lines_cons_newline :
    lines newline carriage (newline :: rest) =
      [] :: lines newline carriage rest := by
  simp [lines]

/-- A chunk without separators belongs to the line it is in front of. -/
theorem lines_append_of_plain (hne : chunk ≠ [])
    (hnewline : newline ∉ chunk) (hcarriage : carriage ∉ chunk) :
    lines newline carriage (chunk ++ rest) =
      prepend chunk (lines newline carriage rest) := by
  induction chunk with
  | nil => exact (hne rfl).elim
  | cons item chunk ih =>
      rw [List.mem_cons, not_or] at hnewline hcarriage
      have hitem : ¬item = newline := Ne.symm hnewline.1
      have hplain : ¬(item = carriage ∧
          (chunk ++ rest).head? = some newline) := by
        intro hreturn
        exact hcarriage.1 hreturn.1.symm
      rw [List.cons_append, lines, if_neg hitem, if_neg hplain]
      by_cases hchunk : chunk = []
      · subst hchunk
        cases hlines : lines newline carriage rest <;>
          simp [hlines, prepend]
      · rw [ih hchunk hnewline.2 hcarriage.2]
        cases hlines : lines newline carriage rest <;> simp [prepend]

theorem lines_append_newline (hnewline : newline ∉ chunk)
    (hcarriage : carriage ∉ chunk) :
    lines newline carriage (chunk ++ newline :: rest) =
      chunk :: lines newline carriage rest := by
  by_cases hchunk : chunk = []
  · rw [hchunk, List.nil_append, lines_cons_newline]
  · rw [lines_append_of_plain hchunk hnewline hcarriage, lines_cons_newline,
      prepend, List.append_nil]

/-- A chunk without newlines is, but for a return at its end, one line. -/
theorem exists_lines_append_newline (hnewline : newline ∉ chunk) :
    ∃ line, line <+: chunk ∧
      lines newline carriage (chunk ++ newline :: rest) =
        line :: lines newline carriage rest := by
  induction chunk with
  | nil => exact ⟨[], List.nil_prefix, lines_cons_newline⟩
  | cons item chunk ih =>
      rw [List.mem_cons, not_or] at hnewline
      obtain ⟨line, hline, hlines⟩ := ih hnewline.2
      rw [List.cons_append, lines, if_neg (Ne.symm hnewline.1), hlines]
      by_cases hreturn : item = carriage ∧
          (chunk ++ newline :: rest).head? = some newline
      · have hlast : chunk = [] := by
          cases chunk with
          | nil => rfl
          | cons first chunk =>
              have hfirst : first = newline := Option.some.inj hreturn.2
              exact (hnewline.2 (hfirst ▸ List.mem_cons_self)).elim
        rw [hlast, List.prefix_nil] at hline
        rw [if_pos hreturn, hline]
        exact ⟨[], List.nil_prefix, rfl⟩
      · rw [if_neg hreturn]
        exact ⟨item :: line, (List.prefix_cons_inj item).mpr hline, rfl⟩

theorem lines_flatMap_append {β : Type*} {line : β → List α} {items : List β}
    (hplain : ∀ item ∈ items, newline ∉ line item ∧ carriage ∉ line item) :
    lines newline carriage
        (items.flatMap (fun item => line item ++ [newline]) ++ rest) =
      items.map line ++ lines newline carriage rest := by
  induction items with
  | nil => rfl
  | cons item items ih =>
      have hitem := hplain item List.mem_cons_self
      have hrest := ih fun other hother =>
        hplain other (List.mem_cons_of_mem item hother)
      rw [List.flatMap_cons, List.append_assoc, List.append_assoc,
        List.singleton_append, lines_append_newline hitem.1 hitem.2, hrest,
        List.map_cons, List.cons_append]

end Lines

/-! ## Lines of an encoded text -/

def textLines (text : List Char) : List (List Char) :=
  lines '\n' '\r' text

def byteLines (bytes : List UInt8) : List (List UInt8) :=
  lines 10 13 bytes

/-- The first byte of an encoded text is an ASCII byte when, and only when,
its first character is that one. -/
theorem head?_encode_eq_some_iff {text : List Char} {d : Char}
    (hd : d.toNat ≤ 127) :
    (encode text).head? = some (UInt8.ofNat d.toNat) ↔
      text.head? = some d := by
  cases text with
  | nil => simp
  | cons c rest =>
      rw [encode_cons, List.head?_cons, Option.some.injEq]
      by_cases hascii : c.toNat ≤ 127
      · rw [utf8EncodeChar_ascii hascii, List.singleton_append,
          List.head?_cons, Option.some.injEq]
        exact ofNat_toNat_eq_iff hascii hd
      · constructor
        · intro hhead
          have hmem : UInt8.ofNat d.toNat ∈ String.utf8EncodeChar c := by
            cases hbytes : String.utf8EncodeChar c with
            | nil => exact (String.utf8EncodeChar_ne_nil hbytes).elim
            | cons byte bytes =>
                rw [hbytes, List.cons_append, List.head?_cons,
                  Option.some.injEq] at hhead
                rw [hhead]
                exact List.mem_cons_self
          have hbyte : (UInt8.ofNat d.toNat).toNat ≤ 127 := by
            rw [UInt8.toNat_ofNat']
            omega
          exact (not_mem_utf8EncodeChar hascii hbyte hmem).elim
        · intro heq
          rw [heq] at hascii
          exact (hascii hd).elim

theorem byteLines_encode (text : List Char) :
    byteLines (encode text) = (textLines text).map encode := by
  have hnewline : UInt8.ofNat '\n'.toNat = 10 := by decide
  have hreturn : UInt8.ofNat '\r'.toNat = 13 := by decide
  induction text with
  | nil => rfl
  | cons c rest ih =>
      have hhead : (encode rest).head? = some (UInt8.ofNat '\n'.toNat) ↔ _ :=
        head?_encode_eq_some_iff (by decide)
      rw [hnewline] at hhead
      simp only [byteLines, textLines] at ih ⊢
      rw [encode_cons, lines]
      by_cases hascii : c.toNat ≤ 127
      · have hten : _ = UInt8.ofNat '\n'.toNat ↔ _ :=
          ofNat_toNat_eq_iff hascii (by decide)
        have hthirteen : _ = UInt8.ofNat '\r'.toNat ↔ _ :=
          ofNat_toNat_eq_iff hascii (by decide)
        rw [hnewline] at hten
        rw [hreturn] at hthirteen
        rw [utf8EncodeChar_ascii hascii, List.singleton_append, lines]
        simp only [hten, hthirteen, hhead, ih]
        split
        · rfl
        split
        · rfl
        cases hlines : lines '\n' '\r' rest with
        | nil => simp [encode_cons, utf8EncodeChar_ascii hascii]
        | cons line more => simp [encode_cons, utf8EncodeChar_ascii hascii]
      · have hne : ∀ d : Char, d.toNat ≤ 127 → c ≠ d := by
          intro d hd heq
          exact hascii (heq ▸ hd)
        rw [lines_append_of_plain String.utf8EncodeChar_ne_nil
          (not_mem_utf8EncodeChar hascii (by decide))
          (not_mem_utf8EncodeChar hascii (by decide)), ih]
        rw [if_neg (hne _ (by decide)),
          if_neg fun hboth => hne _ (by decide) hboth.1]
        cases hlines : lines '\n' '\r' rest with
        | nil => simp [prepend, encode_cons]
        | cons line more => simp [prepend, encode_cons]

end TextLines
