import Mathlib.Data.List.Basic

/-!
# Reading from a stream of bytes

A stream is the list of what the reads of it will find: some bytes, an
interruption, or a failure.  A read of no bytes, as the end of the list, is
the end of the stream.  Reading until a buffer is full gives the same bytes
for every way in which they are delivered.
-/

namespace ByteStream

inductive Delivery where
  | chunk (bytes : List UInt8)
  | interrupted
  | failed (reason : String)
  deriving DecidableEq, Repr

inductive Reading where
  | complete (bytes : List UInt8)
  | ended (bytes : List UInt8)
  | failed (reason : String)
  deriving DecidableEq, Repr

/-- Fill a buffer of `wanted` bytes, of which the bytes of `total` are already
there.  An interrupted read is repeated.  What is left of a chunk stays in the
stream. -/
def fill (wanted : ℕ) (total : List UInt8) :
    List Delivery → Reading × List Delivery
  | [] =>
      if wanted ≤ total.length then (.complete total, [])
      else (.ended total, [])
  | delivery :: rest =>
      if wanted ≤ total.length then (.complete total, delivery :: rest)
      else
        match delivery with
        | .interrupted => fill wanted total rest
        | .failed reason => (.failed reason, rest)
        | .chunk bytes =>
            if bytes = [] then (.ended total, rest)
            else if bytes.length ≤ wanted - total.length then
              fill wanted (total ++ bytes) rest
            else
              (.complete (total ++ bytes.take (wanted - total.length)),
                .chunk (bytes.drop (wanted - total.length)) :: rest)

/-- The bytes before the first failure and before the end. -/
def delivered : List Delivery → List UInt8
  | [] => []
  | .interrupted :: rest => delivered rest
  | .failed _ :: _ => []
  | .chunk bytes :: rest => if bytes = [] then [] else bytes ++ delivered rest

variable {wanted : ℕ} {total bytes : List UInt8} {stream : List Delivery}

theorem fill_of_le (hroom : total.length ≤ wanted)
    (hle : wanted ≤ total.length + (delivered stream).length) :
    (fill wanted total stream).1 =
        .complete (total ++ (delivered stream).take (wanted - total.length)) ∧
      delivered (fill wanted total stream).2 =
        (delivered stream).drop (wanted - total.length) := by
  induction stream generalizing total with
  | nil =>
      have hfull : wanted ≤ total.length := by simpa [delivered] using hle
      simp [fill, hfull, delivered]
  | cons delivery rest ih =>
      by_cases hfull : wanted ≤ total.length
      · have hzero : wanted - total.length = 0 := by omega
        simp [fill, hfull, hzero]
      cases delivery with
      | interrupted =>
          simp only [fill, if_neg hfull]
          exact ih hroom hle
      | failed reason =>
          simp only [delivered, List.length_nil, Nat.add_zero] at hle
          exact (hfull hle).elim
      | chunk bytes =>
          by_cases hempty : bytes = []
          · simp only [delivered, if_pos hempty, List.length_nil,
              Nat.add_zero] at hle
            exact (hfull hle).elim
          simp only [fill, if_neg hfull, if_neg hempty, delivered]
          simp only [delivered, if_neg hempty, List.length_append] at hle
          by_cases hfits : bytes.length ≤ wanted - total.length
          · have hlength : (total ++ bytes).length =
                total.length + bytes.length := List.length_append
            have hrest : wanted - (total ++ bytes).length =
                wanted - total.length - bytes.length := by omega
            obtain ⟨hread, hleft⟩ :=
              @ih (total ++ bytes) (by omega) (by omega)
            rw [if_pos hfits, hread, hleft, hrest, List.take_append,
              List.drop_append, List.take_of_length_le hfits,
              List.drop_of_length_le hfits, List.append_assoc,
              List.nil_append]
            exact ⟨rfl, rfl⟩
          · have hlong : wanted - total.length ≤ bytes.length := by omega
            have hdrop : bytes.drop (wanted - total.length) ≠ [] := by
              rw [ne_eq, List.drop_eq_nil_iff]
              exact hfits
            rw [if_neg hfits, delivered, if_neg hdrop,
              List.take_append_of_le_length hlong,
              List.drop_append_of_le_length hlong]
            exact ⟨rfl, rfl⟩

theorem fill_of_lt (hroom : total.length ≤ wanted)
    (hlt : total.length + (delivered stream).length < wanted) :
    (fill wanted total stream).1 = .ended (total ++ delivered stream) ∨
      ∃ reason, (fill wanted total stream).1 = .failed reason := by
  induction stream generalizing total with
  | nil =>
      have hshort : ¬wanted ≤ total.length := by
        simpa [delivered] using hlt
      simp [fill, hshort, delivered]
  | cons delivery rest ih =>
      have hshort : ¬wanted ≤ total.length := by omega
      cases delivery with
      | interrupted =>
          simp only [fill, if_neg hshort]
          exact ih hroom hlt
      | failed reason =>
          right
          simp [fill, hshort]
      | chunk bytes =>
          by_cases hempty : bytes = []
          · left
            simp [fill, hshort, hempty, delivered]
          simp only [delivered, if_neg hempty, List.length_append] at hlt
          have hfits : bytes.length ≤ wanted - total.length := by omega
          have hlength : (total ++ bytes).length =
              total.length + bytes.length := List.length_append
          simp only [fill, if_neg hshort, if_neg hempty, if_pos hfits,
            delivered]
          rw [← List.append_assoc]
          exact ih (by omega) (by omega)

theorem fill_nil_of_le (hle : wanted ≤ (delivered stream).length) :
    (fill wanted [] stream).1 = .complete ((delivered stream).take wanted) ∧
      delivered (fill wanted [] stream).2 = (delivered stream).drop wanted := by
  have hread := @fill_of_le wanted [] stream (Nat.zero_le wanted)
    (by simpa using hle)
  simpa using hread

theorem exists_fill_of_le (hle : wanted ≤ (delivered stream).length) :
    ∃ unread, fill wanted [] stream =
        (.complete ((delivered stream).take wanted), unread) ∧
      delivered unread = (delivered stream).drop wanted := by
  obtain ⟨hread, hleft⟩ := fill_nil_of_le hle
  exact ⟨(fill wanted [] stream).2, Prod.ext hread rfl, hleft⟩

theorem fill_nil_of_lt (hlt : (delivered stream).length < wanted) :
    (fill wanted [] stream).1 = .ended (delivered stream) ∨
      ∃ reason, (fill wanted [] stream).1 = .failed reason := by
  have hread := @fill_of_lt wanted [] stream (Nat.zero_le wanted)
    (by simpa using hlt)
  simpa using hread

/-! ## Undisturbed streams -/

/-- The stream brings these bytes, in nonempty chunks with interruptions in
between, and then it ends. -/
inductive Brings : List UInt8 → List Delivery → Prop
  | nil : Brings [] []
  | interrupted {bytes : List UInt8} {stream : List Delivery}
      (hbrings : Brings bytes stream) :
      Brings bytes (.interrupted :: stream)
  | chunk {bytes first : List UInt8} {stream : List Delivery}
      (hfirst : first ≠ []) (hbrings : Brings bytes stream) :
      Brings (first ++ bytes) (.chunk first :: stream)

namespace Brings

theorem delivered_eq (hbrings : Brings bytes stream) :
    delivered stream = bytes := by
  induction hbrings with
  | nil => rfl
  | interrupted _ ih => exact ih
  | chunk hfirst _ ih => rw [delivered, if_neg hfirst, ih]

/-- Reading leaves an undisturbed stream behind. -/
theorem unread (hbrings : Brings bytes stream) (wanted : ℕ)
    (total : List UInt8) :
    ∃ rest, Brings rest (fill wanted total stream).2 := by
  induction hbrings generalizing total with
  | nil =>
      refine ⟨[], ?_⟩
      unfold fill
      split <;> exact .nil
  | interrupted hrest ih =>
      by_cases hfull : wanted ≤ total.length
      · simp only [fill, if_pos hfull]
        exact ⟨_, .interrupted hrest⟩
      · simp only [fill, if_neg hfull]
        exact ih total
  | @chunk bytes first _ hfirst hrest ih =>
      by_cases hfull : wanted ≤ total.length
      · simp only [fill, if_pos hfull]
        exact ⟨_, .chunk hfirst hrest⟩
      by_cases hfits : first.length ≤ wanted - total.length
      · simp only [fill, if_neg hfull, if_neg hfirst, if_pos hfits]
        exact ih (total ++ first)
      · simp only [fill, if_neg hfull, if_neg hfirst, if_neg hfits]
        have hdrop : first.drop (wanted - total.length) ≠ [] := by
          rw [ne_eq, List.drop_eq_nil_iff]
          exact hfits
        exact ⟨_, .chunk hdrop hrest⟩

theorem fill_ne_failed (hbrings : Brings bytes stream) (wanted : ℕ)
    (total : List UInt8) (reason : String) :
    (fill wanted total stream).1 ≠ .failed reason := by
  induction hbrings generalizing total with
  | nil =>
      unfold fill
      split <;> simp
  | interrupted _ ih =>
      by_cases hfull : wanted ≤ total.length
      · simp [fill, hfull]
      · simp only [fill, if_neg hfull]
        exact ih total
  | @chunk _ first _ hfirst _ ih =>
      by_cases hfull : wanted ≤ total.length
      · simp [fill, hfull]
      by_cases hfits : first.length ≤ wanted - total.length
      · simp only [fill, if_neg hfull, if_neg hfirst, if_pos hfits]
        exact ih (total ++ first)
      · simp [fill, hfull, hfirst, hfits]

theorem fill_of_le (hbrings : Brings bytes stream)
    (hle : wanted ≤ bytes.length) :
    ∃ unread, fill wanted [] stream =
        (.complete (bytes.take wanted), unread) ∧
      Brings (bytes.drop wanted) unread := by
  have hbytes := hbrings.delivered_eq
  rw [← hbytes] at hle ⊢
  obtain ⟨hread, hleft⟩ := fill_nil_of_le hle
  rcases hbrings.unread wanted [] with ⟨rest, hrest⟩
  rw [hrest.delivered_eq] at hleft
  exact ⟨_, Prod.ext hread rfl, hleft ▸ hrest⟩

theorem fill_of_lt (hbrings : Brings bytes stream)
    (hlt : bytes.length < wanted) :
    (fill wanted [] stream).1 = .ended bytes := by
  have hbytes := hbrings.delivered_eq
  rw [← hbytes] at hlt
  rcases fill_nil_of_lt hlt with hended | ⟨reason, hfailed⟩
  · rw [hended, hbytes]
  · exact (hbrings.fill_ne_failed wanted [] reason hfailed).elim

end Brings

/-! ## What a reader takes -/

def bytesOf : List Delivery → List UInt8
  | [] => []
  | .chunk bytes :: rest => bytes ++ bytesOf rest
  | .interrupted :: rest => bytesOf rest
  | .failed _ :: rest => bytesOf rest

/-- The stream ends before it has brought a byte. -/
def EndsAtOnce : List Delivery → Prop
  | [] => True
  | .chunk bytes :: _ => bytes = []
  | .interrupted :: rest => EndsAtOnce rest
  | .failed _ :: _ => False

/-- The reader has taken just these bytes from the stream. -/
structure Takes (wanted : ℕ) (total taken : List UInt8)
    (stream unread : List Delivery) (reading : Reading) : Prop where
  consumed : bytesOf stream = taken ++ bytesOf unread
  bounded : total.length + taken.length ≤ wanted
  complete : ∀ bytes, reading = .complete bytes →
    bytes = total ++ taken ∧ bytes.length = wanted
  ended : ∀ bytes, reading = .ended bytes → bytes = total ++ taken

namespace Takes

variable {taken : List UInt8} {unread : List Delivery} {reading : Reading}

theorem of_full (hroom : total.length ≤ wanted)
    (hfull : wanted ≤ total.length) :
    Takes wanted total [] stream stream (.complete total) where
  consumed := rfl
  bounded := by simpa using hroom
  complete := by
    intro bytes heq
    rw [← Reading.complete.inj heq, List.append_nil]
    exact ⟨rfl, Nat.le_antisymm hroom hfull⟩
  ended := by
    intro bytes heq
    contradiction

theorem of_ended (hroom : total.length ≤ wanted)
    (hsame : bytesOf stream = bytesOf unread) :
    Takes wanted total [] stream unread (.ended total) where
  consumed := hsame
  bounded := by simpa using hroom
  complete := by
    intro bytes heq
    contradiction
  ended := by
    intro bytes heq
    rw [← Reading.ended.inj heq, List.append_nil]

theorem of_failed (hroom : total.length ≤ wanted)
    (hsame : bytesOf stream = bytesOf unread) (reason : String) :
    Takes wanted total [] stream unread (.failed reason) where
  consumed := hsame
  bounded := by simpa using hroom
  complete := by
    intro bytes heq
    contradiction
  ended := by
    intro bytes heq
    contradiction

theorem interrupted (htakes : Takes wanted total taken stream unread reading) :
    Takes wanted total taken (.interrupted :: stream) unread reading :=
  ⟨htakes.consumed, htakes.bounded, htakes.complete, htakes.ended⟩

/-- A whole chunk is taken before the rest. -/
theorem chunk (first : List UInt8)
    (htakes : Takes wanted (total ++ first) taken stream unread reading) :
    Takes wanted total (first ++ taken) (.chunk first :: stream) unread
      reading where
  consumed := by rw [bytesOf, htakes.consumed, List.append_assoc]
  bounded := by
    have hbounded := htakes.bounded
    rw [List.length_append] at hbounded ⊢
    omega
  complete := by
    intro bytes heq
    rw [← List.append_assoc]
    exact htakes.complete bytes heq
  ended := by
    intro bytes heq
    rw [← List.append_assoc]
    exact htakes.ended bytes heq

/-- A part of a chunk fills the buffer. -/
theorem part {first : List UInt8} (hroom : total.length ≤ wanted)
    (hlong : ¬first.length ≤ wanted - total.length) :
    Takes wanted total (first.take (wanted - total.length))
      (.chunk first :: stream)
      (.chunk (first.drop (wanted - total.length)) :: stream)
      (.complete (total ++ first.take (wanted - total.length))) := by
  have hlength : (first.take (wanted - total.length)).length =
      wanted - total.length := by
    rw [List.length_take]
    omega
  constructor
  case consumed =>
    rw [bytesOf, bytesOf, ← List.append_assoc, List.take_append_drop]
  case bounded =>
    rw [hlength]
    omega
  case complete =>
    intro bytes heq
    rw [← Reading.complete.inj heq, List.length_append, hlength]
    exact ⟨rfl, by omega⟩
  case ended =>
    intro bytes heq
    contradiction

end Takes

theorem exists_takes (hroom : total.length ≤ wanted) :
    ∃ taken, Takes wanted total taken stream (fill wanted total stream).2
      (fill wanted total stream).1 := by
  induction stream generalizing total with
  | nil =>
      unfold fill
      split
      next hfull => exact ⟨[], .of_full hroom hfull⟩
      next => exact ⟨[], .of_ended hroom rfl⟩
  | cons delivery rest ih =>
      by_cases hfull : wanted ≤ total.length
      · simp only [fill, if_pos hfull]
        exact ⟨[], .of_full hroom hfull⟩
      cases delivery with
      | interrupted =>
          simp only [fill, if_neg hfull]
          rcases ih hroom with ⟨taken, htaken⟩
          exact ⟨taken, htaken.interrupted⟩
      | failed reason =>
          simp only [fill, if_neg hfull]
          exact ⟨[], .of_failed hroom (by rfl) reason⟩
      | chunk bytes =>
          by_cases hempty : bytes = []
          · simp only [fill, if_neg hfull, if_pos hempty]
            exact ⟨[], .of_ended hroom (by rw [hempty]; rfl)⟩
          by_cases hfits : bytes.length ≤ wanted - total.length
          · simp only [fill, if_neg hfull, if_neg hempty, if_pos hfits]
            have hmore : (total ++ bytes).length ≤ wanted := by
              rw [List.length_append]
              omega
            rcases ih hmore with ⟨taken, htaken⟩
            exact ⟨bytes ++ taken, htaken.chunk bytes⟩
          · simp only [fill, if_neg hfull, if_neg hempty, if_neg hfits]
            exact ⟨_, .part hroom hfits⟩

theorem endsAtOnce_of_fill (hwanted : 0 < wanted)
    (hended : (fill wanted [] stream).1 = .ended []) :
    EndsAtOnce stream := by
  have hshort : ¬wanted ≤ ([] : List UInt8).length := Nat.not_le.mpr hwanted
  induction stream with
  | nil => trivial
  | cons delivery rest ih =>
      cases delivery with
      | interrupted =>
          simp only [fill, if_neg hshort] at hended
          exact ih hended
      | failed reason =>
          simp only [fill, if_neg hshort] at hended
          contradiction
      | chunk bytes =>
          by_contra hne
          have hempty : ¬bytes = [] := hne
          simp only [fill, if_neg hshort, if_neg hempty, List.nil_append]
            at hended
          split at hended
          next hfits =>
            rcases @exists_takes wanted bytes rest
              (Nat.le_trans hfits (Nat.sub_le wanted _)) with ⟨taken, htaken⟩
            have hnil := htaken.ended [] hended
            exact hempty (List.append_eq_nil_iff.mp hnil.symm).1
          next => contradiction

end ByteStream
