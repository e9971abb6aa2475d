import NetworkLayers.Lib.Bytes

/-!
# Messages on a stream of bytes

Messages that begin with their own length, one behind the other on a stream that keeps the bytes in order. The stream has taken some
of the bytes of the messages sent, and the reader has taken some of those; how many each time is not known.
-/

namespace Framing

open Bytes

variable {α : Type*}

/-- A message of `k` bytes that hold its length, and a body. -/
def frame (k : Nat) (body : List UInt8) : List UInt8 := leBytes k (k + body.length) ++ body

@[simp] theorem length_frame (k : Nat) (body : List UInt8) : (frame k body).length = k + body.length := by
  simp [frame]

/-- The body of a message is what follows the length. -/
theorem drop_frame (k : Nat) (body : List UInt8) : (frame k body).drop k = body := by
  rw [frame, List.drop_append_of_le_length (by simp), List.drop_of_length_le (by simp), List.nil_append]

/-- A message of at least `k` bytes that begins with its length. -/
structure Framed (k : Nat) (m : List UInt8) : Prop where
  header_le : k ≤ m.length
  header : ofLe (m.take k) = m.length

theorem framed_frame {k : Nat} {body : List UInt8} (h : k + body.length < 256 ^ k) : Framed k (frame k body) where
  header_le := by simp
  header := by
    have htake : (frame k body).take k = leBytes k (k + body.length) := by
      rw [frame, List.take_append_of_le_length (by simp), List.take_of_length_le (by simp)]
    rw [htake, ofLe_leBytes_of_lt h, length_frame]

/-- The messages sent, the bytes of the last one that the stream has not taken, the bytes on the stream, the bytes of the next
message that the reader has, and the messages it has read. -/
structure Carried (sent : List (List α)) (rest wire part : List α) (read : List (List α)) : Prop where
  bytes : read.flatten ++ part ++ wire ++ rest = sent.flatten
  read_prefix : read <+: sent

namespace Carried

variable {sent read : List (List α)} {rest wire part m : List α}

/-- Nothing has been sent. -/
theorem nil : Carried ([] : List (List α)) [] [] [] [] := ⟨rfl, List.prefix_refl _⟩

/-- A message is sent. -/
theorem send (h : Carried sent [] wire part read) (m : List α) : Carried (sent ++ [m]) m wire part read where
  bytes := by
    rw [List.flatten_append, ← h.bytes]
    simp
  read_prefix := h.read_prefix.trans (List.prefix_append _ _)

/-- The stream takes bytes. -/
theorem accept (h : Carried sent rest wire part read) (n : Nat) :
    Carried sent (rest.drop n) (wire ++ rest.take n) part read where
  bytes := by
    rw [← h.bytes]
    simp
  read_prefix := h.read_prefix

/-- The reader takes bytes. -/
theorem take (h : Carried sent rest wire part read) (n : Nat) :
    Carried sent rest (wire.drop n) (part ++ wire.take n) read where
  bytes := by
    rw [← h.bytes, ← List.append_assoc read.flatten part, List.append_assoc (read.flatten ++ part), List.take_append_drop]
  read_prefix := h.read_prefix

/-- What the reader has and what is on the stream begin the next message. -/
theorem next_prefix {later : List (List α)} (h : Carried sent rest wire part read) (hsent : sent = read ++ m :: later) {n : Nat}
    (hlen : (part ++ wire.take n).length ≤ m.length) : part ++ wire.take n <+: m := by
  have hbytes := h.bytes
  rw [hsent, List.flatten_append, List.append_assoc, List.append_assoc, List.append_cancel_left_eq, List.flatten_cons] at hbytes
  have hall : part ++ wire.take n <+: m ++ later.flatten := by
    rw [← hbytes, ← List.append_assoc]
    exact (List.prefix_append_right_inj part |>.2 (List.take_prefix n wire)).trans (List.prefix_append _ _)
  exact List.prefix_of_prefix_length_le hall (List.prefix_append m _) hlen

/-- Bytes the reader can have belong to a message it has not read. -/
theorem exists_next (h : Carried sent rest wire part read) (hne : part ++ wire ++ rest ≠ []) :
    ∃ m later, sent = read ++ m :: later := by
  obtain ⟨later, hlater⟩ := h.read_prefix
  cases later with
  | nil =>
    have hbytes := h.bytes
    rw [← hlater, List.append_nil, List.append_assoc, List.append_assoc] at hbytes
    rw [List.append_assoc] at hne
    exact absurd (List.self_eq_append_right.1 hbytes.symm) hne
  | cons m later => exact ⟨m, later, hlater.symm⟩

/-- The reader has the whole of the next message. -/
theorem read_next {later : List (List α)} (h : Carried sent rest wire part read) (hsent : sent = read ++ part :: later) :
    Carried sent rest wire [] (read ++ [part]) where
  bytes := by
    rw [← h.bytes]
    simp
  read_prefix := by
    rw [hsent]
    exact ⟨later, by simp⟩

/-- When the stream has taken all and is empty, the reader has the rest of what was sent. -/
theorem length_part {later : List (List α)} (h : Carried sent [] [] part read) (hsent : sent = read ++ m :: later) :
    m.length ≤ part.length := by
  have hbytes := h.bytes
  rw [hsent, List.flatten_append, List.append_assoc, List.append_assoc, List.append_cancel_left_eq, List.flatten_cons] at hbytes
  simp only [List.append_nil] at hbytes
  rw [hbytes]
  simp

end Carried

end Framing
