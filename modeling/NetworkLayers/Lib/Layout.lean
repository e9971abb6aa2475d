import NetworkLayers.Lib.Bytes

/-!
# Numbers at fixed places

A header is written field after field, each in its own number of bytes. A read names the place and the number of bytes, and fails
when the buffer ends before them.
-/

namespace Bytes

/-- `len` bytes of the buffer from the place `off` on, where it holds them. -/
def readAt (buf : List UInt8) (off len : Nat) : Option (List UInt8) :=
  if off + len ≤ buf.length then some ((buf.drop off).take len) else none

theorem readAt_of_le {buf : List UInt8} {off len : Nat} (h : off + len ≤ buf.length) :
    readAt buf off len = some ((buf.drop off).take len) := if_pos h

theorem readAt_eq_none_iff {buf : List UInt8} {off len : Nat} : readAt buf off len = none ↔ buf.length < off + len := by
  unfold readAt
  split <;> simp <;> omega

/-- What stands between two parts of a buffer is read at the length of the first. -/
theorem readAt_middle (a b c : List UInt8) : readAt (a ++ b ++ c) a.length b.length = some b := by
  rw [readAt_of_le (by simp only [List.length_append]; omega), List.append_assoc, List.drop_left, List.take_left]

/-- The bytes of a header: its fields one behind the other, each given by its width and its value. -/
def encode (fields : List (Nat × Nat)) : List UInt8 := fields.flatMap fun f => leBytes f.1 f.2

/-- The bytes that fields take. -/
def widthOf (fields : List (Nat × Nat)) : Nat := (fields.map Prod.fst).sum

/-- Every value fits the bytes of its field. -/
def FieldsFit (fields : List (Nat × Nat)) : Prop := ∀ f ∈ fields, f.2 < 256 ^ f.1

instance (fields : List (Nat × Nat)) : Decidable (FieldsFit fields) :=
  inferInstanceAs (Decidable (∀ f ∈ fields, f.2 < 256 ^ f.1))

@[simp] theorem length_encode (fields : List (Nat × Nat)) : (encode fields).length = widthOf fields := by
  simp [encode, widthOf, List.length_flatMap]

theorem encode_append (fields fields' : List (Nat × Nat)) : encode (fields ++ fields') = encode fields ++ encode fields' :=
  List.flatMap_append

/-- A field is read at the place where the fields before it end, whatever stands behind the header. -/
theorem readAt_field {fields : List (Nat × Nat)} {i off w v : Nat} (hfield : fields[i]? = some (w, v))
    (hoff : widthOf (fields.take i) = off) (rest : List UInt8) : readAt (encode fields ++ rest) off w = some (leBytes w v) := by
  obtain ⟨hi, hget⟩ := List.getElem?_eq_some_iff.1 hfield
  have hsplit : encode fields = encode (fields.take i) ++ leBytes w v ++ encode (fields.drop (i + 1)) := by
    have hcut : fields = fields.take i ++ (w, v) :: fields.drop (i + 1) := by
      rw [← hget, List.getElem_cons_drop, List.take_append_drop]
    conv_lhs => rw [hcut]
    rw [encode_append, List.append_assoc]
    rfl
  have hread := readAt_middle (encode (fields.take i)) (leBytes w v) (encode (fields.drop (i + 1)) ++ rest)
  rw [length_encode, hoff, length_leBytes] at hread
  rw [hsplit, List.append_assoc]
  exact hread

/-- What stands behind a header is read where its fields end. -/
theorem readAt_behind {fields : List (Nat × Nat)} {off : Nat} (hoff : widthOf fields = off) (data rest : List UInt8) :
    readAt (encode fields ++ data ++ rest) off data.length = some data := by
  have hread := readAt_middle (encode fields) data rest
  rwa [length_encode, hoff] at hread

end Bytes
