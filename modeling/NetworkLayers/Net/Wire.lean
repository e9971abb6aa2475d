import NetworkLayers.Lib.Layout
import NetworkLayers.Link.Frame

/-!
# Datagrams in memory (net_layer/net_layer.c)

`buildsenddatagram` writes the fields of a datagram one behind the other, then its data and the checksum of all these.
`buildrecvdatagram` reads a datagram out of the data of a frame, and `internalrecv` compares the checksum in it with the one it
computes. A read beyond the bytes there are is a `Fault`.
-/

namespace NetworkLayers

open Bytes

/-- The number in `len` bytes of a buffer. -/
def numAt (buf : List Byte) (off len : Nat) : Except Fault Nat :=
  match readAt buf off len with
  | some bs => .ok (ofLe bs)
  | none => .error .outOfBounds

/-- `len` bytes of a buffer, copied. -/
def bytesAt (buf : List Byte) (off len : Nat) : Except Fault (List Byte) :=
  match readAt buf off len with
  | some bs => .ok bs
  | none => .error .outOfBounds

/-- `checksum` over the first `size` bytes of a buffer. -/
def checksumOf (buf : List Byte) (size : Nat) : Except Fault Nat :=
  if size ≤ buf.length then .ok (checksum buf size) else .error .outOfBounds

/-- The fields in front of the data, each with its size. -/
def Datagram.header (d : Datagram) : List (Nat × Nat) :=
  [(8, d.size), (2, d.id), (2, d.frag), (1, d.protocol), (1, d.ttl), (2, d.dest), (2, d.src)]

/-- The bytes of a datagram up to the checksum. -/
def Datagram.body (d : Datagram) : List Byte := encode d.header ++ d.data.take d.size

/-- `buildsenddatagram`. -/
def buildsenddatagram (d : Datagram) : List Byte :=
  d.body ++ leBytes checksumSize (checksum d.body (u64 (18 + d.size)))

/-- `buildrecvdatagram`, which has no use for its parameter `size`. Where the data are all there, `count` does not wrap. -/
def buildrecvdatagram (buf : List Byte) : Except Fault Datagram := do
  let size ← numAt buf 0 8
  let id ← numAt buf 8 2
  let frag ← numAt buf 10 2
  let protocol ← numAt buf 12 1
  let ttl ← numAt buf 13 1
  let dest ← numAt buf 14 2
  let src ← numAt buf 16 2
  let data ← bytesAt buf 18 size
  let checksum ← numAt buf (18 + size) checksumSize
  return { size := size, id := id, frag := frag, protocol := protocol, ttl := ttl, dest := dest, src := src, data := data,
           checksum := checksum }

/-- What `internalrecv` makes of the `size` bytes of a frame: the datagram and `rcv_checksum`, which is 0 when it is accepted. -/
def rcvDatagram (buf : List Byte) (size : Nat) : Except Fault (Datagram × Nat) := do
  let recv ← buildrecvdatagram buf
  let sum ← checksumOf buf (subSize size checksumSize)
  return (recv, u16 (sum + (65536 - recv.checksum)))

/-! ## Reads one after the other -/

section

variable {ε α β : Type}

@[simp] theorem ok_bind (a : α) (f : α → Except ε β) : (Except.ok a >>= f) = f a := rfl

@[simp] theorem error_bind (e : ε) (f : α → Except ε β) : (Except.error e >>= f) = Except.error e := rfl

theorem bind_eq_ok_iff {x : Except ε α} {f : α → Except ε β} {b : β} :
    (x >>= f) = .ok b ↔ ∃ a, x = .ok a ∧ f a = .ok b := by
  cases x <;> simp

end

/-! ## What is read -/

theorem numAt_of_le {buf : List Byte} {off len : Nat} (h : off + len ≤ buf.length) :
    numAt buf off len = .ok (ofLe ((buf.drop off).take len)) := by
  rw [numAt, readAt_of_le h]

theorem bytesAt_of_le {buf : List Byte} {off len : Nat} (h : off + len ≤ buf.length) :
    bytesAt buf off len = .ok ((buf.drop off).take len) := by
  rw [bytesAt, readAt_of_le h]

theorem numAt_of_lt {buf : List Byte} {off len : Nat} (h : buf.length < off + len) : numAt buf off len = .error .outOfBounds := by
  rw [numAt, readAt_eq_none_iff.2 h]

/-- A field that fits its bytes is read as it was written. -/
theorem numAt_field {fields : List (Nat × Nat)} {i off w v : Nat} (hfit : FieldsFit fields) (hfield : fields[i]? = some (w, v))
    (hoff : widthOf (fields.take i) = off) (rest : List Byte) : numAt (encode fields ++ rest) off w = .ok v := by
  rw [numAt, readAt_field hfield hoff rest]
  exact congrArg _ (ofLe_leBytes_of_lt (hfit _ (List.mem_of_getElem? hfield)))

/-- The data behind a header are read as they were written. -/
theorem bytesAt_behind {fields : List (Nat × Nat)} {off : Nat} (hoff : widthOf fields = off) (data rest : List Byte) :
    bytesAt (encode fields ++ data ++ rest) off data.length = .ok data := by
  rw [bytesAt, readAt_behind hoff data rest]

/-- The checksum behind the bytes it was computed over is read back, and is what the same bytes give again. -/
theorem checksum_behind (body : List Byte) :
    numAt (body ++ leBytes checksumSize (checksum body body.length)) body.length checksumSize =
        .ok (checksum body body.length) ∧
      checksumOf (body ++ leBytes checksumSize (checksum body body.length)) body.length =
        .ok (checksum body body.length) := by
  constructor
  · have hread := readAt_middle body (leBytes checksumSize (checksum body body.length)) []
    rw [List.append_nil, length_leBytes] at hread
    rw [numAt, hread]
    exact congrArg _ (ofLe_leBytes_of_lt (Nat.lt_of_lt_of_eq (by unfold checksum; omega) (by decide : 65536 = 256 ^ checksumSize)))
  · rw [checksumOf, if_pos (by simp), checksum, checksum, List.take_left, List.take_length]

/-- A checksum less itself is 0. -/
theorem u16_sub_self {c : Nat} (h : c < 65536) : u16 (c + (65536 - c)) = 0 := by
  unfold u16
  omega

end NetworkLayers
