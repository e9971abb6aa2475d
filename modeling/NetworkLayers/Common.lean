import Mathlib.Algebra.GroupWithZero.Nat
import Mathlib.Data.List.Basic

/-!
# Common definitions

The machine words of the source, as natural numbers cut to the width of the C type they are stored in, the constants of the
headers, and the checksum the link, network and transport layers share.
-/

namespace NetworkLayers

/-- `byte` (common.h): an unsigned char. -/
abbrev Byte := UInt8

/-- What a `uint8_t` keeps of a value. -/
def u8 (n : Nat) : Nat := n % 256

/-- What a `uint16_t` keeps of a value. -/
def u16 (n : Nat) : Nat := n % 65536

/-- What a `uint32_t` keeps of a value. -/
def u32 (n : Nat) : Nat := n % 4294967296

/-- What a `size_t` keeps of a value. -/
def u64 (n : Nat) : Nat := n % 18446744073709551616

/-- The difference of two `size_t`, which wraps below zero. -/
def subSize (a b : Nat) : Nat := u64 (a + (18446744073709551616 - u64 b))

theorem u16_of_lt {n : Nat} (h : n < 65536) : u16 n = n := Nat.mod_eq_of_lt h

theorem u32_of_lt {n : Nat} (h : n < 4294967296) : u32 n = n := Nat.mod_eq_of_lt h

theorem u64_of_lt {n : Nat} (h : n < 18446744073709551616) : u64 n = n := Nat.mod_eq_of_lt h

theorem subSize_of_le {a b : Nat} (ha : a < 18446744073709551616) (h : b ≤ a) : subSize a b = a - b := by
  unfold subSize u64
  omega

/-- `MAX_HOSTS` (config.h). -/
def maxHosts : Nat := 6

/-- `NET_HEADER_SIZE` (net_layer.h): a `size_t`, five `uint16_t` (the checksum among them) and two `uint8_t`. -/
def netHeaderSize : Nat := 20

/-- `TTL` (net_layer.h). -/
def ttlInit : Nat := 6

/-- `INFINITE_ROUTE` (net_layer.h). -/
def infiniteRoute : Nat := 0

/-- `TRANSPORT_HEADER_SIZE` (transport_layer.h): four `uint16_t` (the checksum among them), two `uint32_t` and a `uint8_t`. -/
def transportHeaderSize : Nat := 17

/-- `MAX_SEQ_NUM` (transport_layer.h): 2^32 - 1, written without a suffix and so a 64-bit constant. -/
def maxSeqNum : Nat := 4294967295

/-- `MAX_SEGMENT_SIZE` (transport_layer.h). -/
def maxSegmentSize : Nat := 512

/-! ## The checksum (checksum.c) -/

/-- The loop of `checksum` that adds the data two bytes at a time, the low byte first, and then the byte left over. -/
def sumWords (sum : Nat) : List Byte → Nat
  | a :: b :: rest => sumWords (u32 (sum + (a.toNat + 256 * b.toNat))) rest
  | [a] => u32 (sum + a.toNat)
  | [] => sum

/-- The loop of `checksum` that adds the carries back: while the high half is not zero, the low half plus the high half. -/
def foldCarries (sum : Nat) : Nat :=
  if h : sum / 65536 = 0 then sum else foldCarries (sum % 65536 + sum / 65536)
termination_by sum
decreasing_by omega

/-- `checksum`: the complement of the folded sum of the first `size` bytes. -/
def checksum (data : List Byte) (size : Nat) : Nat :=
  65535 - foldCarries (sumWords 0 (data.take size))

end NetworkLayers
