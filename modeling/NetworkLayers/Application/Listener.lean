import NetworkLayers.Application.Transfer
import NetworkLayers.Lib.Transition

/-!
# One side of a transfer (application_layer.c)

`download` or `upload` alone, and the bytes that come to it, which may be any. A step is a call of `send_point` or `recv_point`, with the
number of bytes it takes or returns. What each step does to a place or a count that has a bound is listed besides.
-/

namespace NetworkLayers

open Transition Bytes

/-- A side, and the bytes that come to it from here on. -/
structure Listener where
  peer : Peer
  stream : List Byte

/-- The next call of `send_point` or `recv_point`, which takes or returns `n` bytes. -/
def Listener.step (x : Listener) (n : Nat) : Option Listener :=
  match x.peer.call with
  | .sendIps rest => if n ≤ rest.length then some { x with peer := x.peer.sendIps rest n } else none
  | .recvIps r =>
    if n ≤ r.buflen ∧ n ≤ x.stream.length then
      some { peer := x.peer.recvIps r (x.stream.take n), stream := x.stream.drop n }
    else none
  | .returned | .fault => none

/-- A `send_ips` or a `recv_ips` begins. -/
def Listener.Begins (x : Listener) : Prop := (∃ data, x.peer.call = .sendIps data) ∨ x.peer.call = .recvIps .start

/-! ## Places and counts with a bound -/

/-- `recv_point` writes bytes at a place of `recvbuf`, `recv_ips` subtracts from a length, `upload` copies bytes to `file_name`, and
`download` takes off `file_size` what is to be written to the file. -/
inductive Effect where
  | write (pos n : Nat)
  | subtract (buflen n : Nat)
  | copy (n : Nat)
  | count (buflen : Int) (written : Nat)
  deriving DecidableEq, Repr

/-- The bytes are within the buffer, the subtraction does not wrap, the name has room, and what is taken off the count is written. -/
def Effect.Bounded : Effect → Prop
  | .write pos n => pos + n ≤ maxBufLength
  | .subtract buflen n => n ≤ buflen
  | .copy n => n ≤ fileNameSize
  | .count buflen written => buflen = written

instance : ∀ e : Effect, Decidable e.Bounded
  | .write pos n => inferInstanceAs (Decidable (pos + n ≤ maxBufLength))
  | .subtract buflen n => inferInstanceAs (Decidable (n ≤ buflen))
  | .copy n => inferInstanceAs (Decidable (n ≤ fileNameSize))
  | .count buflen written => inferInstanceAs (Decidable (buflen = written))

section

variable (fwrite : List Byte → List Byte → Nat)

/-- What a program does with the message in `recvbuf`: the size of `upload`'s copy is a `size_t`. Of the bytes it is given after those
it was given before, `fwrite` writes as many as it can. -/
def Program.effects (recvbuf : Buffer) : Program → List Effect
  | .upload u =>
    match u.pc with
    | .request => [.copy ((toInt (ofLe (recvbuf.read 0 intSize)) - (intSize + 1 : Nat)) % 18446744073709551616).toNat]
    | _ => []
  | .download d =>
    match d.pc with
    | .receiving _ =>
      let buflen := toInt (ofLe (recvbuf.read 0 intSize)) - intSize
      let chunk := recvbuf.read intSize buflen.toNat
      [.count buflen (min (fwrite (d.file.getD []) chunk) chunk.length)]
    | _ => []

/-- What `recv_ips` and the program after it do when `recv_point` returns bytes. -/
def Peer.effects (p : Peer) (r : RecvIps) (bs : List Byte) : List Effect :=
  .write r.ptr bs.length ::
    match p.recvbuf.write r.ptr bs with
    | none => []
    | some recvbuf =>
      if r.buflen - bs.length ≠ 0 then []
      else if r.tail then p.program.effects fwrite recvbuf
      else [.subtract (ofLe (recvbuf.read 0 intSize)) intSize]

/-- What a step does. -/
def Listener.effects (x : Listener) (n : Nat) : List Effect :=
  match x.peer.call with
  | .recvIps r => x.peer.effects fwrite r (x.stream.take n)
  | _ => []

/-- Whatever the calls take and return, every step keeps to its bounds. -/
def Listener.Bounded (x : Listener) : Prop :=
  ∀ y, Reach Listener.step anyStep x y → ∀ n z, y.step n = some z → ∀ e ∈ y.effects fwrite n, e.Bounded

end

/-! ## The bytes that come -/

/-- The length that bytes begin with. -/
def lengthField (s : List Byte) : Nat := ofLe (s.take intSize)

/-- The length, once it is there, is its own at least, and all of the message or all that comes of it has room in `recvbuf`. -/
def FitsBuffer (s : List Byte) : Prop :=
  intSize ≤ s.length → intSize ≤ lengthField s ∧ (lengthField s ≤ maxBufLength ∨ s.length ≤ maxBufLength)

/-- The whole message comes. -/
def Arrives (s : List Byte) : Prop := intSize ≤ s.length ∧ lengthField s ≤ s.length

instance (s : List Byte) : Decidable (FitsBuffer s) := inferInstanceAs (Decidable (_ → _))

instance (s : List Byte) : Decidable (Arrives s) := inferInstanceAs (Decidable (_ ∧ _))

/-- The message is one for the program: a request is a command and a name that has room, and of a piece of the file all can be
written. -/
def Program.Takes (fwrite : List Byte → List Byte → Nat) (m : List Byte) : Program → Prop
  | .upload u => u.pc = .request → intSize + 1 ≤ m.length ∧ m.length ≤ intSize + 1 + fileNameSize
  | .download d =>
    match d.pc with
    | .receiving _ => (m.drop intSize).length ≤ fwrite (d.file.getD []) (m.drop intSize)
    | _ => True

/-- The condition where a `recv_ips` begins, on the bytes that come from there on. -/
def Listener.Framed (fwrite : List Byte → List Byte → Nat) (x : Listener) : Prop :=
  FitsBuffer x.stream ∧ (Arrives x.stream → x.peer.program.Takes fwrite (x.stream.take (lengthField x.stream)))

/-! ## The point that is sent to and received from -/

/-- The service point at a call: `flag_con` if it is allocated, whether `ALLOC` finds memory for the copy, and how many bytes
`recv_seg` finds. -/
structure PointState where
  flagCon : Option FlagCon
  alloc : Bool
  segs : Nat
  deriving DecidableEq, Repr

/-- What `send_point` returns. -/
def PointState.sendPoint (c : PointState) (size : Nat) : Nat :=
  if c.flagCon = some .comConexao ∧ c.alloc = true then min size maxSendSize else 0

/-- What `recv_point` returns, which does not look at `flag_con`. -/
def PointState.recvPoint (c : PointState) (size : Nat) : Nat := if c.flagCon.isSome then min size c.segs else 0

/-- Both return 0, the one because the point is not allocated or not connected, the other because it is not allocated or, not being
connected, has nothing more. -/
def PointState.Silent (c : PointState) : Prop := c.flagCon ≠ some .comConexao ∧ (c.flagCon = none ∨ c.segs = 0)

/-- What the call a side makes next returns. -/
def Listener.answer (x : Listener) (c : PointState) : Nat :=
  match x.peer.call with
  | .sendIps rest => c.sendPoint rest.length
  | .recvIps r => min (c.recvPoint r.buflen) x.stream.length
  | .returned | .fault => 0

/-- The side after as many calls, with the point as it is at each of them. -/
def Listener.run (x : Listener) (conn : Nat → PointState) : Nat → Listener
  | 0 => x
  | t + 1 => ((x.run conn t).step ((x.run conn t).answer (conn t))).getD (x.run conn t)

/-- The `send_ips` or `recv_ips` returns when the call it makes returns `n`. -/
def Call.Returns (n : Nat) : Call → Prop
  | .sendIps rest => rest.length = n
  | .recvIps r => r.tail = true ∧ r.buflen = n
  | .returned | .fault => False

/-- It has nothing left to send or to receive. -/
def Call.NothingLeft : Call → Prop
  | .sendIps rest => rest = []
  | .recvIps r => r.tail = true ∧ r.buflen = 0
  | .returned | .fault => False

/-- The program has returned, or has nothing left in its call and returns after it. -/
def Peer.NothingLeft (p : Peer) : Prop := p.call = .returned ∨ (p.call.NothingLeft ∧ p.resume.call = .returned)

end NetworkLayers
