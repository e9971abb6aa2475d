import NetworkLayers.Lib.Framing
import NetworkLayers.Transport.Session

/-!
# File transfer (application_layer.c)

`download` on one side of a connection and `upload` on the other, with the loops of `send_ips` and `recv_ips` under them. The
connection is a stream of bytes in each direction: a call of `send_point` takes any number of the bytes it is given, a call of
`recv_point` returns any number of those it is asked for and that are there. A step is one such call, and what the program does after
it up to the next one.
-/

namespace NetworkLayers

open Bytes Framing

/-- `MAX_BUF_LENGTH` (application_layer.h). -/
def maxBufLength : Nat := 1024

/-- `sizeof(int)`, and of `uint32_t`. -/
def intSize : Nat := 4

/-- The `int` in a word of 32 bits. -/
def toInt (n : Nat) : Int := if u32 n < 2147483648 then u32 n else (u32 n : Int) - 4294967296

/-- `char recvbuf[MAX_BUF_LENGTH]`. -/
structure Buffer where
  bytes : List Byte
  length_eq : bytes.length = maxBufLength

/-- What is written at a place of the buffer; `none` is an access beyond it. -/
def Buffer.write (b : Buffer) (pos : Nat) (bs : List Byte) : Option Buffer :=
  if h : pos + bs.length ≤ maxBufLength then
    some ⟨b.bytes.take pos ++ bs ++ b.bytes.drop (pos + bs.length), by
      have hlen := b.length_eq
      simp only [List.length_append, List.length_take, List.length_drop, hlen]
      omega⟩
  else none

/-- What stands at a place of the buffer. -/
def Buffer.read (b : Buffer) (pos n : Nat) : List Byte := (b.bytes.drop pos).take n

/-- The loops of `recv_ips`: `recvbufbptr - *buf`, `buflen`, and whether the first loop, for the length, is over. -/
structure RecvIps where
  ptr : Nat
  buflen : Nat
  tail : Bool
  deriving DecidableEq, Repr

/-- `recv_ips` at its first call of `recv_point`. -/
def RecvIps.start : RecvIps := { ptr := 0, buflen := intSize, tail := false }

/-- What a program waits for: the rest of a `send_ips`, a `recv_ips`, nothing more, or it has gone beyond a buffer. -/
inductive Call where
  | sendIps (rest : List Byte)
  | recvIps (r : RecvIps)
  | returned
  | fault
  deriving DecidableEq, Repr

/-- How many bytes the next call of `send_point` or `recv_point` is given or asks for. -/
def Call.size : Call → Nat
  | .sendIps rest => rest.length
  | .recvIps r => r.buflen
  | .returned | .fault => 0

/-! ## download -/

/-- Where `download` is: sending the request, waiting for the size, in the loop with `file_size` bytes to come, at the end. -/
inductive DownloadPc where
  | request
  | size
  | receiving (fileSize : Int)
  | done
  deriving DecidableEq, Repr

/-- The variables of `download`: whether `fopen` can create the file, and what has been written to it once it has. -/
structure Download where
  pc : DownloadPc
  canCreate : Bool
  file : Option (List Byte)
  deriving DecidableEq, Repr

/-- The request `download` sends: the length, the command 2 and the file name with its terminator. -/
def requestMessage (fileName : List Byte) : List Byte := frame intSize (2 :: fileName ++ [0])

/-- The head of the loop of `download`. -/
def Download.loop (d : Download) (fileSize : Int) (file : List Byte) : Call × Download :=
  if 0 < fileSize then (.recvIps .start, { d with pc := .receiving fileSize, file := some file })
  else (.returned, { d with pc := .done, file := some file })

/-- What `download` does after a `send_ips` or a `recv_ips`. -/
def Download.resume (d : Download) (recvbuf : Buffer) : Call × Download :=
  match d.pc with
  | .request => (.recvIps .start, { d with pc := .size })
  | .size =>
    let fileSize := toInt (ofLe (recvbuf.read intSize intSize))
    if fileSize = 0 ∨ !d.canCreate then (.returned, { d with pc := .done })
    else d.loop fileSize []
  | .receiving fileSize =>
    let buflen := toInt (ofLe (recvbuf.read 0 intSize)) - intSize
    if buflen < 0 ∨ maxBufLength < intSize + buflen then (.fault, d)
    else d.loop (fileSize - buflen) (d.file.getD [] ++ recvbuf.read intSize buflen.toNat)
  | .done => (.returned, d)

/-! ## upload -/

/-- Where `upload` is: waiting for the request, sending the size, in the loop with `file_size` bytes to send, at the end. -/
inductive UploadPc where
  | request
  | size (fileSize : Int)
  | sending (fileSize : Int)
  | done
  deriving DecidableEq, Repr

/-- The variables of `upload`: the files there are, and what is left of the one that is open. -/
structure Upload where
  pc : UploadPc
  files : List Byte → Option (List Byte)
  file : Option (List Byte)

/-- `char file_name[50]`. -/
def fileNameSize : Nat := 50

/-- The string in a field, if it ends there. -/
def cString (field : List Byte) : Option (List Byte) :=
  if (0 : Byte) ∈ field then some (field.takeWhile (· ≠ 0)) else none

/-- The message with the size of the file. -/
def sizeMessage (fileSize : Nat) : List Byte := frame intSize (leBytes intSize fileSize)

/-- The bytes of a file `upload` puts in one message. -/
def chunkSize : Nat := maxBufLength - intSize

/-- The head of the loop of `upload`: `fread` of the next bytes, and the message with them. -/
def Upload.loop (u : Upload) (fileSize : Int) (left : List Byte) : Call × Upload :=
  if 0 < fileSize then
    let chunk := left.take chunkSize
    (.sendIps (frame intSize chunk), { u with pc := .sending (fileSize - chunk.length), file := some (left.drop chunkSize) })
  else (.returned, { u with pc := .done })

/-- What `upload` does after a `send_ips` or a `recv_ips`. A request with no room for a name, with more than `file_name` holds, or
whose name does not end in it goes beyond the buffer. -/
def Upload.resume (u : Upload) (recvbuf : Buffer) : Call × Upload :=
  match u.pc with
  | .request =>
    let buflen := toInt (ofLe (recvbuf.read 0 intSize))
    if buflen < intSize + 1 ∨ intSize + 1 + fileNameSize < buflen then (.fault, u)
    else
      match cString (recvbuf.read (intSize + 1) (buflen - (intSize + 1)).toNat) with
      | none => (.fault, u)
      | some fileName =>
        let fileSize := ((u.files fileName).map List.length).getD 0
        (.sendIps (sizeMessage fileSize), { u with pc := .size (toInt fileSize), file := u.files fileName })
  | .size fileSize =>
    match u.file with
    | none => (.returned, { u with pc := .done })
    | some left => u.loop fileSize left
  | .sending fileSize => u.loop fileSize (u.file.getD [])
  | .done => (.returned, u)

/-! ## The two sides -/

/-- The program of a side. -/
inductive Program where
  | download (d : Download)
  | upload (u : Upload)

/-- What the program of a side does next. -/
def Program.resume (recvbuf : Buffer) : Program → Call × Program
  | .download d => ((d.resume recvbuf).1, .download (d.resume recvbuf).2)
  | .upload u => ((u.resume recvbuf).1, .upload (u.resume recvbuf).2)

/-- A side: the call it is in, `recvbuf` and its program. What properties speak about and the code does not store: the messages it
has called `send_ips` with, and those `recv_ips` has left in `recvbuf`. -/
structure Peer where
  call : Call
  recvbuf : Buffer
  program : Program
  sent : List (List Byte)
  read : List (List Byte)

/-- The messages a call sends. -/
def Call.messages : Call → List (List Byte)
  | .sendIps m => [m]
  | .recvIps _ | .returned | .fault => []

/-- A side after the return of `send_ips` or `recv_ips`. -/
def Peer.resume (p : Peer) : Peer :=
  let r := p.program.resume p.recvbuf
  { p with call := r.1, program := r.2, sent := p.sent ++ r.1.messages }

/-- `send_ips` when `send_point` has taken `n` of the bytes that were left. -/
def Peer.sendIps (p : Peer) (rest : List Byte) (n : Nat) : Peer :=
  if rest.length = n then p.resume else { p with call := .sendIps (rest.drop n) }

/-- `recv_ips` when `recv_point` has returned some bytes: in the first loop, the rest of the message once its length is there. -/
def Peer.recvIps (p : Peer) (r : RecvIps) (bs : List Byte) : Peer :=
  match p.recvbuf.write r.ptr bs with
  | none => { p with call := .fault }
  | some recvbuf =>
    let ptr := r.ptr + bs.length
    let buflen := r.buflen - bs.length
    if buflen ≠ 0 then { p with recvbuf := recvbuf, call := .recvIps { r with ptr := ptr, buflen := buflen } }
    else if r.tail then { p with recvbuf := recvbuf, read := p.read ++ [recvbuf.read 0 ptr] }.resume
    else
      let buflen := u32 (ofLe (recvbuf.read 0 intSize) + (4294967296 - intSize))
      { p with recvbuf := recvbuf, call := .recvIps { ptr := ptr, buflen := buflen, tail := true } }

/-- The two sides, and the bytes on their way to each of them. -/
structure Transfer where
  peer : Side → Peer
  stream : Side → List Byte

/-- The next call of `send_point` or `recv_point` at a side, which takes or returns `n` bytes. -/
def Transfer.step (s : Transfer) (m : Side × Nat) : Option Transfer :=
  match (s.peer m.1).call with
  | .sendIps rest =>
    if m.2 ≤ rest.length then
      some { peer := Function.update s.peer m.1 ((s.peer m.1).sendIps rest m.2)
             stream := Function.update s.stream m.1.other (s.stream m.1.other ++ rest.take m.2) }
    else none
  | .recvIps r =>
    if m.2 ≤ r.buflen ∧ m.2 ≤ (s.stream m.1).length then
      some { peer := Function.update s.peer m.1 ((s.peer m.1).recvIps r ((s.stream m.1).take m.2))
             stream := Function.update s.stream m.1 ((s.stream m.1).drop m.2) }
    else none
  | .returned | .fault => none

/-- `download` at its first call, with the file name it was given. -/
def Download.start (fileName : List Byte) (canCreate : Bool) (recvbuf : Buffer) : Peer where
  call := .sendIps (requestMessage fileName)
  recvbuf := recvbuf
  program := .download { pc := .request, canCreate := canCreate, file := none }
  sent := [requestMessage fileName]
  read := []

/-- `upload` at its first call. -/
def Upload.start (files : List Byte → Option (List Byte)) (recvbuf : Buffer) : Peer where
  call := .recvIps .start
  recvbuf := recvbuf
  program := .upload { pc := .request, files := files, file := none }
  sent := []
  read := []

/-- `download` on one side and `upload` on the other, each with a `recvbuf` that holds anything. -/
def Transfer.start (fileName : List Byte) (canCreate : Bool) (files : List Byte → Option (List Byte)) (buf : Side → Buffer) :
    Transfer where
  peer
    | .a => Download.start fileName canCreate (buf .a)
    | .b => Upload.start files (buf .b)
  stream := fun _ => []

end NetworkLayers
