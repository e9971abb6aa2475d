import NetworkLayers.Common

/-!
# Segments and the two lists of a service point (ack_lst.c, seg_lst.c)

The acknowledgements a service point waits for, and the segments it has received: `segs`, in order, and `segs_aux`, out of order.
-/

namespace NetworkLayers

/-- `flags` of a segment. -/
inductive Flags where
  | dados
  | sync
  | syncAck
  | ack
  | fin
  deriving DecidableEq, Repr

/-- `segment_t`. The source leaves `ack_num` unset where it is not an answer, and `seq_num` where it is an ACK; there it is 0. -/
structure Segment where
  src : Nat
  dest : Nat
  seqNum : Nat
  ackNum : Nat
  flags : Flags
  windowSize : Nat
  data : List Byte
  deriving DecidableEq, Repr

/-! ## The acknowledgements (ack_lst.c) -/

/-- `ack_lst_t`, an entry of the list: the number the ACK will carry, whether it came, and the bytes it stands for. -/
structure AckLst where
  seqNum : Nat
  flag : Bool
  size : Nat
  deriving DecidableEq, Repr

/-- `insert_ack`: at the end of the list. -/
def insertAck (lista : List AckLst) (novo : AckLst) : List AckLst := lista ++ [novo]

/-- `set_ack`: sets the first entry with the number. -/
def setAck : List AckLst → Nat → List AckLst
  | [], _ => []
  | a :: list, num => if a.seqNum = num then { a with flag := true } :: list else a :: setAck list num

/-- `is_set`: the flag of the first entry with the number, and 1 when there is none. -/
def isSet : List AckLst → Nat → Bool
  | [], _ => true
  | a :: list, num => if a.seqNum = num then a.flag else isSet list num

/-- `in_seq`: takes the entries that are set off the front of the list, and returns the bytes they stand for. -/
def inSeq : List AckLst → Nat × List AckLst
  | [] => (0, [])
  | a :: list => if a.flag then (a.size + (inSeq list).1, (inSeq list).2) else (0, a :: list)

/-! ## The received segments (seg_lst.c) -/

/-- `seglst_t`, an entry of `segs` or `segs_aux`. -/
structure SegLst where
  segm : Segment
  size : Nat
  deriving DecidableEq, Repr

/-- `is_next`: the first entry with the sequence number, and the list without it. -/
def isNext : List SegLst → Nat → Option (SegLst × List SegLst)
  | [], _ => none
  | e :: lista, base =>
    if e.segm.seqNum = base then some (e, lista) else (isNext lista base).map fun r => (r.1, e :: r.2)

/-- `insert_seg_lst`: at the end of the list, unless an entry has the sequence number already. Then the new segment is freed, and the
caller reads it all the same (`ServicePoint.dadosAck`). -/
def insertSegLst (lst : List SegLst) (seg : Segment) (size : Nat) : List SegLst :=
  if lst.any (fun e => e.segm.seqNum = seg.seqNum) then lst else lst ++ [{ segm := seg, size := size }]

/-- The loop of `insert_seg` that moves entries of `segs_aux` to the end of `segs` as long as `is_next` finds one at `count`: the
entries moved, the rest of `segs_aux` and `ret`. Each round takes an entry, so the length of `segs_aux` bounds the rounds. -/
def moveNext : Nat → List SegLst → Nat → Nat → List SegLst × List SegLst × Nat
  | 0, lstAux, _, ret => ([], lstAux, ret)
  | rounds + 1, lstAux, count, ret =>
    match isNext lstAux count with
    | none => ([], lstAux, ret)
    | some (e, rest) =>
      let r := moveNext rounds rest ((count + e.size) % maxSeqNum) (u32 (ret + e.size))
      (e :: r.1, r.2)

/-- `insert_seg`: a segment at `base` goes to `segs`, and what follows it in `segs_aux` after it; another one goes to `segs_aux`.
Returns both lists and the bytes added to `segs`. -/
def insertSeg (lst lstAux : List SegLst) (seg : Segment) (size base : Nat) : List SegLst × List SegLst × Nat :=
  if seg.seqNum = base then
    let r := moveNext lstAux.length lstAux ((base + size) % maxSeqNum) (u32 size)
    (lst ++ { segm := seg, size := size } :: r.1, r.2)
  else (lst, insertSegLst lstAux seg size, 0)

/-- `recv_seg`: takes at most `size` bytes off the front of the list. Returns the list that is left and the bytes. -/
def recvSeg : List SegLst → Nat → List SegLst × List Byte
  | [], _ => ([], [])
  | e :: list, size =>
    if size = 0 then (e :: list, [])
    else if e.size ≤ size then
      ((recvSeg list (size - e.size)).1, e.segm.data.take e.size ++ (recvSeg list (size - e.size)).2)
    else
      ({ segm := { e.segm with data := e.segm.data.drop size }, size := e.size - size } :: list, e.segm.data.take size)

/-- The bytes a list of received segments holds. -/
def segBytes (lst : List SegLst) : List Byte := lst.flatMap fun e => e.segm.data.take e.size

end NetworkLayers
