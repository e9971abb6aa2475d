import NetworkLayers.Net.Frag
import NetworkLayers.Lib.Cells

/-!
# The list of packets under reassembly (net_layer/list/net_list.c)

A node keeps one entry (`packlst_t`) for each packet it holds fragments of, in a list headed by the newest; an entry points to its
fragments, linked cells (`offsetlst_t`) that the entries share one store of. A function that dereferences a null pointer, never
leaves a loop or writes past a buffer returns a `Fault`.
-/

namespace NetworkLayers

open Cells

/-- What goes wrong in a function that does not return. -/
inductive Fault where
  | nullDeref | endlessLoop | outOfBounds
  deriving DecidableEq, Repr

/-- `packlst_t`, an entry: the packet it reassembles, the bytes counted, the size of the packet (0 while unknown) and the first
fragment. -/
structure PackLst where
  id : Nat
  src : Nat
  countSize : Nat
  totalSize : Nat
  offs : Option Nat
  deriving DecidableEq, Repr

/-- The list of entries and the store of their fragments. -/
structure RecvList where
  cells : Store Datagram
  packs : List PackLst
  deriving DecidableEq, Repr

/-- `list = NULL`. -/
def RecvList.empty : RecvList := ⟨[], []⟩

/-- The entry is the one of the packet `(id, src)`. -/
def PackLst.isFor (e : PackLst) (id src : Nat) : Bool := e.id == id && e.src == src

/-- `getid`: the first entry of the packet. -/
def getid (packs : List PackLst) (id src : Nat) : Option PackLst := packs.find? (·.isFor id src)

/-- `removeid`: unlink the first entry of the packet. -/
def removeid (packs : List PackLst) (id src : Nat) : List PackLst := packs.eraseP (·.isFor id src)

/-- Write an entry where the first entry of its packet stands. -/
def setEntry (packs : List PackLst) (e : PackLst) : List PackLst :=
  match packs with
  | [] => []
  | x :: rest => if x.isFor e.id e.src then e :: rest else x :: setEntry rest e

/-- `islastfrag`. -/
def islastfrag (d : Datagram) : Bool := d.more == 0

/-- The test of the loop of `addoffset`, `current_frag + datagram->size == pack_frag`: the new fragment `d` would begin where
`f` would end if it had the size of `d`. -/
def follows (d f : Datagram) : Bool := u64 (f.offset + d.size) == d.offset

/-- `addoffset`: the store afterwards, the first fragment, and whether `d` was linked. Its loop walks to the first fragment that
is the last one or that `d` follows; on the fragment found there:
* at the last one, a new cell is linked behind it unless the offsets agree;
* elsewhere the new cell is written into `aux->next` first, then given `prev->next`, then linked behind `prev`. -/
def addoffset (cells : Store Datagram) (offs : Option Nat) (d : Datagram) :
    Except Fault (Store Datagram × Option Nat × Bool) :=
  match offs with
  | none => .ok (cells ++ [⟨d, none⟩], some cells.length, true)
  | some head =>
    match seek (follows d) cells cells.length none head with
    | none => .error .endlessLoop
    | some (prev, aux) =>
      match cells[aux]? with
      | none => .error .nullDeref
      | some last =>
        if last.next = none then
          if last.val.offset ≠ d.offset then
            .ok (setNext cells aux (some cells.length) ++ [⟨d, none⟩], some head, true)
          else .ok (cells, some head, false)
        else
          -- `prev` is null when the first fragment already ends the walk
          match prev with
          | none => .error .nullDeref
          | some prev =>
            let cells := setNext cells aux (some cells.length)
            match cells[prev]? with
            | none => .error .nullDeref
            | some before => .ok (setNext (cells ++ [⟨d, before.next⟩]) prev (some cells.length), some head, true)

/-- `initpacklst`: the entry of a new packet, `count_size` already the size of its first fragment. -/
def initpacklst (id src size : Nat) : PackLst :=
  { id := id, src := src, countSize := size, totalSize := 0, offs := none }

/-- The size of the packet a last fragment closes. -/
def closedSize (d : Datagram) : Nat := u64 (d.size + d.offset)

/-- `insertoffset`: the list afterwards and whether the packet of `d` is complete. -/
def insertoffset (s : RecvList) (d : Datagram) : Except Fault (RecvList × Bool) :=
  match s.packs with
  | [] => do
    let (cells, offs, _) ← addoffset s.cells none d
    let e := { initpacklst d.id d.src d.size with offs := offs }
    let e := if islastfrag d then { e with totalSize := closedSize d } else e
    .ok (⟨cells, [e]⟩, e.totalSize == e.countSize)
  | _ =>
    match getid s.packs d.id d.src with
    | none => do
      let (cells, offs, _) ← addoffset s.cells none d
      let e := { initpacklst d.id d.src d.size with offs := offs }
      -- `aux`, the result of the search, is null here
      if islastfrag d then .error .nullDeref
      else .ok (⟨cells, e :: s.packs⟩, e.totalSize == e.countSize)
    | some aux => do
      let (cells, offs, added) ← addoffset s.cells aux.offs d
      if added then
        let e := { aux with offs := offs, countSize := u64 (aux.countSize + d.size) }
        let e := if islastfrag d then { e with totalSize := closedSize d } else e
        .ok (⟨cells, setEntry s.packs e⟩, e.totalSize == e.countSize)
      else .ok (⟨cells, s.packs⟩, false)

/-- The loop of `getpack`: copy the fragments one behind the other into a buffer of `total` bytes, `buf` so far. -/
def copyFragments (cells : Store Datagram) (total : Nat) : Nat → List Byte → Option Nat → Except Fault (List Byte)
  | _, buf, none => .ok buf
  | 0, _, some _ => .error .endlessLoop
  | fuel + 1, buf, some a =>
    match cells[a]? with
    | none => .error .nullDeref
    | some c =>
      if c.val.data.length < c.val.size ∨ total < buf.length + c.val.size then .error .outOfBounds
      else copyFragments cells total fuel (buf ++ c.val.data.take c.val.size) c.next

/-- `getpack`: the list afterwards, the buffer (`none` where a byte was never written) and `*size`. Without an entry the source
returns a null buffer and leaves `*size` alone. -/
def getpack (s : RecvList) (id src : Nat) : Except Fault (RecvList × Option (List (Option Byte) × Nat)) :=
  match getid s.packs id src with
  | none => .ok (s, none)
  | some e => do
    let buf ← copyFragments s.cells e.totalSize s.cells.length [] e.offs
    .ok (⟨s.cells, removeid s.packs e.id e.src⟩,
      some (buf.map some ++ List.replicate (e.totalSize - buf.length) none, e.totalSize))

end NetworkLayers
