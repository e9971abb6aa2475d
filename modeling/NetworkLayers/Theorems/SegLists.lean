import NetworkLayers.Lemmas.Lists
import NetworkLayers.Lib.Reorder
import NetworkLayers.Lib.Transition
import Mathlib.Data.List.Forall2
import Mathlib.Data.Nat.ModEq

/-!
# The two lists of received segments

`recv_seg` reads the list of received segments as a stream of bytes, whatever the sizes of the reads and of the segments, and
`insert_seg` keeps in it the longest start of the stream that the segments received so far make up.
-/

namespace NetworkLayers

open Transition

/-! ## recv_seg -/

/-- `recv_size` after the loop of `recv_seg`: what it still wanted when the list was empty. -/
def recvSizeAfter : List SegLst → Nat → Nat
  | [], recvSize => recvSize
  | e :: list, recvSize =>
    if recvSize = 0 then 0 else if e.size ≤ recvSize then recvSizeAfter list (recvSize - e.size) else 0

/-- What `recv_seg` returns. -/
def recvSegRet (list : List SegLst) (size : Nat) : Nat := size - recvSizeAfter list size

/-- The data of an entry has the bytes its size says. -/
def SegLst.Sized (e : SegLst) : Prop := e.size ≤ e.segm.data.length

instance (e : SegLst) : Decidable e.Sized := inferInstanceAs (Decidable (_ ≤ _))

/-- A read of the list, or a segment that is put behind it. -/
inductive ReadAction where
  | recvSeg (size : Nat)
  | append (e : SegLst)
  deriving DecidableEq, Repr

/-- The list after reads and appends, and the buffers that the reads returned. -/
def readRun : List SegLst → List ReadAction → List SegLst × List (List Byte)
  | lst, [] => (lst, [])
  | lst, .append e :: acts => readRun (lst ++ [e]) acts
  | lst, .recvSeg size :: acts => ((readRun (recvSeg lst size).1 acts).1, (recvSeg lst size).2 :: (readRun (recvSeg lst size).1 acts).2)

/-- The segments that are appended. -/
def appended : List ReadAction → List SegLst
  | [] => []
  | .append e :: acts => e :: appended acts
  | .recvSeg _ :: acts => appended acts

/-- The sizes of the reads. -/
def readSizes : List ReadAction → List Nat
  | [] => []
  | .append _ :: acts => readSizes acts
  | .recvSeg size :: acts => size :: readSizes acts

/-- The reads return the bytes of the list in order, each as many as it asks for or as are left. -/
structure ExactReads (lst : List SegLst) (acts : List ReadAction) : Prop where
  /-- What was returned and what is left is all there was. -/
  total : (readRun lst acts).2.flatten ++ segBytes (readRun lst acts).1 = segBytes (lst ++ appended acts)
  /-- Every read, with the list `now` as it finds it. -/
  each : ∀ before size after now, acts = before ++ .recvSeg size :: after → now = (readRun lst before).1 →
    (recvSeg now size).2 = (segBytes now).take (min size (segBytes now).length) ∧
      segBytes (recvSeg now size).1 = (segBytes now).drop (min size (segBytes now).length) ∧
      recvSegRet now size = min size (segBytes now).length
  /-- Reads alone return the first bytes. -/
  reads : appended acts = [] →
    (readRun lst acts).2.flatten = (segBytes lst).take (min (readSizes acts).sum (segBytes lst).length) ∧
      segBytes (readRun lst acts).1 = (segBytes lst).drop (min (readSizes acts).sum (segBytes lst).length)

namespace SegListsAux

/-- `recv_seg` returns as many bytes as it is asked for, or as there are, and as many as it says. -/
theorem length_recvSeg {lst : List SegLst} (h : ∀ e ∈ lst, e.Sized) (size : Nat) :
    (recvSeg lst size).2.length = min size (segBytes lst).length ∧
      recvSizeAfter lst size + (recvSeg lst size).2.length = size := by
  induction lst generalizing size with
  | nil => exact ⟨(Nat.min_zero size).symm, rfl⟩
  | cons e lst ih =>
    have he : e.size ≤ e.segm.data.length := h e List.mem_cons_self
    have hlen : (segBytes (e :: lst)).length = e.size + (segBytes lst).length := by
      rw [segBytes_cons, List.length_append, List.length_take, Nat.min_eq_left he]
    unfold recvSeg recvSizeAfter
    split
    · rename_i hzero
      exact ⟨by rw [hzero, Nat.zero_min]; rfl, hzero.symm⟩
    · split
      · rename_i hle
        obtain ⟨hmin, hsum⟩ := ih (fun a ha => h a (List.mem_cons_of_mem _ ha)) (size - e.size)
        rw [List.length_append, List.length_take, Nat.min_eq_left he, hlen]
        omega
      · rw [List.length_take, hlen]
        omega

/-- The bytes it returns are the first ones, and the others are left. -/
theorem recvSeg_eq {lst : List SegLst} (h : ∀ e ∈ lst, e.Sized) (size : Nat) :
    (recvSeg lst size).2 = (segBytes lst).take (min size (segBytes lst).length) ∧
      segBytes (recvSeg lst size).1 = (segBytes lst).drop (min size (segBytes lst).length) := by
  have hbytes := recvSeg_bytes lst size
  rw [← (length_recvSeg h size).1]
  constructor
  · conv_rhs => rw [← hbytes]
    exact (List.take_left ..).symm
  · conv_rhs => rw [← hbytes]
    exact (List.drop_left ..).symm

/-- It leaves the entries with the bytes they need. -/
theorem sized_recvSeg {lst : List SegLst} (h : ∀ e ∈ lst, e.Sized) (size : Nat) : ∀ e ∈ (recvSeg lst size).1, e.Sized := by
  induction lst generalizing size with
  | nil => exact h
  | cons a lst ih =>
    have htail : ∀ e ∈ lst, e.Sized := fun e he => h e (List.mem_cons_of_mem _ he)
    unfold recvSeg
    split
    · exact h
    · split
      · exact ih htail (size - a.size)
      · intro e he
        rcases List.mem_cons.1 he with rfl | he
        · have ha : a.size ≤ a.segm.data.length := h a List.mem_cons_self
          show a.size - size ≤ (a.segm.data.drop size).length
          rw [List.length_drop]
          omega
        · exact htail e he

/-- The entries of a run have the bytes they need. -/
theorem sized_readRun {lst : List SegLst} {acts : List ReadAction} (h : ∀ e ∈ lst, e.Sized) (hacts : ∀ e ∈ appended acts, e.Sized) :
    ∀ e ∈ (readRun lst acts).1, e.Sized := by
  induction acts generalizing lst with
  | nil => exact h
  | cons a acts ih =>
    cases a with
    | recvSeg size => exact ih (sized_recvSeg h size) hacts
    | append e =>
      refine ih ?_ fun a ha => hacts a (List.mem_cons_of_mem _ ha)
      intro a ha
      rcases List.mem_append.1 ha with ha | ha
      · exact h a ha
      · obtain rfl := List.mem_singleton.1 ha
        exact hacts _ List.mem_cons_self

theorem appended_append (acts acts' : List ReadAction) : appended (acts ++ acts') = appended acts ++ appended acts' := by
  induction acts with
  | nil => rfl
  | cons a acts ih =>
    cases a with
    | recvSeg size => exact ih
    | append e => exact congrArg (e :: ·) ih

/-- What has been returned and what is left is what was there and what was appended. -/
theorem readRun_total (lst : List SegLst) (acts : List ReadAction) :
    (readRun lst acts).2.flatten ++ segBytes (readRun lst acts).1 = segBytes (lst ++ appended acts) := by
  induction acts generalizing lst with
  | nil => exact congrArg segBytes (List.append_nil lst).symm
  | cons a acts ih =>
    cases a with
    | recvSeg size =>
      have htail := ih (recvSeg lst size).1
      simp only [readRun, appended, List.flatten_cons]
      rw [List.append_assoc, htail, segBytes_append, segBytes_append, ← List.append_assoc, recvSeg_bytes]
    | append e =>
      have htail := ih (lst ++ [e])
      simp only [readRun, appended]
      rw [htail, List.append_assoc]
      rfl

/-- Reads alone return as many bytes as they ask for together, or as there are. -/
theorem length_readRun {lst : List SegLst} {acts : List ReadAction} (h : ∀ e ∈ lst, e.Sized) (hnone : appended acts = []) :
    (readRun lst acts).2.flatten.length = min (readSizes acts).sum (segBytes lst).length := by
  induction acts generalizing lst with
  | nil => exact (Nat.zero_min _).symm
  | cons a acts ih =>
    cases a with
    | recvSeg size =>
      have hlen := (length_recvSeg h size).1
      have hleft := (recvSeg_eq h size).2
      have htail := ih (sized_recvSeg h size) hnone
      rw [hleft, List.length_drop] at htail
      simp only [readRun, readSizes, List.flatten_cons, List.length_append, List.sum_cons]
      omega
    | append e => cases hnone

end SegListsAux

/-- `recv_seg` is an exact read of the stream that the list holds, for any reads, with segments appended between them. -/
theorem recv_seg_exact {lst : List SegLst} {acts : List ReadAction} (h : ∀ e ∈ lst, e.Sized) (hacts : ∀ e ∈ appended acts, e.Sized) :
    ExactReads lst acts where
  total := SegListsAux.readRun_total lst acts
  each := by
    rintro before size after now rfl rfl
    have hnow : ∀ e ∈ (readRun lst before).1, e.Sized := by
      refine SegListsAux.sized_readRun h fun e he => hacts e ?_
      rw [SegListsAux.appended_append]
      exact List.mem_append_left _ he
    obtain ⟨htake, hdrop⟩ := SegListsAux.recvSeg_eq hnow size
    obtain ⟨hlen, hsum⟩ := SegListsAux.length_recvSeg hnow size
    refine ⟨htake, hdrop, ?_⟩
    unfold recvSegRet
    omega
  reads := by
    intro hnone
    have htotal := SegListsAux.readRun_total lst acts
    have hlen := SegListsAux.length_readRun h hnone
    rw [hnone, List.append_nil] at htotal
    rw [← hlen]
    constructor
    · conv_rhs => rw [← htotal]
      exact (List.take_left ..).symm
    · conv_rhs => rw [← htotal]
      exact (List.drop_left ..).symm

namespace SegListsAux

/-- An entry with the given bytes. -/
def entryOf (seqNum : Nat) (data : List Byte) : SegLst where
  segm := { src := 0, dest := 0, seqNum := seqNum, ackNum := 0, flags := .dados, windowSize := 16, data := data }
  size := data.length

end SegListsAux

/-- Reads that end inside a segment, at the end of one and past the end of the list. -/
theorem recv_seg_exact_reads : ExactReads [SegListsAux.entryOf 0 [1, 2, 3], SegListsAux.entryOf 3 [4, 5]]
    [.recvSeg 2, .recvSeg 1, .append (SegListsAux.entryOf 5 [6]), .recvSeg 9] :=
  recv_seg_exact (by decide) (by decide)

/-! ## insert_seg -/

/-- The loop of `insert_seg`, which links what `is_next` finds behind the last entry of `segs`. -/
def insertSegLoop : Nat → List SegLst → List SegLst → Nat → Nat → List SegLst × List SegLst × Nat
  | 0, lst, lstAux, _, ret => (lst, lstAux, ret)
  | rounds + 1, lst, lstAux, count, ret =>
    match isNext lstAux count with
    | none => (lst, lstAux, ret)
    | some (e, rest) => insertSegLoop rounds (lst ++ [e]) rest ((count + e.size) % maxSeqNum) (u32 (ret + e.size))

/-- `insert_seg` with the two branches it has, for an empty list and for one that is not. -/
def insertSegBranches (lst lstAux : List SegLst) (seg : Segment) (size base : Nat) : List SegLst × List SegLst × Nat :=
  match lst with
  | [] =>
    if seg.seqNum = base then
      insertSegLoop lstAux.length [{ segm := seg, size := size }] lstAux ((base + size) % maxSeqNum) (u32 size)
    else ([], insertSegLst lstAux seg size, 0)
  | e :: lst =>
    if seg.seqNum = base then
      insertSegLoop lstAux.length (e :: lst ++ [{ segm := seg, size := size }]) lstAux ((base + size) % maxSeqNum) (u32 size)
    else (e :: lst, insertSegLst lstAux seg size, 0)

theorem insertSegLoop_eq (rounds : Nat) (lst lstAux : List SegLst) (count ret : Nat) :
    insertSegLoop rounds lst lstAux count ret = (lst ++ (moveNext rounds lstAux count ret).1, (moveNext rounds lstAux count ret).2) := by
  induction rounds generalizing lst lstAux count ret with
  | zero => simp [insertSegLoop, moveNext]
  | succ rounds ih =>
    unfold insertSegLoop moveNext
    cases isNext lstAux count with
    | none => simp
    | some found =>
      obtain ⟨e, rest⟩ := found
      simp only [ih, List.append_assoc, List.cons_append, List.nil_append]

/-- Both branches do the same. -/
theorem insertSegBranches_eq (lst lstAux : List SegLst) (seg : Segment) (size base : Nat) :
    insertSegBranches lst lstAux seg size base = insertSeg lst lstAux seg size base := by
  unfold insertSegBranches insertSeg
  cases lst with
  | nil =>
    simp only [insertSegLoop_eq]
    rfl
  | cons e lst =>
    simp only [insertSegLoop_eq, List.append_assoc, List.cons_append, List.nil_append]

/-- Where the `k`-th piece of a stream starts. -/
def startOf (pieces : List (List Byte)) (k : Nat) : Nat := (pieces.take k).flatten.length

/-- The sequence number of the `k`-th piece. -/
def seqNumOf (pieces : List (List Byte)) (initial k : Nat) : Nat := (initial + startOf pieces k) % maxSeqNum

/-- The segment carries the `k`-th piece of the stream. -/
def Carries (pieces : List (List Byte)) (initial k : Nat) (seg : Segment) : Prop :=
  pieces[k]? = some seg.data ∧ seg.seqNum = seqNumOf pieces initial k

instance (pieces : List (List Byte)) (initial k : Nat) (seg : Segment) : Decidable (Carries pieces initial k seg) :=
  inferInstanceAs (Decidable (_ ∧ _))

/-- The entry holds the `k`-th piece of the stream. -/
def HoldsPiece (pieces : List (List Byte)) (initial k : Nat) (e : SegLst) : Prop :=
  Carries pieces initial k e.segm ∧ e.size = e.segm.data.length

/-- The two lists, the length accepted so far (what `insert_seg` has returned, added up), the pieces received, the last one first, and
what `recv_seg` has returned. -/
structure Receiving where
  segs : List SegLst
  segsAux : List SegLst
  accepted : Nat
  received : List Nat
  returned : List Byte
  deriving DecidableEq, Repr

/-- A call of `insert_seg` with a segment that carries the `k`-th piece, or of `recv_seg`. -/
inductive ReceivingAction where
  | insertSeg (k : Nat) (seg : Segment)
  | recvSeg (size : Nat)
  deriving DecidableEq, Repr

/-- `insert_seg` as `recv_thread` calls it, with the number after what was accepted. -/
def Receiving.insertSeg (initial : Nat) (s : Receiving) (seg : Segment) : List SegLst × List SegLst × Nat :=
  NetworkLayers.insertSeg s.segs s.segsAux seg seg.data.length ((initial + s.accepted) % maxSeqNum)

/-- A call. A segment comes only when its piece is not before the length accepted. -/
def Receiving.step (pieces : List (List Byte)) (initial : Nat) (s : Receiving) : ReceivingAction → Option Receiving
  | .insertSeg k seg =>
    if Carries pieces initial k seg ∧ s.accepted ≤ startOf pieces k then
      let r := s.insertSeg initial seg
      some { s with segs := r.1, segsAux := r.2.1, accepted := s.accepted + r.2.2, received := k :: s.received }
    else none
  | .recvSeg size => some { s with segs := (recvSeg s.segs size).1, returned := s.returned ++ (recvSeg s.segs size).2 }

/-- Nothing has come. -/
def Receiving.start : Receiving := { segs := [], segsAux := [], accepted := 0, received := [], returned := [] }

/-- The bytes ever appended to `segs` are the first `j` pieces, which are the longest start of the stream that the pieces received cover,
their length has been returned, and `segs_aux` holds each other piece received once. -/
structure Receiving.KeepsPrefix (pieces : List (List Byte)) (initial : Nat) (s : Receiving) (j : Nat) : Prop where
  appended : s.returned ++ segBytes s.segs = (pieces.take j).flatten
  accepted : s.accepted = startOf pieces j
  held : ∃ held, Reorder.Keeps s.received j held ∧ List.Forall₂ (HoldsPiece pieces initial) held s.segsAux

namespace SegListsAux

variable {pieces : List (List Byte)} {initial j k : Nat} {held : List Nat} {aux : List SegLst}

theorem flatten_take_succ {piece : List Byte} (h : pieces[k]? = some piece) :
    (pieces.take (k + 1)).flatten = (pieces.take k).flatten ++ piece := by
  rw [List.take_add_one, h, Option.toList_some, List.flatten_concat]

theorem startOf_succ {piece : List Byte} (h : pieces[k]? = some piece) : startOf pieces (k + 1) = startOf pieces k + piece.length := by
  unfold startOf
  rw [flatten_take_succ h, List.length_append]

theorem startOf_mono (h : j ≤ k) : startOf pieces j ≤ startOf pieces k := by
  obtain ⟨rest, hrest⟩ := List.take_prefix_take_left h (l := pieces)
  unfold startOf
  rw [← hrest, List.flatten_append, List.length_append]
  omega

theorem startOf_le (pieces : List (List Byte)) (k : Nat) : startOf pieces k ≤ pieces.flatten.length := by
  have hsplit := congrArg List.flatten (List.take_append_drop k pieces)
  rw [List.flatten_append] at hsplit
  rw [← hsplit, List.length_append]
  exact Nat.le_add_right _ _

theorem startOf_lt (hpos : ∀ piece ∈ pieces, piece ≠ []) {piece : List Byte} (h : pieces[k]? = some piece) :
    startOf pieces k < startOf pieces (k + 1) := by
  have hlen := List.length_pos_iff.2 (hpos piece (List.mem_of_getElem? h))
  rw [startOf_succ h]
  omega

/-- A piece is known by its sequence number. -/
theorem eq_of_seqNumOf (hpos : ∀ piece ∈ pieces, piece ≠ []) (hlen : pieces.flatten.length < maxSeqNum) {piece : List Byte}
    (hk : pieces[k]? = some piece) (heq : seqNumOf pieces initial k = seqNumOf pieces initial j) : k = j := by
  have hmod : startOf pieces k ≡ startOf pieces j [MOD maxSeqNum] := Nat.ModEq.add_left_cancel' initial heq
  have hstart : startOf pieces k = startOf pieces j :=
    hmod.eq_of_lt_of_lt ((startOf_le pieces k).trans_lt hlen) ((startOf_le pieces j).trans_lt hlen)
  rcases Nat.lt_trichotomy k j with hlt | heq | hlt
  · have h1 := startOf_lt hpos hk
    have h2 : startOf pieces (k + 1) ≤ startOf pieces j := startOf_mono hlt
    omega
  · exact heq
  · have hk' := (List.getElem?_eq_some_iff.1 hk).1
    have h1 := startOf_lt hpos (List.getElem?_eq_getElem (hlt.trans hk'))
    have h2 : startOf pieces (j + 1) ≤ startOf pieces k := startOf_mono hlt
    omega

/-- `is_next` finds the piece that is next when it is held. -/
theorem isNext_held (hpos : ∀ piece ∈ pieces, piece ≠ []) (hlen : pieces.flatten.length < maxSeqNum)
    (h : List.Forall₂ (HoldsPiece pieces initial) held aux) (j : Nat) :
    (isNext aux (seqNumOf pieces initial j) = none ∧ j ∉ held) ∨
      ∃ e rest, isNext aux (seqNumOf pieces initial j) = some (e, rest) ∧ j ∈ held ∧ HoldsPiece pieces initial j e ∧
        List.Forall₂ (HoldsPiece pieces initial) (held.erase j) rest := by
  induction h with
  | nil => exact Or.inl ⟨rfl, List.not_mem_nil⟩
  | @cons k e held aux hke htail ih =>
    obtain ⟨⟨hdata, hseq⟩, hsize⟩ := hke
    by_cases heq : e.segm.seqNum = seqNumOf pieces initial j
    · obtain rfl := eq_of_seqNumOf hpos hlen hdata (hseq.symm.trans heq)
      refine Or.inr ⟨e, aux, if_pos heq, List.mem_cons_self, ⟨⟨hdata, hseq⟩, hsize⟩, ?_⟩
      rw [List.erase_cons_head]
      exact htail
    · have hne : k ≠ j := fun hkj => heq (hkj ▸ hseq)
      rcases ih with ⟨hnone, hnot⟩ | ⟨e', rest, hsome, hmem, hholds, hrest⟩
      · refine Or.inl ⟨by rw [isNext, if_neg heq, hnone]; rfl, ?_⟩
        rw [List.mem_cons]
        exact fun hmem => hmem.elim (fun h => hne h.symm) hnot
      · refine Or.inr ⟨e', e :: rest, by rw [isNext, if_neg heq, hsome]; rfl, List.mem_cons_of_mem _ hmem, hholds, ?_⟩
        rw [List.erase_cons_tail (by simpa using hne)]
        exact .cons ⟨⟨hdata, hseq⟩, hsize⟩ hrest

/-- The loop of `insert_seg` takes what the buffer takes. `i` is the piece the call was for. -/
theorem moveNext_advance (hpos : ∀ piece ∈ pieces, piece ≠ []) (hlen : pieces.flatten.length < maxSeqNum) {i rounds ret : Nat}
    (h : List.Forall₂ (HoldsPiece pieces initial) held aux) (hret : ret + startOf pieces i = startOf pieces j) :
    List.Forall₂ (HoldsPiece pieces initial) (Reorder.advance rounds j held).2
        (moveNext rounds aux (seqNumOf pieces initial j) ret).2.1 ∧
      (pieces.take j).flatten ++ segBytes (moveNext rounds aux (seqNumOf pieces initial j) ret).1 =
        (pieces.take (Reorder.advance rounds j held).1).flatten ∧
      (moveNext rounds aux (seqNumOf pieces initial j) ret).2.2 + startOf pieces i =
        startOf pieces (Reorder.advance rounds j held).1 := by
  induction rounds generalizing held aux j ret with
  | zero => exact ⟨h, List.append_nil _, hret⟩
  | succ rounds ih =>
    unfold moveNext Reorder.advance
    rcases isNext_held hpos hlen h j with ⟨hnone, hnot⟩ | ⟨e, rest, hsome, hmem, ⟨⟨hdata, hseq⟩, hsize⟩, hrest⟩
    · rw [hnone, if_neg hnot]
      exact ⟨h, List.append_nil _, hret⟩
    · have hnext := startOf_succ hdata
      have htotal := startOf_le pieces (j + 1)
      have hcount : (seqNumOf pieces initial j + e.size) % maxSeqNum = seqNumOf pieces initial (j + 1) := by
        unfold seqNumOf
        rw [Nat.mod_add_mod, hnext, hsize, Nat.add_assoc]
      have hsum : u32 (ret + e.size) = ret + e.size := by
        refine u32_of_lt ?_
        unfold maxSeqNum at hlen
        omega
      have hret' : ret + e.size + startOf pieces i = startOf pieces (j + 1) := by omega
      obtain ⟨hheld, hbytes, hoffset⟩ := ih hrest hret'
      rw [hsome, if_pos hmem]
      simp only [hcount, hsum]
      refine ⟨hheld, ?_, hoffset⟩
      have htake : e.segm.data.take e.size = e.segm.data := by rw [hsize, List.take_length]
      rw [segBytes_cons, htake, ← List.append_assoc, ← flatten_take_succ hdata]
      exact hbytes

/-- `insert_seg` does with a segment what the buffer does with its piece. -/
theorem insertSeg_arrive (hpos : ∀ piece ∈ pieces, piece ≠ []) (hlen : pieces.flatten.length < maxSeqNum) {seg : Segment}
    (hseg : Carries pieces initial k seg) (h : List.Forall₂ (HoldsPiece pieces initial) held aux) (lst : List SegLst) :
    ∃ new, (insertSeg lst aux seg seg.data.length (seqNumOf pieces initial j)).1 = lst ++ new ∧
      List.Forall₂ (HoldsPiece pieces initial) (Reorder.arrive j held k).2
        (insertSeg lst aux seg seg.data.length (seqNumOf pieces initial j)).2.1 ∧
      (pieces.take j).flatten ++ segBytes new = (pieces.take (Reorder.arrive j held k).1).flatten ∧
      (insertSeg lst aux seg seg.data.length (seqNumOf pieces initial j)).2.2 + startOf pieces j =
        startOf pieces (Reorder.arrive j held k).1 := by
  obtain ⟨hdata, hseq⟩ := hseg
  unfold insertSeg Reorder.arrive
  by_cases hkj : k = j
  · subst hkj
    have hnext := startOf_succ hdata
    have htotal := startOf_le pieces (k + 1)
    have hcount : (seqNumOf pieces initial k + seg.data.length) % maxSeqNum = seqNumOf pieces initial (k + 1) := by
      unfold seqNumOf
      rw [Nat.mod_add_mod, hnext, Nat.add_assoc]
    have hsum : u32 seg.data.length = seg.data.length := by
      refine u32_of_lt ?_
      unfold maxSeqNum at hlen
      omega
    have hret : seg.data.length + startOf pieces k = startOf pieces (k + 1) := by omega
    obtain ⟨hheld, hbytes, hoffset⟩ := moveNext_advance hpos hlen h hret
    rw [if_pos hseq, if_pos rfl, h.length_eq, hcount, hsum]
    refine ⟨_, rfl, hheld, ?_, hoffset⟩
    rw [segBytes_cons, List.take_length, ← List.append_assoc, ← flatten_take_succ hdata]
    exact hbytes
  · have hne : seg.seqNum ≠ seqNumOf pieces initial j := fun heq => hkj (eq_of_seqNumOf hpos hlen hdata (hseq.symm.trans heq))
    have hany : (aux.any fun e => e.segm.seqNum = seg.seqNum) = true ↔ k ∈ held := by
      induction h with
      | nil => simp
      | @cons i e held aux hie _ ih =>
        obtain ⟨⟨hidata, hiseq⟩, -⟩ := hie
        have hhead : e.segm.seqNum = seg.seqNum ↔ k = i := by
          rw [hiseq, hseq]
          exact ⟨fun heq => (eq_of_seqNumOf hpos hlen hidata heq).symm, fun heq => by rw [heq]⟩
        rw [List.any_cons, Bool.or_eq_true, ih, decide_eq_true_iff, hhead, List.mem_cons]
    rw [if_neg hne, if_neg hkj]
    unfold insertSegLst
    by_cases hmem : k ∈ held
    · rw [if_pos hmem, if_pos (hany.2 hmem)]
      exact ⟨[], (List.append_nil lst).symm, h, List.append_nil _, Nat.zero_add _⟩
    · rw [if_neg hmem, if_neg (fun h => hmem (hany.1 h))]
      exact ⟨[], (List.append_nil lst).symm, List.rel_append h (.cons ⟨⟨hdata, hseq⟩, rfl⟩ .nil), List.append_nil _, Nat.zero_add _⟩

/-- A call of `insert_seg` keeps the longest start, and returns by how much it grows. -/
theorem keepsPrefix_insertSeg (hpos : ∀ piece ∈ pieces, piece ≠ []) (hlen : pieces.flatten.length < maxSeqNum) {s s' : Receiving}
    {seg : Segment} (h : s.KeepsPrefix pieces initial j) (hs : s.step pieces initial (.insertSeg k seg) = some s') :
    ∃ j', s'.KeepsPrefix pieces initial j' ∧ (s.insertSeg initial seg).2.2 = startOf pieces j' - startOf pieces j := by
  obtain ⟨happended, haccepted, held, hkeeps, hheld⟩ := h
  simp only [Receiving.step] at hs
  split at hs
  · rename_i hguard
    obtain ⟨hseg, hle⟩ := hguard
    obtain rfl := Option.some.inj hs
    have hbase : (initial + s.accepted) % maxSeqNum = seqNumOf pieces initial j := by rw [haccepted]; rfl
    have hk : j ≤ k := by
      by_contra hlt
      have h1 := startOf_lt hpos hseg.1
      have h2 : startOf pieces (k + 1) ≤ startOf pieces j := startOf_mono (Nat.lt_of_not_le hlt)
      omega
    obtain ⟨new, hsegs, haux, hbytes, hoffset⟩ := insertSeg_arrive (j := j) hpos hlen hseg hheld s.segs
    rw [← hbase] at hsegs haux hoffset
    refine ⟨(Reorder.arrive j held k).1, ⟨?_, ?_, _, hkeeps.arrive hk, haux⟩, Nat.eq_sub_of_add_eq hoffset⟩
    · show s.returned ++ segBytes (s.insertSeg initial seg).1 = _
      rw [Receiving.insertSeg, hsegs, segBytes_append, ← List.append_assoc, happended, hbytes]
    · show s.accepted + (s.insertSeg initial seg).2.2 = _
      rw [haccepted, Nat.add_comm]
      exact hoffset
  · cases hs

/-- A read takes bytes off the list, and none is lost. -/
theorem keepsPrefix_recvSeg {s s' : Receiving} {size : Nat} (h : s.KeepsPrefix pieces initial j)
    (hs : s.step pieces initial (.recvSeg size) = some s') : s'.KeepsPrefix pieces initial j := by
  obtain rfl := Option.some.inj hs
  refine ⟨?_, h.accepted, h.held⟩
  show s.returned ++ (recvSeg s.segs size).2 ++ segBytes (recvSeg s.segs size).1 = _
  rw [List.append_assoc, recvSeg_bytes]
  exact h.appended

/-- The invariant of the calls. -/
def Kept (pieces : List (List Byte)) (initial : Nat) (s : Receiving) : Prop := ∃ j, s.KeepsPrefix pieces initial j

theorem kept_step (hpos : ∀ piece ∈ pieces, piece ≠ []) (hlen : pieces.flatten.length < maxSeqNum) {s s' : Receiving}
    {a : ReceivingAction} (h : Kept pieces initial s) (hs : s.step pieces initial a = some s') : Kept pieces initial s' := by
  obtain ⟨j, hj⟩ := h
  cases a with
  | insertSeg k seg =>
    obtain ⟨j', hj', -⟩ := keepsPrefix_insertSeg hpos hlen hj hs
    exact ⟨j', hj'⟩
  | recvSeg size => exact ⟨j, keepsPrefix_recvSeg hj hs⟩

theorem keepsPrefix_start (pieces : List (List Byte)) (initial : Nat) : Receiving.start.KeepsPrefix pieces initial 0 where
  appended := rfl
  accepted := rfl
  held := ⟨[], Reorder.keeps_nil, .nil⟩

end SegListsAux

/-- For any order of the segments, with repeats, and any reads between the calls: what was ever put into `segs` is the longest start of
the stream that the segments received cover, `segs_aux` holds each other one once, and a call returns by how much the start grows. -/
theorem insert_seg_keeps_prefix {pieces : List (List Byte)} {initial : Nat} (hpos : ∀ piece ∈ pieces, piece ≠ [])
    (hlen : pieces.flatten.length < maxSeqNum) {s : Receiving}
    (h : Reach (Receiving.step pieces initial) anyStep Receiving.start s) :
    ∃ j, s.KeepsPrefix pieces initial j ∧ ∀ k seg s', s.step pieces initial (.insertSeg k seg) = some s' →
      ∃ j', s'.KeepsPrefix pieces initial j' ∧ (s.insertSeg initial seg).2.2 = startOf pieces j' - startOf pieces j := by
  have hinv : SegListsAux.Kept pieces initial s :=
    h.invariant ⟨0, SegListsAux.keepsPrefix_start pieces initial⟩ fun _ _ _ hi _ hs => SegListsAux.kept_step hpos hlen hi hs
  obtain ⟨j, hj⟩ := hinv
  exact ⟨j, hj, fun k seg s' hs => SegListsAux.keepsPrefix_insertSeg hpos hlen hj hs⟩

namespace SegListsAux

/-- Three pieces; with the initial number below, the second one starts at the wrap. -/
def wrapPieces : List (List Byte) := [[1, 2], [3, 4, 5], [6]]

/-- The calls: the last piece twice, the first one with a read of all of it, and the second one. -/
def wrapCalls : List ReceivingAction :=
  [.insertSeg 2 (entryOf 3 [6]).segm, .insertSeg 2 (entryOf 3 [6]).segm, .insertSeg 0 (entryOf 4294967293 [1, 2]).segm, .recvSeg 9,
    .insertSeg 1 (entryOf 0 [3, 4, 5]).segm]

end SegListsAux

open SegListsAux in
/-- A stream over the wrap: the first piece has been read, and the other two are in `segs`. -/
theorem insert_seg_keeps_prefix_wrap :
    ∃ s, exec (Receiving.step wrapPieces 4294967293) Receiving.start wrapCalls = some s ∧ s.returned = [1, 2] ∧
      segBytes s.segs = [3, 4, 5, 6] ∧ s.segsAux = [] ∧
      ∃ j, s.KeepsPrefix wrapPieces 4294967293 j ∧ ∀ k seg s', s.step wrapPieces 4294967293 (.insertSeg k seg) = some s' →
        ∃ j', s'.KeepsPrefix wrapPieces 4294967293 j' ∧
          (s.insertSeg 4294967293 seg).2.2 = startOf wrapPieces j' - startOf wrapPieces j := by
  obtain ⟨s, hs, hreturned, hsegs, haux⟩ : ∃ s ∈ exec (Receiving.step wrapPieces 4294967293) Receiving.start wrapCalls,
      s.returned = [1, 2] ∧ segBytes s.segs = [3, 4, 5, 6] ∧ s.segsAux = [] := by
    decide +kernel
  exact ⟨s, hs, hreturned, hsegs, haux, insert_seg_keeps_prefix (by decide) (by decide) (reach_anyStep_of_exec hs)⟩

end NetworkLayers
