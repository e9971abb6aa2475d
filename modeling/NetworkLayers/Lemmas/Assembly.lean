import NetworkLayers.Lemmas.Lists
import NetworkLayers.Lemmas.Session
import NetworkLayers.Lib.SeqSpace

/-!
# What the receiver makes of a stream

The segments one point builds form a stream, numbered from the first `seq_num_s` of the connection. Whatever arrives and in
whichever order, `insert_seg` gives the receiver the start of that stream.
-/

namespace NetworkLayers

open SeqSpace

/-- The packs of data and FINs of a point, in the order they were built. -/
def Endpoint.stream (p : Endpoint) : List SendSegment :=
  p.packs.filter fun k => k.segment.flags = .dados ∨ k.segment.flags = .fin

/-- The pack of a thread that sends data is in the stream. -/
theorem mem_stream_of_mem {p : Endpoint} {t : SegSend} (ht : t ∈ p.segSends) (hflags : t.pack.segment.flags = .dados) :
    t.pack ∈ p.stream :=
  List.mem_filter.2 ⟨List.mem_map_of_mem ht, decide_eq_true (Or.inl hflags)⟩

/-- The data of packs. -/
def packBytes (ks : List SendSegment) : List Byte := ks.flatMap (·.segment.data)

/-- The size of packs together. -/
def packSize (ks : List SendSegment) : Nat := (ks.map (·.size)).sum

/-- The sequence number after packs, the first of which has the number `q`. -/
def seqNumAfter (q : Nat) (ks : List SendSegment) : Nat := seqAt maxSeqNum q (ks.map (·.size))

@[simp] theorem packBytes_append (ks ks' : List SendSegment) : packBytes (ks ++ ks') = packBytes ks ++ packBytes ks' :=
  List.flatMap_append

@[simp] theorem packSize_append (ks ks' : List SendSegment) : packSize (ks ++ ks') = packSize ks + packSize ks' := by
  simp [packSize]

@[simp] theorem packSize_cons (k : SendSegment) (ks : List SendSegment) : packSize (k :: ks) = k.size + packSize ks := by
  simp [packSize]

@[simp] theorem packSize_nil : packSize [] = 0 := rfl

/-- The bytes of packs are as many as their sizes say. -/
theorem length_packBytes {ks : List SendSegment} (h : ∀ k ∈ ks, k.segment.data.length = k.size) :
    (packBytes ks).length = packSize ks := by
  induction ks with
  | nil => rfl
  | cons k ks ih =>
    have hk := h k List.mem_cons_self
    have hks := ih fun k' hk' => h k' (List.mem_cons_of_mem _ hk')
    rw [packSize_cons, ← hks, ← hk]
    simp [packBytes]

theorem packBytes_mono {ks ks' : List SendSegment} (h : ks <+: ks') : packBytes ks <+: packBytes ks' := by
  obtain ⟨r, rfl⟩ := h
  rw [packBytes_append]
  exact List.prefix_append _ _

theorem packSize_mono {ks ks' : List SendSegment} (h : ks <+: ks') : packSize ks ≤ packSize ks' :=
  sum_map_mono h

theorem seqNumAfter_append (q : Nat) (ks ks' : List SendSegment) :
    seqNumAfter q (ks ++ ks') = seqNumAfter (seqNumAfter q ks) ks' := by
  unfold seqNumAfter
  rw [List.map_append, seqAt_append]

theorem seqNumAfter_concat (q : Nat) (ks : List SendSegment) (k : SendSegment) :
    seqNumAfter q (ks ++ [k]) = nextSeqNum (seqNumAfter q ks) k.size := by
  rw [seqNumAfter_append]
  rfl

/-- A stream numbered from `q`: each pack has the number after the packs before it, and is not empty. -/
structure Numbered (q : Nat) (ks : List SendSegment) : Prop where
  seqNum : ∀ l k r, ks = l ++ k :: r → k.segment.seqNum = seqNumAfter q l
  pos : ∀ k ∈ ks, 0 < k.size
  length : ∀ k ∈ ks, k.segment.data.length = k.size

section Numbered

variable {q : Nat} {ks l : List SendSegment} {k k' : SendSegment}

/-- A pack more. -/
theorem Numbered.concat (h : Numbered q ks) (hseq : k.segment.seqNum = seqNumAfter q ks) (hpos : 0 < k.size)
    (hlength : k.segment.data.length = k.size) : Numbered q (ks ++ [k]) where
  seqNum := by
    intro l k' r hsplit
    rcases List.eq_nil_or_concat r with rfl | ⟨r', k'', rfl⟩
    · obtain ⟨rfl, hk⟩ := List.append_inj' hsplit rfl
      obtain rfl := List.singleton_inj.1 hk
      exact hseq
    · have hsplit' : ks ++ [k] = (l ++ k' :: r') ++ [k''] := by
        rw [hsplit, List.concat_eq_append, List.append_assoc, List.cons_append]
      obtain ⟨hks, -⟩ := List.append_inj' hsplit' rfl
      exact h.seqNum l k' r' hks
  pos := by
    intro k' hk'
    rcases List.mem_append.1 hk' with hk' | hk'
    · exact h.pos k' hk'
    · obtain rfl := List.mem_singleton.1 hk'
      exact hpos
  length := by
    intro k' hk'
    rcases List.mem_append.1 hk' with hk' | hk'
    · exact h.length k' hk'
    · obtain rfl := List.mem_singleton.1 hk'
      exact hlength

/-- The pack that has the number after the start of a stream is the next one. -/
theorem Numbered.prefix_concat (h : Numbered q ks) (hq : q < maxSeqNum) (hsum : packSize ks < maxSeqNum) (hl : l <+: ks)
    (hk : k ∈ ks) (hseq : k.segment.seqNum = seqNumAfter q l) : l ++ [k] <+: ks := by
  obtain ⟨l', r, rfl⟩ := List.append_of_mem hk
  have hl' : l' <+: l' ++ k :: r := ⟨k :: r, rfl⟩
  rw [h.seqNum l' k r rfl] at hseq
  obtain rfl : l' = l := prefix_eq_of_seqAt_eq hq h.pos hsum hl' hl hseq
  exact ⟨r, by simp⟩

/-- Packs of a stream with the same number are the same. -/
theorem Numbered.eq_of_seqNum_eq (h : Numbered q ks) (hq : q < maxSeqNum) (hsum : packSize ks < maxSeqNum) (hk : k ∈ ks)
    (hk' : k' ∈ ks) (hseq : k.segment.seqNum = k'.segment.seqNum) : k = k' := by
  obtain ⟨l, r, rfl⟩ := List.append_of_mem hk
  have hl : l <+: l ++ k :: r := ⟨k :: r, rfl⟩
  have hnext := h.prefix_concat hq hsum hl hk' (hseq.symm.trans (h.seqNum l k r rfl))
  obtain ⟨r', hr'⟩ := hnext
  rw [List.append_assoc] at hr'
  exact (List.cons.inj (List.append_cancel_left hr')).1.symm

/-- The number of the entry for the ACK of a pack, which is the number after it. -/
def SendSegment.entryNum (k : SendSegment) : Nat := nextSeqNum k.segment.seqNum k.size

theorem Numbered.entryNum_eq (h : Numbered q ks) {l r : List SendSegment} (hsplit : ks = l ++ k :: r) :
    k.entryNum = seqNumAfter q (l ++ [k]) := by
  rw [seqNumAfter_concat, ← h.seqNum l k r hsplit]
  rfl

/-- Different packs of a stream wait for different numbers. -/
theorem Numbered.eq_of_entryNum_eq (h : Numbered q ks) (hq : q < maxSeqNum) (hsum : packSize ks < maxSeqNum) (hk : k ∈ ks)
    (hk' : k' ∈ ks) (heq : k.entryNum = k'.entryNum) : k = k' := by
  obtain ⟨l, r, hsplit⟩ := List.append_of_mem hk
  obtain ⟨l', r', hsplit'⟩ := List.append_of_mem hk'
  have hl : l ++ [k] <+: ks := ⟨r, by simp [hsplit]⟩
  have hl' : l' ++ [k'] <+: ks := ⟨r', by simp [hsplit']⟩
  rw [h.entryNum_eq hsplit, h.entryNum_eq hsplit'] at heq
  have hconcat := prefix_eq_of_seqAt_eq hq h.pos hsum hl hl' heq
  exact List.singleton_inj.1 (List.append_inj' hconcat rfl).2

/-- No pack waits for the first number. -/
theorem Numbered.entryNum_ne (h : Numbered q ks) (hq : q < maxSeqNum) (hsum : packSize ks < maxSeqNum) (hk : k ∈ ks) :
    k.entryNum ≠ q := by
  intro heq
  obtain ⟨l, r, hsplit⟩ := List.append_of_mem hk
  have hl : l ++ [k] <+: ks := ⟨r, by simp [hsplit]⟩
  rw [h.entryNum_eq hsplit] at heq
  have hnil : l ++ [k] = [] := prefix_eq_of_seqAt_eq hq h.pos hsum hl List.nil_prefix heq
  simp at hnil

theorem seqNumAfter_lt (hq : q < maxSeqNum) (hsum : packSize ks < maxSeqNum) : seqNumAfter q ks < maxSeqNum :=
  seqAt_lt hq hsum

/-- Numbers and sizes of a stream that is short enough are below `MAX_SEQ_NUM`. -/
theorem Numbered.lt (h : Numbered q ks) (hq : q < maxSeqNum) (hsum : packSize ks < maxSeqNum) (hk : k ∈ ks) :
    k.segment.seqNum < maxSeqNum ∧ k.size < maxSeqNum := by
  obtain ⟨l, r, hsplit⟩ := List.append_of_mem hk
  constructor
  · rw [h.seqNum l k r hsplit]
    exact seqNumAfter_lt hq (Nat.lt_of_le_of_lt (packSize_mono ⟨k :: r, hsplit.symm⟩) hsum)
  · rw [hsplit, packSize_append, packSize_cons] at hsum
    omega

end Numbered

/-! ## The receiver -/

/-- The receiver has taken the packs `c`, the start of the stream: their bytes went to `segs`, `seq_num_r` is the number after
them, and `segs_aux` holds data of the stream, but not the next pack, and before the wrap nothing from after it. -/
structure Assembles (q : Nat) (ks : List SendSegment) (sp : ServicePoint) (returned : List Byte) (c : List SendSegment) :
    Prop where
  start : c <+: ks
  dados : ∀ k ∈ c, k.segment.flags = .dados
  bytes : returned ++ segBytes sp.segs = packBytes c
  seqNumR : sp.seqNumR = seqNumAfter q c
  aux : ∀ e ∈ sp.segsAux, ∃ k ∈ ks, k.segment.flags = .dados ∧ e.segm = k.segment ∧ e.size = k.size
  auxNext : ∀ e ∈ sp.segsAux, e.segm.seqNum ≠ seqNumAfter q c
  auxWrap : q + packSize c < maxSeqNum → ∀ e ∈ sp.segsAux, q ≤ e.segm.seqNum

/-- The segment is at the receiver: among the packs taken, or in `segs_aux`. -/
def HasArrived (sp : ServicePoint) (c : List SendSegment) (segment : Segment) : Prop :=
  (∃ k ∈ c, k.segment = segment) ∨ ∃ e ∈ sp.segsAux, e.segm = segment

namespace AssemblyAux

variable {q : Nat} {ks c d : List SendSegment}

/-- The number `insert_seg` computes for the next entry, modulo `MAX_SEQ_NUM`, is the one after the packs moved so far, unless
they crossed the wrap; then both are below `q`. -/
theorem count_cases (hq : q < maxSeqNum) (hsum : packSize ks < maxSeqNum) (hd : c ++ d <+: ks) :
    (seqNumAfter q c + packSize d < maxSeqNum ∧ seqNumAfter q (c ++ d) = seqNumAfter q c + packSize d) ∨
      (q + packSize c < maxSeqNum ∧ seqNumAfter q (c ++ d) < q ∧ (seqNumAfter q c + packSize d) % maxSeqNum < q) := by
  have hle : packSize c + packSize d < maxSeqNum := by
    have := packSize_mono hd
    rw [packSize_append] at this
    omega
  have hle' : ((c.map (·.size)) ++ (d.map (·.size))).sum < maxSeqNum := by
    rw [List.sum_append]
    exact hle
  by_cases hc : q + packSize c < maxSeqNum
  · have hR : seqNumAfter q c = q + packSize c := seqAt_of_lt hc
    by_cases hd' : q + (packSize c + packSize d) < maxSeqNum
    · left
      have hRd : seqNumAfter q (c ++ d) = q + packSize (c ++ d) := seqAt_of_lt (by rw [← packSize, packSize_append]; exact hd')
      rw [hRd, hR, packSize_append]
      omega
    · right
      have hRd : seqNumAfter q (c ++ d) + maxSeqNum ≤ q + packSize (c ++ d) :=
        seqAt_add_le hq (by rw [← packSize, packSize_append]; exact hle) (by rw [← packSize, packSize_append]; omega)
      rw [packSize_append] at hRd
      rw [hR, Nat.mod_eq_sub_mod (by omega), Nat.mod_eq_of_lt (by omega)]
      omega
  · left
    have hRd : seqNumAfter q (c ++ d) = seqNumAfter q c + packSize d := by
      unfold seqNumAfter
      rw [List.map_append]
      exact seqAt_append_of_le hq hle' (Nat.le_of_not_lt hc)
    refine ⟨?_, hRd⟩
    rw [← hRd]
    exact seqNumAfter_lt hq (Nat.lt_of_le_of_lt (packSize_mono hd) hsum)

/-- What the loop over `segs_aux` leaves: the packs `m` of the entries it moved follow `c` and `d` in the stream, and none of the
entries that are left is next. -/
structure Moved (q : Nat) (ks c d : List SendSegment) (aux : List SegLst) (r : List SegLst × List SegLst × Nat)
    (m : List SendSegment) : Prop where
  start : c ++ (d ++ m) <+: ks
  dados : ∀ k ∈ m, k.segment.flags = .dados
  bytes : segBytes r.1 = packBytes m
  left : ∀ e ∈ r.2.1, e ∈ aux
  moved : ∀ e ∈ aux, e ∈ r.2.1 ∨ ∃ k ∈ m, k.segment = e.segm
  ret : r.2.2 = packSize (d ++ m)
  next : ∀ e ∈ r.2.1, e.segm.seqNum ≠ seqNumAfter q (c ++ (d ++ m))
  dropLast : seqNumAfter q c + ((d ++ m).map (·.size)).dropLast.sum < maxSeqNum

/-- Nothing is next. -/
theorem Moved.stop {aux : List SegLst} (hd : c ++ d <+: ks)
    (hlast : seqNumAfter q c + (d.map (·.size)).dropLast.sum < maxSeqNum)
    (hnext : ∀ e ∈ aux, e.segm.seqNum ≠ seqNumAfter q (c ++ d)) : Moved q ks c d aux ([], aux, packSize d) [] where
  start := by rw [List.append_nil]; exact hd
  dados := by simp
  bytes := rfl
  left := by simp
  moved := fun e he => Or.inl he
  ret := by rw [List.append_nil]
  next := by rw [List.append_nil]; exact hnext
  dropLast := by rw [List.append_nil]; exact hlast

/-- An entry is moved, and then the rest. -/
theorem Moved.cons {k : SendSegment} {e : SegLst} {l₁ l₂ : List SegLst} {r : List SegLst × List SegLst × Nat}
    {m : List SendSegment} (hm : Moved q ks c (d ++ [k]) (l₁ ++ l₂) r m) (hflags : k.segment.flags = .dados)
    (hlength : k.segment.data.length = k.size) (hsegm : e.segm = k.segment) (hsize : e.size = k.size) :
    Moved q ks c d (l₁ ++ e :: l₂) (e :: r.1, r.2) (k :: m) := by
  have hassoc : d ++ [k] ++ m = d ++ k :: m := by simp
  obtain ⟨hstart, hdados, hbytes, hleft, hmoved, hret, hnext, hlast⟩ := hm
  rw [hassoc] at hstart hret hnext hlast
  refine ⟨hstart, ?_, ?_, ?_, ?_, hret, hnext, hlast⟩
  · intro k' hk'
    rcases List.mem_cons.1 hk' with rfl | hk'
    · exact hflags
    · exact hdados k' hk'
  · have hdata : e.segm.data.take e.size = k.segment.data := by rw [hsegm, hsize, ← hlength, List.take_length]
    rw [segBytes_cons, hbytes, hdata]
    rfl
  · intro a ha
    have := hleft a ha
    grind
  · intro a ha
    have hrest : a = e ∨ a ∈ l₁ ++ l₂ := by grind
    rcases hrest with rfl | ha
    · exact Or.inr ⟨k, List.mem_cons_self, hsegm.symm⟩
    · rcases hmoved a ha with h | ⟨k', hk', hsegment⟩
      · exact Or.inl h
      · exact Or.inr ⟨k', List.mem_cons_of_mem _ hk', hsegment⟩

theorem moveNext_moved (hq : q < maxSeqNum) (hnum : Numbered q ks) (hsum : packSize ks < maxSeqNum) :
    ∀ (rounds : Nat) (aux : List SegLst) (d : List SendSegment), aux.length ≤ rounds → c ++ d <+: ks →
      seqNumAfter q c + (d.map (·.size)).dropLast.sum < maxSeqNum →
      (∀ e ∈ aux, ∃ k ∈ ks, k.segment.flags = .dados ∧ e.segm = k.segment ∧ e.size = k.size) →
      (q + packSize c < maxSeqNum → ∀ e ∈ aux, q ≤ e.segm.seqNum) →
      ∃ m, Moved q ks c d aux
        (moveNext rounds aux ((seqNumAfter q c + packSize d) % maxSeqNum) (packSize d)) m := by
  intro rounds
  induction rounds with
  | zero =>
    intro aux d hlen hd hlast _ _
    obtain rfl := List.eq_nil_of_length_eq_zero (Nat.le_zero.1 hlen)
    exact ⟨[], Moved.stop hd hlast (by simp)⟩
  | succ rounds ih =>
    intro aux d hlen hd hlast hstream hwrap
    have hcases := count_cases hq hsum hd
    unfold moveNext
    split
    · rename_i hnone
      rw [isNext_eq_none_iff] at hnone
      refine ⟨[], Moved.stop hd hlast ?_⟩
      intro e he
      rcases hcases with ⟨hlt, heq⟩ | ⟨hc, hnext, -⟩
      · have hne := hnone e he
        rwa [Nat.mod_eq_of_lt hlt, ← heq] at hne
      · have := hwrap hc e he
        omega
    · rename_i e rest hsome
      obtain ⟨hseq, l₁, l₂, rfl, rfl⟩ := isNext_eq_some hsome
      have he : e ∈ l₁ ++ e :: l₂ := by simp
      obtain ⟨k, hk, hflags, hsegm, hsize⟩ := hstream e he
      -- an entry is next only before the wrap, or well after it
      obtain ⟨hlt, heq⟩ : seqNumAfter q c + packSize d < maxSeqNum ∧ seqNumAfter q (c ++ d) = seqNumAfter q c + packSize d := by
        rcases hcases with h | ⟨hc, -, hcount⟩
        · exact h
        · have := hwrap hc e he
          omega
      rw [Nat.mod_eq_of_lt hlt] at hseq ⊢
      have hd' : c ++ (d ++ [k]) <+: ks := by
        rw [← List.append_assoc]
        exact hnum.prefix_concat hq hsum hd hk (by rw [← hsegm, hseq, heq])
      have hsub : ∀ a ∈ l₁ ++ l₂, a ∈ l₁ ++ e :: l₂ := by grind
      have hret : u32 (packSize d + e.size) = packSize (d ++ [k]) := by
        have := packSize_mono hd'
        rw [packSize_append] at this
        rw [packSize_append, packSize_cons, packSize_nil, hsize] at *
        apply u32_of_lt
        unfold maxSeqNum at hsum
        omega
      have hcount : (seqNumAfter q c + packSize d + e.size) % maxSeqNum =
          (seqNumAfter q c + packSize (d ++ [k])) % maxSeqNum := by
        rw [packSize_append, packSize_cons, packSize_nil, hsize, Nat.add_zero, Nat.add_assoc]
      have hlast' : seqNumAfter q c + ((d ++ [k]).map (·.size)).dropLast.sum < maxSeqNum := by
        rw [List.map_append, List.map_singleton, List.dropLast_concat]
        exact hlt
      have hlen' : (l₁ ++ l₂).length ≤ rounds := by
        rw [List.length_append, List.length_cons] at hlen
        rw [List.length_append]
        omega
      obtain ⟨m, hm⟩ := ih (l₁ ++ l₂) (d ++ [k]) hlen' hd' hlast' (fun a ha => hstream a (hsub a ha))
        (fun hc a ha => hwrap hc a (hsub a ha))
      rw [hret, hcount]
      exact ⟨k :: m, hm.cons hflags (hnum.length k hk) hsegm hsize⟩

end AssemblyAux

section Assembles

variable {q : Nat} {ks ks' c : List SendSegment} {sp sp' : ServicePoint} {returned : List Byte}

/-- The stream grows. -/
theorem Assembles.mono (h : Assembles q ks sp returned c) (hks : ks <+: ks') : Assembles q ks' sp returned c where
  start := h.start.trans hks
  dados := h.dados
  bytes := h.bytes
  seqNumR := h.seqNumR
  aux := by
    intro e he
    obtain ⟨k, hk, hfields⟩ := h.aux e he
    exact ⟨k, hks.subset hk, hfields⟩
  auxNext := h.auxNext
  auxWrap := h.auxWrap

/-- The rest of the service point does not matter. -/
theorem Assembles.congr (h : Assembles q ks sp returned c) (hsegs : sp'.segs = sp.segs) (haux : sp'.segsAux = sp.segsAux)
    (hseq : sp'.seqNumR = sp.seqNumR) : Assembles q ks sp' returned c where
  start := h.start
  dados := h.dados
  bytes := by rw [hsegs]; exact h.bytes
  seqNumR := by rw [hseq]; exact h.seqNumR
  aux := by rw [haux]; exact h.aux
  auxNext := by rw [haux]; exact h.auxNext
  auxWrap := by rw [haux]; exact h.auxWrap

/-- What the receiver has taken is known by its `seq_num_r`. -/
theorem Assembles.unique (h : Assembles q ks sp returned c) {c' : List SendSegment} (h' : Assembles q ks sp returned c')
    (hq : q < maxSeqNum) (hnum : Numbered q ks) (hsum : packSize ks < maxSeqNum) : c = c' :=
  prefix_eq_of_seqAt_eq hq hnum.pos hsum h.start h'.start (h.seqNumR.symm.trans h'.seqNumR)

/-- `recv_point` moves bytes from `segs` to the application. -/
theorem Assembles.recvSeg (h : Assembles q ks sp returned c) (size : Nat) (hsegs : sp'.segs = (recvSeg sp.segs size).1)
    (haux : sp'.segsAux = sp.segsAux) (hseq : sp'.seqNumR = sp.seqNumR) :
    Assembles q ks sp' (returned ++ (NetworkLayers.recvSeg sp.segs size).2) c where
  start := h.start
  dados := h.dados
  bytes := by rw [hsegs, List.append_assoc, recvSeg_bytes]; exact h.bytes
  seqNumR := by rw [hseq]; exact h.seqNumR
  aux := by rw [haux]; exact h.aux
  auxNext := by rw [haux]; exact h.auxNext
  auxWrap := by rw [haux]; exact h.auxWrap

/-- A segment that is not the next one goes to `segs_aux`. -/
theorem Assembles.addLater (h : Assembles q ks sp returned c) (hq : q < maxSeqNum) (hnum : Numbered q ks)
    (hsum : packSize ks < maxSeqNum) {pkt : Packet} {k : SendSegment} (hk : k ∈ ks) (hflags : k.segment.flags = .dados)
    (hsegment : pkt.segment = k.segment) (hsize : pkt.dataSize = k.size) (hle : sp.seqNumR ≤ k.segment.seqNum)
    (hne : k.segment.seqNum ≠ sp.seqNumR) :
    Assembles q ks (sp.addDados pkt) returned c ∧ HasArrived (sp.addDados pkt) c k.segment ∧
      ∀ segment, HasArrived sp c segment → HasArrived (sp.addDados pkt) c segment := by
  have hinsert : insertSeg sp.segs sp.segsAux pkt.segment pkt.dataSize sp.seqNumR =
      (sp.segs, insertSegLst sp.segsAux k.segment k.size, 0) := by
    rw [insertSeg, hsegment, hsize, if_neg hne]
  have hR : nextSeqNum sp.seqNumR 0 = sp.seqNumR := by
    have : sp.seqNumR < maxSeqNum := by
      rw [h.seqNumR]
      exact seqNumAfter_lt hq (Nat.lt_of_le_of_lt (packSize_mono h.start) hsum)
    exact next_of_lt this
  have hsegs : (sp.addDados pkt).segs = sp.segs := by rw [ServicePoint.addDados, hinsert]
  have haux : (sp.addDados pkt).segsAux = insertSegLst sp.segsAux k.segment k.size := by rw [ServicePoint.addDados, hinsert]
  have hseq : (sp.addDados pkt).seqNumR = sp.seqNumR := by rw [ServicePoint.addDados, hinsert, hR]
  have hassembles : Assembles q ks (sp.addDados pkt) returned c :=
    { start := h.start
      dados := h.dados
      bytes := by rw [hsegs]; exact h.bytes
      seqNumR := by rw [hseq]; exact h.seqNumR
      aux := by
        intro e he
        rw [haux] at he
        rcases mem_insertSegLst he with he | rfl
        · exact h.aux e he
        · exact ⟨k, hk, hflags, rfl, rfl⟩
      auxNext := by
        intro e he
        rw [haux] at he
        rcases mem_insertSegLst he with he | rfl
        · exact h.auxNext e he
        · rw [← h.seqNumR]
          exact hne
      auxWrap := by
        intro hc e he
        rw [haux] at he
        rcases mem_insertSegLst he with he | rfl
        · exact h.auxWrap hc e he
        · have hRq : sp.seqNumR = q + packSize c := by rw [h.seqNumR]; exact seqAt_of_lt hc
          show q ≤ k.segment.seqNum
          omega }
  refine ⟨hassembles, Or.inr ?_, ?_⟩
  · obtain ⟨e, he, hseqe⟩ := exists_insertSegLst sp.segsAux k.segment k.size
    rw [← haux] at he
    obtain ⟨k', hk', -, hsegm, -⟩ := hassembles.aux e he
    obtain rfl : k' = k := hnum.eq_of_seqNum_eq hq hsum hk' hk (by rw [← hsegm, hseqe])
    exact ⟨e, he, hsegm⟩
  · rintro segment (hc | ⟨e, he, hsegm⟩)
    · exact Or.inl hc
    · exact Or.inr ⟨e, by rw [haux]; exact subset_insertSegLst _ _ _ he, hsegm⟩

/-- The packs moved join those taken. -/
theorem AssemblyAux.Moved.assembles {k : SendSegment} {r : List SegLst × List SegLst × Nat} {m : List SendSegment}
    (hm : Moved q ks c [k] sp.segsAux r m) (h : Assembles q ks sp returned c) (hflags : k.segment.flags = .dados)
    (hlength : k.segment.data.length = k.size) (hsegs : sp'.segs = sp.segs ++ { segm := k.segment, size := k.size } :: r.1)
    (haux : sp'.segsAux = r.2.1) (hseq : sp'.seqNumR = seqNumAfter q (c ++ ([k] ++ m))) :
    Assembles q ks sp' returned (c ++ ([k] ++ m)) where
  start := hm.start
  dados := by
    intro k' hk'
    rcases List.mem_append.1 hk' with hk' | hk'
    · exact h.dados k' hk'
    · rcases List.mem_cons.1 hk' with rfl | hk'
      · exact hflags
      · exact hm.dados k' hk'
  bytes := by
    have hdata : k.segment.data.take k.size = k.segment.data := by rw [← hlength, List.take_length]
    rw [hsegs, segBytes_append, segBytes_cons, ← List.append_assoc, h.bytes, hm.bytes, hdata, packBytes_append, packBytes_append]
    simp [packBytes]
  seqNumR := hseq
  aux := by
    intro e he
    rw [haux] at he
    exact h.aux e (hm.left e he)
  auxNext := by
    intro e he
    rw [haux] at he
    exact hm.next e he
  auxWrap := by
    intro hc e he
    rw [haux] at he
    rw [packSize_append] at hc
    exact h.auxWrap (by omega) e (hm.left e he)

/-- The next segment goes to `segs`, and what follows it from `segs_aux` after it. -/
theorem Assembles.addNext (h : Assembles q ks sp returned c) (hq : q < maxSeqNum) (hnum : Numbered q ks)
    (hsum : packSize ks < maxSeqNum) {pkt : Packet} {k : SendSegment} (hk : k ∈ ks) (hflags : k.segment.flags = .dados)
    (hsegment : pkt.segment = k.segment) (hsize : pkt.dataSize = k.size) (heq : k.segment.seqNum = sp.seqNumR) :
    ∃ c', Assembles q ks (sp.addDados pkt) returned c' ∧ HasArrived (sp.addDados pkt) c' k.segment ∧
      ∀ segment, HasArrived sp c segment → HasArrived (sp.addDados pkt) c' segment := by
  have hR : sp.seqNumR < maxSeqNum := by
    rw [h.seqNumR]
    exact seqNumAfter_lt hq (Nat.lt_of_le_of_lt (packSize_mono h.start) hsum)
  have hstart : c ++ [k] <+: ks := hnum.prefix_concat hq hsum h.start hk (heq.trans h.seqNumR)
  have hk32 : u32 k.size = packSize [k] := by
    have := packSize_mono hstart
    rw [packSize_append] at this
    rw [packSize_cons, packSize_nil] at *
    apply u32_of_lt
    unfold maxSeqNum at hsum
    omega
  obtain ⟨m, hm⟩ := AssemblyAux.moveNext_moved hq hnum hsum sp.segsAux.length sp.segsAux [k] (Nat.le_refl _) hstart
    (by rw [← h.seqNumR]; exact hR) h.aux h.auxWrap
  have hinsert : insertSeg sp.segs sp.segsAux pkt.segment pkt.dataSize sp.seqNumR =
      (sp.segs ++ { segm := k.segment, size := k.size } ::
          (moveNext sp.segsAux.length sp.segsAux ((seqNumAfter q c + packSize [k]) % maxSeqNum) (packSize [k])).1,
        (moveNext sp.segsAux.length sp.segsAux ((seqNumAfter q c + packSize [k]) % maxSeqNum) (packSize [k])).2) := by
    rw [insertSeg, hsegment, hsize, if_pos heq, hk32, h.seqNumR, packSize_cons, packSize_nil, Nat.add_zero]
  generalize moveNext sp.segsAux.length sp.segsAux ((seqNumAfter q c + packSize [k]) % maxSeqNum) (packSize [k]) = r at hm hinsert
  have hsegs : (sp.addDados pkt).segs = sp.segs ++ { segm := k.segment, size := k.size } :: r.1 := by
    rw [ServicePoint.addDados, hinsert]
  have haux : (sp.addDados pkt).segsAux = r.2.1 := by rw [ServicePoint.addDados, hinsert]
  have hseq : (sp.addDados pkt).seqNumR = seqNumAfter q (c ++ ([k] ++ m)) := by
    have hnext : (sp.addDados pkt).seqNumR = nextSeqNum sp.seqNumR r.2.2 := by rw [ServicePoint.addDados, hinsert]
    rw [hnext, hm.ret, seqNumAfter_append, ← h.seqNumR]
    exact (seqAt_eq_next hR (by rw [h.seqNumR]; exact hm.dropLast)).symm
  have hassembles := hm.assembles h hflags (hnum.length k hk) hsegs haux hseq
  have hmem : k ∈ c ++ ([k] ++ m) := by simp
  refine ⟨c ++ ([k] ++ m), hassembles, Or.inl ⟨k, hmem, rfl⟩, ?_⟩
  rintro segment (⟨k', hk', hsegm⟩ | ⟨e, he, hsegm⟩)
  · exact Or.inl ⟨k', List.mem_append_left _ hk', hsegm⟩
  · rcases hm.moved e he with he | ⟨k', hk', hsegm'⟩
    · exact Or.inr ⟨e, by rw [haux]; exact he, hsegm⟩
    · exact Or.inl ⟨k', List.mem_append_right _ (List.mem_append_right _ hk'), by rw [hsegm', hsegm]⟩

/-- The next pack is not at the receiver. -/
theorem Assembles.not_hasArrived (h : Assembles q ks sp returned c) (hq : q < maxSeqNum) (hnum : Numbered q ks)
    (hsum : packSize ks < maxSeqNum) {k : SendSegment} (hnext : c ++ [k] <+: ks) : ¬ HasArrived sp c k.segment := by
  obtain ⟨r, hr⟩ := hnext
  have hsplit : ks = c ++ k :: r := by rw [← hr, List.append_assoc, List.singleton_append]
  have hseq := hnum.seqNum c k r hsplit
  rintro (⟨k', hk', hsegment⟩ | ⟨e, he, hsegm⟩)
  · obtain ⟨l, r', rfl⟩ := List.append_of_mem hk'
    have hl : l <+: l ++ k' :: r' := List.prefix_append _ _
    have hseq' := hnum.seqNum l k' (r' ++ k :: r) (by rw [hsplit]; simp)
    rw [hsegment, hseq] at hseq'
    have heq : l ++ k' :: r' = l := prefix_eq_of_seqAt_eq hq hnum.pos hsum h.start (hl.trans h.start) hseq'
    simp at heq
  · exact h.auxNext e he (by rw [hsegm, hseq])

/-- Data of the stream that is not before `seq_num_r` is added to what the receiver has. -/
theorem Assembles.addDados (h : Assembles q ks sp returned c) (hq : q < maxSeqNum) (hnum : Numbered q ks)
    (hsum : packSize ks < maxSeqNum) {pkt : Packet} {k : SendSegment} (hk : k ∈ ks) (hflags : k.segment.flags = .dados)
    (hsegment : pkt.segment = k.segment) (hsize : pkt.dataSize = k.size) (hle : sp.seqNumR ≤ k.segment.seqNum) :
    ∃ c', Assembles q ks (sp.addDados pkt) returned c' ∧ HasArrived (sp.addDados pkt) c' k.segment ∧
      ∀ segment, HasArrived sp c segment → HasArrived (sp.addDados pkt) c' segment := by
  by_cases heq : k.segment.seqNum = sp.seqNumR
  · exact h.addNext hq hnum hsum hk hflags hsegment hsize heq
  · exact ⟨c, h.addLater hq hnum hsum hk hflags hsegment hsize hle heq⟩

end Assembles

end NetworkLayers
