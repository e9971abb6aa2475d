import NetworkLayers.Transport.Lists

/-!
# The lists of a service point

What `set_ack`, `is_set` and `in_seq` do to the list of acknowledgements, and what `is_next`, `insert_seg` and `recv_seg` do to
the lists of received segments.
-/

namespace NetworkLayers

/-- After `set_ack`, `is_set` answers 1 for the number set as well. -/
theorem isSet_setAck (l : List AckLst) (num m : Nat) : isSet (setAck l num) m = (decide (num = m) || isSet l m) := by
  induction l with
  | nil => simp [setAck, isSet]
  | cons a l ih =>
    unfold setAck
    split
    · rename_i ha
      subst ha
      by_cases hm : a.seqNum = m <;> simp [isSet, hm]
    · rename_i ha
      by_cases hm : a.seqNum = m
      · have hne : num ≠ m := fun h => ha (hm.trans h.symm)
        simp [isSet, hm, hne]
      · simp [isSet, hm, ih]

/-- `is_set` answers 0 only for a number in the list. -/
theorem exists_of_isSet_eq_false {l : List AckLst} {num : Nat} (h : isSet l num = false) : ∃ a ∈ l, a.seqNum = num := by
  induction l with
  | nil => cases h
  | cons a l ih =>
    by_cases ha : a.seqNum = num
    · exact ⟨a, List.mem_cons_self, ha⟩
    · simp only [isSet, if_neg ha] at h
      obtain ⟨b, hb, hnum⟩ := ih h
      exact ⟨b, List.mem_cons_of_mem _ hb, hnum⟩

/-- `set_ack` changes nothing of an entry but its flag. -/
theorem map_setAck {β : Type*} {f : AckLst → β} (hf : ∀ a, f { a with flag := true } = f a) (l : List AckLst) (num : Nat) :
    (setAck l num).map f = l.map f := by
  induction l with
  | nil => rfl
  | cons a l ih =>
    unfold setAck
    split
    · rw [List.map_cons, List.map_cons, hf]
    · rw [List.map_cons, List.map_cons, ih]

theorem map_seqNum_setAck (l : List AckLst) (num : Nat) : (setAck l num).map (·.seqNum) = l.map (·.seqNum) :=
  map_setAck (fun _ => rfl) l num

theorem length_setAck (l : List AckLst) (num : Nat) : (setAck l num).length = l.length := by
  have h := congrArg List.length (map_seqNum_setAck l num)
  simpa using h

/-- `in_seq` leaves the end of the list. -/
theorem inSeq_suffix (l : List AckLst) : (inSeq l).2 <:+ l := by
  induction l with
  | nil => exact List.suffix_refl _
  | cons a l ih =>
    unfold inSeq
    split
    · exact ih.trans (List.suffix_cons a l)
    · exact List.suffix_refl _

/-- What `in_seq` takes off the front of the list is what the rest stands for less. -/
theorem inSeq_add_sum (l : List AckLst) : (inSeq l).1 + ((inSeq l).2.map (·.size)).sum = (l.map (·.size)).sum := by
  induction l with
  | nil => rfl
  | cons a l ih =>
    unfold inSeq
    split
    · rw [List.map_cons, List.sum_cons, Nat.add_assoc, ih]
    · exact Nat.zero_add _

/-- An ACK for a number that is set already, or not in the list, changes nothing. -/
theorem setAck_of_isSet {l : List AckLst} {num : Nat} (h : isSet l num = true) : setAck l num = l := by
  induction l with
  | nil => rfl
  | cons a l ih =>
    unfold isSet at h
    unfold setAck
    split at h
    · rename_i ha
      rw [if_pos ha, ← h]
    · rename_i ha
      rw [if_neg ha, ih h]

/-- An ACK for a number that is not set sets one entry. -/
theorem filter_setAck_of_not_isSet {l : List AckLst} {num : Nat} (h : isSet l num = false) :
    (l.filter AckLst.flag).length < ((setAck l num).filter AckLst.flag).length := by
  induction l with
  | nil => cases h
  | cons a l ih =>
    unfold isSet at h
    unfold setAck
    split at h
    · rename_i ha
      rw [if_pos ha]
      simp [h]
    · rename_i ha
      rw [if_neg ha]
      cases hflag : a.flag <;> simp [hflag, ih h]

/-! ## The received segments -/

@[simp] theorem segBytes_nil : segBytes [] = [] := rfl

@[simp] theorem segBytes_cons (e : SegLst) (l : List SegLst) : segBytes (e :: l) = e.segm.data.take e.size ++ segBytes l :=
  List.flatMap_cons

@[simp] theorem segBytes_append (l l' : List SegLst) : segBytes (l ++ l') = segBytes l ++ segBytes l' := List.flatMap_append

/-- `recv_seg` takes bytes off the front, and loses none. -/
theorem recvSeg_bytes (l : List SegLst) (size : Nat) : (recvSeg l size).2 ++ segBytes (recvSeg l size).1 = segBytes l := by
  induction l generalizing size with
  | nil => rfl
  | cons e l ih =>
    unfold recvSeg
    split
    · rfl
    · split
      · rw [List.append_assoc, ih, segBytes_cons]
      · rename_i hlt
        have hsize : e.size = size + (e.size - size) := by omega
        rw [segBytes_cons, segBytes_cons, ← List.append_assoc, ← List.take_add, ← hsize]

/-- `is_next` finds nothing exactly when no entry has the number. -/
theorem isNext_eq_none_iff {l : List SegLst} {base : Nat} : isNext l base = none ↔ ∀ e ∈ l, e.segm.seqNum ≠ base := by
  induction l with
  | nil => simp [isNext]
  | cons e l ih =>
    by_cases he : e.segm.seqNum = base
    · simp [isNext, he]
    · simp [isNext, he, ih]

/-- What `is_next` finds has the number, and is taken out of the list. -/
theorem isNext_eq_some {l rest : List SegLst} {base : Nat} {e : SegLst} (h : isNext l base = some (e, rest)) :
    e.segm.seqNum = base ∧ ∃ l₁ l₂, l = l₁ ++ e :: l₂ ∧ rest = l₁ ++ l₂ := by
  induction l generalizing rest with
  | nil => cases h
  | cons a l ih =>
    unfold isNext at h
    split at h
    · rename_i ha
      obtain ⟨rfl, rfl⟩ := Prod.mk.inj (Option.some.inj h)
      exact ⟨ha, [], l, rfl, rfl⟩
    · obtain ⟨⟨e', rest'⟩, hfound, heq⟩ := Option.map_eq_some_iff.1 h
      obtain ⟨rfl, rfl⟩ := Prod.mk.inj heq
      obtain ⟨hseq, l₁, l₂, rfl, rfl⟩ := ih hfound
      exact ⟨hseq, a :: l₁, l₂, rfl, rfl⟩

/-- `insert_seg_lst` adds the segment at most. -/
theorem mem_insertSegLst {l : List SegLst} {seg : Segment} {size : Nat} {e : SegLst} (he : e ∈ insertSegLst l seg size) :
    e ∈ l ∨ e = { segm := seg, size := size } := by
  unfold insertSegLst at he
  split at he
  · exact Or.inl he
  · rcases List.mem_append.1 he with he | he
    · exact Or.inl he
    · exact Or.inr (List.mem_singleton.1 he)

/-- It keeps what was there. -/
theorem subset_insertSegLst (l : List SegLst) (seg : Segment) (size : Nat) : l ⊆ insertSegLst l seg size := by
  unfold insertSegLst
  split
  · exact List.Subset.refl _
  · exact List.subset_append_left _ _

/-- After it, an entry has the number of the segment. -/
theorem exists_insertSegLst (l : List SegLst) (seg : Segment) (size : Nat) :
    ∃ e ∈ insertSegLst l seg size, e.segm.seqNum = seg.seqNum := by
  unfold insertSegLst
  split
  · rename_i hany
    obtain ⟨e, he, hseq⟩ := List.any_eq_true.1 hany
    exact ⟨e, he, of_decide_eq_true hseq⟩
  · exact ⟨_, List.mem_append_right _ (List.mem_singleton_self _), rfl⟩

/-- `insert_seg` moves entries of `segs_aux`, and adds none. -/
theorem mem_moveNext {rounds count ret : Nat} {l : List SegLst} {e : SegLst}
    (he : e ∈ (moveNext rounds l count ret).1 ++ (moveNext rounds l count ret).2.1) : e ∈ l := by
  induction rounds generalizing l count ret with
  | zero => exact he
  | succ rounds ih =>
    unfold moveNext at he
    split at he
    · exact he
    · rename_i a rest hfound
      obtain ⟨-, l₁, l₂, rfl, rfl⟩ := isNext_eq_some hfound
      rcases List.mem_cons.1 he with rfl | he
      · exact List.mem_append_right _ List.mem_cons_self
      · rcases List.mem_append.1 (ih he) with he | he
        · exact List.mem_append_left _ he
        · exact List.mem_append_right _ (List.mem_cons_of_mem _ he)

/-- An entry after `insert_seg` was there before, or holds the segment. -/
theorem mem_insertSeg {lst lstAux : List SegLst} {seg : Segment} {size base : Nat} {e : SegLst}
    (he : e ∈ (insertSeg lst lstAux seg size base).1 ++ (insertSeg lst lstAux seg size base).2.1) :
    e ∈ lst ++ lstAux ∨ e.segm = seg := by
  unfold insertSeg at he
  split at he
  · rw [List.append_assoc, List.mem_append, List.cons_append, List.mem_cons] at he
    rcases he with he | rfl | he
    · exact Or.inl (List.mem_append_left _ he)
    · exact Or.inr rfl
    · exact Or.inl (List.mem_append_right _ (mem_moveNext he))
  · rcases List.mem_append.1 he with he | he
    · exact Or.inl (List.mem_append_left _ he)
    · rcases mem_insertSegLst he with he | rfl
      · exact Or.inl (List.mem_append_right _ he)
      · exact Or.inr rfl

end NetworkLayers
