import NetworkLayers.Lemmas.NetList
import NetworkLayers.Lemmas.Frag

/-!
# Reassembly: what becomes of the fragments of one packet

While the fragments of an entry are a finite list (`Holds`), a datagram that follows none of them but the last is linked behind
the last one (`insertoffset_grows`). One that follows an earlier fragment ruins the entry for good: its fragments no longer come
to an end (`insertoffset_ruins`), whatever is inserted afterwards (`insertoffset_ruined`), and `getpack` does not return
(`getpack_ruined`).
-/

namespace NetworkLayers

open Cells Tiling

/-! ## `addoffset` on the fragments of an entry -/

/-- Where the walk of `addoffset` ends on a finite list. -/
theorem seek_fragments {cells : Store Datagram} {head : Nat} {l : List (Nat × Datagram)} (h : Chain cells (some head) l)
    (d : Datagram) :
    ∃ l₁ x l₂, l = l₁ ++ x :: l₂ ∧
      seek (follows d) cells cells.length none head = some ((l₁.getLast?.map Prod.fst).or none, x.1) ∧
      (∀ y ∈ l₁, follows d y.2 = false) ∧ (l₂ = [] ∨ follows d x.2 = true) :=
  seek_chain h h.length_le

/-- A datagram that follows none of the fragments but the last one is linked behind the last one, unless that has its offset. -/
theorem addoffset_unmatched {cells : Store Datagram} {offs : Option Nat} {d : Datagram} {l : List (Nat × Datagram)}
    {last : Nat × Datagram} (h : Chain cells offs (l ++ [last])) (hno : ∀ y ∈ l, follows d y.2 = false) :
    addoffset cells offs d =
      if last.2.offset ≠ d.offset then .ok (setNext cells last.1 (some cells.length) ++ [⟨d, none⟩], offs, true)
      else .ok (cells, offs, false) := by
  obtain ⟨head, rfl⟩ : ∃ head, offs = some head := by
    cases l with
    | nil => exact ⟨_, h.head.1⟩
    | cons x l => exact ⟨_, h.head.1⟩
  obtain ⟨l₁, x, l₂, hl, hseek, -, hend⟩ := seek_fragments h d
  obtain rfl : l₂ = [] := by
    rcases hend with hend | hstop
    · exact hend
    · by_contra hne
      obtain ⟨l₃, z, rfl⟩ := (List.eq_nil_or_concat' l₂).resolve_left hne
      have hl' : l ++ [last] = (l₁ ++ x :: l₃) ++ [z] := by simpa using hl
      have hinit : l = l₁ ++ x :: l₃ := (List.append_inj' hl' rfl).1
      rw [hno x (by simp [hinit])] at hstop
      cases hstop
  obtain ⟨rfl, hx⟩ := List.append_inj' hl rfl
  obtain rfl : last = x := by simpa using hx
  obtain ⟨c, hc, hval, hnext⟩ := h.get_of_append
  have hnone : c.next = none := by
    cases hn : c.next with
    | none => rfl
    | some b =>
      rw [hn] at hnext
      cases hnext
  simp only [addoffset, hseek, hc, hnone, if_true, hval]

/-- A datagram that is not linked has the offset of a fragment that is held. -/
theorem addoffset_not_added {cells cells' : Store Datagram} {offs offs' : Option Nat} {d : Datagram} {l : List (Nat × Datagram)}
    (h : Chain cells offs l) (hr : addoffset cells offs d = .ok (cells', offs', false)) : ∃ y ∈ l, y.2.offset = d.offset := by
  rcases addoffset_cases hr with ⟨-, -, -, hadded⟩ | ⟨head, prev, aux, last, rfl, -, hseek, hlast, hcase⟩
  · cases hadded
  · obtain ⟨haux, -, -⟩ := seek_spec hseek
    obtain ⟨y, hy, rfl⟩ := List.mem_map.1 (h.reaches_iff.1 haux)
    obtain ⟨l₁, l₂, rfl⟩ := List.append_of_mem hy
    obtain ⟨c, hc, hval, -⟩ := h.get_of_append
    obtain rfl := Option.some.inj (hlast.symm.trans hc)
    rcases hcase with ⟨-, -, hadded, -⟩ | ⟨-, hoff, -, -⟩ | ⟨-, hadded, -⟩
    · cases hadded
    · exact ⟨y, hy, hval ▸ hoff⟩
    · cases hadded

/-- A datagram that follows a fragment with another behind it leaves fragments without an end, when the call returns. -/
theorem addoffset_matched {cells : Store Datagram} {offs : Option Nat} {d : Datagram} {l : List (Nat × Datagram)}
    (h : Chain cells offs l) (hmatch : ∃ y ∈ l.dropLast, follows d y.2 = true) {r : Store Datagram × Option Nat × Bool}
    (hr : addoffset cells offs d = .ok r) : Endless r.1 r.2.1 := by
  obtain ⟨head, rfl⟩ : ∃ head, offs = some head := by
    cases l with
    | nil => simp at hmatch
    | cons x l => exact ⟨_, h.head.1⟩
  obtain ⟨l₁, x, l₂, rfl, hseek, hpass, hend⟩ := seek_fragments h d
  obtain ⟨c, hc, hval, hnext⟩ := h.get_of_append
  -- the walk ended before the last fragment, since it would not have passed the one that matches
  have hne : l₂ ≠ [] := by
    rintro rfl
    obtain ⟨y, hy, hfol⟩ := hmatch
    rw [List.dropLast_concat] at hy
    rw [hpass y hy] at hfol
    cases hfol
  have hsome : c.next ≠ none := by
    intro hn
    rw [hn] at hnext
    cases hnext
    exact hne rfl
  rcases List.eq_nil_or_concat' l₁ with rfl | ⟨l₁', q, rfl⟩
  · -- at the first fragment there is none before it
    simp [addoffset, hseek, hc, hsome] at hr
  · rw [List.append_assoc] at h
    obtain ⟨cq, hcq, hvalq, hnextq⟩ : ∃ c, cells[q.1]? = some c ∧ c.val = q.2 ∧ Chain cells c.next (x :: l₂) :=
      h.get_of_append
    have hqx : q.1 ≠ x.1 := by
      intro he
      have hnd := h.nodup
      simp [he, List.nodup_append] at hnd
    have hbefore : (setNext cells x.1 (some cells.length))[q.1]? = some cq := by
      rw [get_setNext, if_neg hqx, hcq]
    have hlast : ((l₁' ++ [q]).getLast?.map Prod.fst).or none = some q.1 := by simp
    rw [hlast] at hseek
    simp only [addoffset, hseek, hc, hsome, if_false, hbefore, length_setNext, Except.ok.injEq] at hr
    rw [← hr, hnextq.head.1]
    exact Chain.loop d h

/-- Fragments without an end stay so. -/
theorem addoffset_endless {cells cells' : Store Datagram} {offs offs' : Option Nat} {d : Datagram} {added : Bool}
    (h : Endless cells offs) (hr : addoffset cells offs d = .ok (cells', offs', added)) : Endless cells' offs' := by
  rcases addoffset_cases hr with ⟨rfl, -⟩ | ⟨head, prev, aux, last, rfl, rfl, hseek, hlast, hcase⟩
  · exact absurd rfl h.1
  · obtain ⟨haux, -, -⟩ := seek_spec hseek
    obtain ⟨c, hc, hsome⟩ := h.2 aux haux
    rw [hlast] at hc
    cases hc
    rcases hcase with ⟨hn, -⟩ | ⟨hn, -⟩ | ⟨-, -, p, before, rfl, hbefore, rfl⟩
    · exact absurd hn hsome
    · exact absurd hn hsome
    · refine ⟨h.1, ?_⟩
      intro a ha
      have hbsome : before.next ≠ none := by
        obtain ⟨-, -, hprev⟩ := seek_spec hseek
        rcases hprev with ⟨hp, -⟩ | ⟨q, cq, hq, -, hcq, hnq⟩
        · cases hp
        · cases hq
          rw [get_setNext, hcq] at hbefore
          split at hbefore
          · cases hbefore
            simp
          · cases hbefore
            simp [hnq]
      have hlink : ∀ (st : Store Datagram) (b : Nat) (v : Option Nat), v ≠ none → (∃ c, st[a]? = some c ∧ c.next ≠ none) →
          ∃ c, (setNext st b v)[a]? = some c ∧ c.next ≠ none := by
        rintro st b v hv ⟨c, hc, hn⟩
        rw [get_setNext, hc]
        split
        · exact ⟨_, rfl, hv⟩
        · exact ⟨_, rfl, hn⟩
      refine hlink _ _ _ (by simp) ?_
      rw [get_alloc, length_setNext]
      rcases addoffset_reaches hr ha with hold | rfl
      · obtain ⟨c, hc, hn⟩ := h.2 a hold
        rw [if_neg (lt_of_get hc).ne]
        exact hlink _ _ _ (by simp) ⟨c, hc, hn⟩
      · rw [if_pos rfl]
        exact ⟨_, rfl, hbsome⟩

/-! ## The entry of a packet -/

/-- The entry `e` is the one of its packet, and its fragments are the datagrams `vs` in this order. -/
def Holds (s : RecvList) (e : PackLst) (vs : List Datagram) : Prop :=
  getid s.packs e.id e.src = some e ∧ ∃ l, Chain s.cells e.offs l ∧ l.map Prod.snd = vs

/-- The fragments of the packet do not come to an end. -/
def Ruined (s : RecvList) (id src : Nat) : Prop := ∃ e, getid s.packs id src = some e ∧ Endless s.cells e.offs

/-- An entry holds one list of fragments. -/
theorem Holds.unique {s : RecvList} {e : PackLst} {vs vs' : List Datagram} (h : Holds s e vs) (h' : Holds s e vs') :
    vs = vs' := by
  obtain ⟨-, l, hl, rfl⟩ := h
  obtain ⟨-, l', hl', rfl⟩ := h'
  rw [hl.unique hl']

/-- The datagram is one of the packet of the entry. -/
def PackLst.Takes (e : PackLst) (d : Datagram) : Prop := e.id = d.id ∧ e.src = d.src

/-- The first datagram of a packet opens its entry, unless another packet is pending and it is a last fragment. -/
theorem insertoffset_first {s : RecvList} {d : Datagram} (hg : getid s.packs d.id d.src = none) :
    insertoffset s d =
        (if s.packs ≠ [] ∧ islastfrag d = true then .error .nullDeref else
          .ok (⟨s.cells ++ [⟨d, none⟩], freshEntry s.cells d :: s.packs⟩,
            (freshEntry s.cells d).totalSize == (freshEntry s.cells d).countSize)) ∧
      Holds ⟨s.cells ++ [⟨d, none⟩], freshEntry s.cells d :: s.packs⟩ (freshEntry s.cells d) [d] := by
  have hfor := freshEntry_isFor s.cells d
  obtain ⟨hid, hsrc⟩ := isFor_iff.1 hfor
  refine ⟨?_, ?_, [(s.cells.length, d)], ?_, rfl⟩
  · by_cases hnil : s.packs = []
    · obtain ⟨cells, packs⟩ := s
      obtain rfl : packs = [] := hnil
      rw [insertoffset_nil]
      simp
    · rw [insertoffset_new hnil hg]
      simp [hnil]
  · rw [hid, hsrc]
    simp [getid, hfor]
  · have hoffs : (freshEntry s.cells d).offs = some s.cells.length := by
      unfold freshEntry
      split <;> rfl
    have hget : (s.cells ++ [⟨d, none⟩])[s.cells.length]? = some (⟨d, none⟩ : Cell Datagram) := by
      rw [get_alloc, if_pos rfl]
    rw [hoffs]
    exact Chain.cons hget Chain.nil

theorem getid_grownEntry {packs : List PackLst} {e : PackLst} (hg : getid packs e.id e.src = some e) (offs : Option Nat)
    (d : Datagram) : getid (setEntry packs (grownEntry e offs d)) e.id e.src = some (grownEntry e offs d) := by
  obtain ⟨h1, h2⟩ := grownEntry_key e offs d
  rw [← h1, ← h2] at hg ⊢
  exact getid_setEntry hg

theorem grownEntry_offs (e : PackLst) (offs : Option Nat) (d : Datagram) : (grownEntry e offs d).offs = offs := by
  unfold grownEntry
  split <;> rfl

/-- A datagram of the packet that follows none of the fragments but the last one is linked behind them. -/
theorem insertoffset_grows {s : RecvList} {e : PackLst} {vs : List Datagram} {last d : Datagram}
    (h : Holds s e (vs ++ [last])) (hkey : e.Takes d) (hno : ∀ f ∈ vs, follows d f = false)
    (hoff : last.offset ≠ d.offset) :
    ∃ s', insertoffset s d =
        .ok (s', (grownEntry e e.offs d).totalSize == (grownEntry e e.offs d).countSize) ∧
      Holds s' (grownEntry e e.offs d) (vs ++ [last, d]) := by
  obtain ⟨hg, l, hl, hvs⟩ := h
  obtain ⟨l₁, l₂, rfl, rfl, hl₂⟩ := List.map_eq_append_iff.1 hvs
  obtain ⟨x, rfl, rfl⟩ : ∃ x, l₂ = [x] ∧ x.2 = last := by simpa [List.map_eq_cons_iff] using hl₂
  have hadd := addoffset_unmatched hl fun y hy => hno y.2 (List.mem_map_of_mem hy)
  rw [if_pos hoff] at hadd
  rw [hkey.1, hkey.2] at hg
  refine ⟨_, by rw [insertoffset_known hg, hadd]; rfl, ?_, l₁ ++ [x, (s.cells.length, d)], ?_, ?_⟩
  · obtain ⟨h1, h2⟩ := grownEntry_key e e.offs d
    rw [← hkey.1, ← hkey.2] at hg
    rw [h1, h2]
    exact getid_grownEntry hg e.offs d
  · rw [grownEntry_offs]
    exact hl.snoc d
  · simp

/-- A datagram of the packet that follows none of the fragments but the last one, and has the offset of that, changes nothing. -/
theorem insertoffset_same {s : RecvList} {e : PackLst} {vs : List Datagram} {last d : Datagram}
    (h : Holds s e (vs ++ [last])) (hkey : e.Takes d) (hno : ∀ f ∈ vs, follows d f = false)
    (hoff : last.offset = d.offset) : insertoffset s d = .ok (s, false) := by
  obtain ⟨hg, l, hl, hvs⟩ := h
  obtain ⟨l₁, l₂, rfl, rfl, hl₂⟩ := List.map_eq_append_iff.1 hvs
  obtain ⟨x, rfl, rfl⟩ : ∃ x, l₂ = [x] ∧ x.2 = last := by simpa [List.map_eq_cons_iff] using hl₂
  have hadd := addoffset_unmatched hl fun y hy => hno y.2 (List.mem_map_of_mem hy)
  rw [if_neg (not_not.2 hoff)] at hadd
  rw [hkey.1, hkey.2] at hg
  rw [insertoffset_known hg, hadd]
  rfl

/-- A datagram of the packet with an offset that none of the fragments has is counted, when the call returns. -/
theorem insertoffset_counts {s s' : RecvList} {e : PackLst} {vs : List Datagram} {d : Datagram} {b : Bool}
    (h : Holds s e vs) (hkey : e.Takes d) (hnew : ∀ v ∈ vs, v.offset ≠ d.offset) (hr : insertoffset s d = .ok (s', b)) :
    ∃ offs, getid s'.packs e.id e.src = some (grownEntry e offs d) ∧
      b = ((grownEntry e offs d).totalSize == (grownEntry e offs d).countSize) := by
  obtain ⟨hg, l, hl, rfl⟩ := h
  have hgd := hg
  rw [hkey.1, hkey.2] at hgd
  rw [insertoffset_known hgd] at hr
  cases ha : addoffset s.cells e.offs d with
  | error f => simp [ha, Except.bind] at hr
  | ok r =>
    obtain ⟨cells', offs', added⟩ := r
    simp only [ha, Except.bind] at hr
    split at hr
    · obtain ⟨rfl, rfl⟩ := Prod.mk.inj (Except.ok.inj hr)
      exact ⟨offs', getid_grownEntry hg offs' d, rfl⟩
    · rename_i hadded
      obtain rfl : added = false := by simpa using hadded
      obtain ⟨y, hy, hoff⟩ := addoffset_not_added hl ha
      exact absurd hoff (hnew y.2 (List.mem_map_of_mem hy))

/-- A datagram of the packet that follows a fragment with another behind it ruins the entry, when the call returns. -/
theorem insertoffset_ruins {s s' : RecvList} {e : PackLst} {vs : List Datagram} {d : Datagram} {b : Bool}
    (h : Holds s e vs) (hkey : e.Takes d) (hmatch : ∃ f ∈ vs.dropLast, follows d f = true)
    (hr : insertoffset s d = .ok (s', b)) : Ruined s' d.id d.src := by
  obtain ⟨hg, l, hl, rfl⟩ := h
  have hmatch' : ∃ y ∈ l.dropLast, follows d y.2 = true := by
    obtain ⟨f, hf, hfol⟩ := hmatch
    rw [← List.map_dropLast] at hf
    obtain ⟨y, hy, rfl⟩ := List.mem_map.1 hf
    exact ⟨y, hy, hfol⟩
  have hgd := hg
  rw [hkey.1, hkey.2] at hgd
  rw [insertoffset_known hgd] at hr
  cases ha : addoffset s.cells e.offs d with
  | error f => simp [ha, Except.bind] at hr
  | ok r =>
    have hend := addoffset_matched hl hmatch' ha
    obtain ⟨cells', offs', added⟩ := r
    simp only [ha, Except.bind] at hr
    split at hr
    · obtain ⟨rfl, -⟩ := Prod.mk.inj (Except.ok.inj hr)
      refine ⟨grownEntry e offs' d, ?_, by rw [grownEntry_offs]; exact hend⟩
      rw [← hkey.1, ← hkey.2]
      exact getid_grownEntry hg offs' d
    · obtain ⟨rfl, -⟩ := Prod.mk.inj (Except.ok.inj hr)
      rcases addoffset_head ha with ⟨-, hnone⟩ | ⟨rfl, -⟩
      · rw [hnone] at hl
        cases hl
        simp at hmatch'
      · exact ⟨e, hgd, hend⟩

/-- A ruined entry stays ruined. -/
theorem insertoffset_ruined {s s' : RecvList} {d : Datagram} {b : Bool} (h : Ruined s d.id d.src)
    (hr : insertoffset s d = .ok (s', b)) : Ruined s' d.id d.src := by
  obtain ⟨e, hg, hend⟩ := h
  obtain ⟨-, hid, hsrc⟩ := getid_some hg
  rw [insertoffset_known hg] at hr
  cases ha : addoffset s.cells e.offs d with
  | error f => simp [ha, Except.bind] at hr
  | ok r =>
    obtain ⟨cells', offs', added⟩ := r
    have hend' := addoffset_endless hend ha
    simp only [ha, Except.bind] at hr
    split at hr
    · obtain ⟨rfl, -⟩ := Prod.mk.inj (Except.ok.inj hr)
      refine ⟨grownEntry e offs' d, ?_, by rw [grownEntry_offs]; exact hend'⟩
      rw [← hid, ← hsrc] at hg ⊢
      exact getid_grownEntry hg offs' d
    · obtain ⟨rfl, -⟩ := Prod.mk.inj (Except.ok.inj hr)
      rcases addoffset_head ha with ⟨-, hnone⟩ | ⟨rfl, -⟩
      · exact absurd hnone hend.1
      · exact ⟨e, hg, hend'⟩

/-! ## `getpack` -/

/-- The fragments of a finite list are copied one behind the other. -/
theorem copyFragments_chain {cells : Store Datagram} {total' fuel : Nat} {p : Option Nat} {l : List (Nat × Datagram)}
    (h : Chain cells p l) (hfuel : l.length ≤ fuel) (hsized : ∀ y ∈ l, y.2.data.length = y.2.size) {buf : List Byte}
    (hfit : buf.length + total Datagram.size (l.map Prod.snd) ≤ total') :
    copyFragments cells total' fuel buf p = .ok (buf ++ (l.map Prod.snd).flatMap Datagram.data) := by
  induction h generalizing fuel buf with
  | nil => simp [copyFragments]
  | @cons a c l hc _ ih =>
    obtain ⟨fuel, rfl⟩ : ∃ n, fuel = n + 1 := ⟨fuel - 1, by simp only [List.length_cons] at hfuel; omega⟩
    obtain ⟨h1, h2⟩ := List.forall_mem_cons.1 hsized
    have h1 : c.val.data.length = c.val.size := h1
    simp only [List.map_cons, total_cons] at hfit
    have hok : ¬(c.val.data.length < c.val.size ∨ total' < buf.length + c.val.size) := by omega
    have htake : c.val.data.take c.val.size = c.val.data := by
      rw [← h1, List.take_length]
    simp only [copyFragments, hc, hok, if_false, htake]
    rw [ih (by simpa using hfuel) h2 (by rw [List.length_append, h1]; omega)]
    simp

/-- Fragments without an end are never all copied. -/
theorem copyFragments_endless {cells : Store Datagram} {total' fuel : Nat} {p : Option Nat} (h : Endless cells p)
    (buf : List Byte) : ∃ f, copyFragments cells total' fuel buf p = .error f := by
  induction fuel generalizing p buf with
  | zero =>
    cases p with
    | none => exact absurd rfl h.1
    | some a => exact ⟨.endlessLoop, rfl⟩
  | succ fuel ih =>
    cases p with
    | none => exact absurd rfl h.1
    | some a =>
      obtain ⟨c, hc, -⟩ := h.2 a (Reaches.here a)
      simp only [copyFragments, hc]
      split
      · exact ⟨_, rfl⟩
      · exact ih (h.next hc) _

/-- `getpack` returns the bytes of the fragments, when they are as many as the packet has. -/
theorem getpack_holds {s : RecvList} {e : PackLst} {vs : List Datagram} (h : Holds s e vs)
    (hsized : ∀ x ∈ vs, x.data.length = x.size) (htotal : e.totalSize = total Datagram.size vs) :
    ∃ s', getpack s e.id e.src = .ok (s', some ((vs.flatMap Datagram.data).map some, e.totalSize)) := by
  obtain ⟨hg, l, hl, rfl⟩ := h
  have hcopy : copyFragments s.cells e.totalSize s.cells.length [] e.offs = .ok ((l.map Prod.snd).flatMap Datagram.data) := by
    rw [copyFragments_chain hl hl.length_le (fun y hy => hsized y.2 (List.mem_map_of_mem hy)) (by simp [htotal])]
    rfl
  have hlen : ((l.map Prod.snd).flatMap Datagram.data).length = e.totalSize := by
    rw [htotal, List.length_flatMap, total]
    congr 1
    exact List.map_congr_left hsized
  refine ⟨⟨s.cells, removeid s.packs e.id e.src⟩, ?_⟩
  simp only [getpack, hg, hcopy, bind, Except.bind, hlen, Nat.sub_self, List.replicate_zero, List.append_nil]

/-- `getpack` does not return on a ruined entry. -/
theorem getpack_ruined {s : RecvList} {id src : Nat} (h : Ruined s id src) : ∃ f, getpack s id src = .error f := by
  obtain ⟨e, hg, hend⟩ := h
  obtain ⟨f, hf⟩ : ∃ f, copyFragments s.cells e.totalSize s.cells.length [] e.offs = .error f := copyFragments_endless hend []
  exact ⟨f, by simp only [getpack, hg, hf, bind, Except.bind]⟩

end NetworkLayers
