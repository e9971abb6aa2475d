import NetworkLayers.Net.Receive
import NetworkLayers.Lemmas.Reassembly
import NetworkLayers.Theorems.Isolation

/-!
# When a packet is reported complete, and when its fragments add up to it

`insertoffset` compares the bytes counted with the size that a last fragment declares. Both are stated here of the list before the
call: which datagrams make it report their packet complete (`Completes`), and which of these leave fragments that fill the packet
(`AddsUp`), so that `getpack` returns bytes that were received and no others.
-/

namespace NetworkLayers

open Cells Tiling

/-- What holds of the list between the datagrams: the entries are apart, each has a fragment, and a fragment has as many bytes as
its size says. -/
structure RecvList.Sound (s : RecvList) : Prop where
  separate : s.Separate
  heads : ∀ e ∈ s.packs, e.offs ≠ none
  sized : ∀ c ∈ s.cells, c.val.data.length = c.val.size

/-- The datagram has the offset of the last fragment of the entry and follows none before it: `addoffset` returns FALSE. -/
def Repeats (s : RecvList) (e : PackLst) (d : Datagram) : Prop :=
  ∃ vs last, Holds s e (vs ++ [last]) ∧ (∀ f ∈ vs, follows d f = false) ∧ last.offset = d.offset

/-- The lists and datagrams on which `insertoffset` returns TRUE: the call returns, and counts as many bytes as the packet has. -/
def Completes (s : RecvList) (d : Datagram) : Prop :=
  Accepts s d ∧
    match getid s.packs d.id d.src with
    | none => (freshEntry s.cells d).totalSize = (freshEntry s.cells d).countSize
    | some e => ¬Repeats s e d ∧ (grownEntry e e.offs d).totalSize = (grownEntry e e.offs d).countSize

/-- The fragments held and the datagram fill the packet: none but the last is followed by the datagram, and their sizes add up to
that of the packet. For the transport layer it is no smaller than a header. -/
def AddsUp (s : RecvList) (d : Datagram) : Prop :=
  match getid s.packs d.id d.src with
  | none => d.forTransport → transportHeaderSize ≤ d.size
  | some e =>
    ∃ vs, Holds s e vs ∧ (∀ f ∈ vs.dropLast, follows d f = false) ∧
      total Datagram.size vs + d.size = (grownEntry e e.offs d).totalSize ∧
      (d.forTransport → transportHeaderSize ≤ (grownEntry e e.offs d).totalSize)

/-- What `getpack` returns of the packet of `d` was written to the last byte, and the transport layer reads its segment within
it. -/
def PackInBounds (s : RecvList) (d : Datagram) : Prop :=
  ∃ (s' : RecvList) (data : List Byte), getpack s d.id d.src = .ok (s', some (data.map some, data.length)) ∧
    (d.forTransport → ∃ r, rcvSegment data data.length = .ok r)

/-! ## `getpack` on fragments that do not fit -/

/-- Fragments with more bytes than the packet has are written beyond its buffer. -/
theorem copyFragments_overflows {cells : Store Datagram} {total' fuel : Nat} {p : Option Nat} {l : List (Nat × Datagram)}
    (h : Chain cells p l) {buf : List Byte} (hbuf : buf.length ≤ total')
    (hmore : total' < buf.length + total Datagram.size (l.map Prod.snd)) :
    ∃ f, copyFragments cells total' fuel buf p = .error f := by
  induction h generalizing fuel buf with
  | nil =>
    simp only [List.map_nil, total_nil, Nat.add_zero] at hmore
    omega
  | @cons a c l hc _ ih =>
    simp only [List.map_cons, total_cons] at hmore
    cases fuel with
    | zero => exact ⟨.endlessLoop, rfl⟩
    | succ fuel =>
      simp only [copyFragments, hc]
      split
      · exact ⟨_, rfl⟩
      · rename_i hfit
        refine ih ?_ ?_
        · rw [List.length_append, List.length_take]
          omega
        · rw [List.length_append, List.length_take]
          omega

/-- What `getpack` returns was written to the last byte only when the fragments are as large as the packet. -/
theorem total_of_getpack {s s' : RecvList} {e : PackLst} {vs : List Datagram} (h : Holds s e vs)
    (hsized : ∀ x ∈ vs, x.data.length = x.size) {data : List Byte}
    (hget : getpack s e.id e.src = .ok (s', some (data.map some, data.length))) :
    total Datagram.size vs = e.totalSize ∧ data.length = e.totalSize := by
  obtain ⟨hg, l, hl, rfl⟩ := h
  simp only [getpack, hg, bind, Except.bind] at hget
  rcases Nat.lt_or_ge e.totalSize (total Datagram.size (l.map Prod.snd)) with hmore | hle
  · obtain ⟨f, hf⟩ : ∃ f, copyFragments s.cells e.totalSize s.cells.length [] e.offs = .error f :=
      copyFragments_overflows hl (Nat.zero_le _) (by simpa using hmore)
    rw [hf] at hget
    cases hget
  · have hcopy : copyFragments s.cells e.totalSize s.cells.length [] e.offs = .ok ((l.map Prod.snd).flatMap Datagram.data) := by
      rw [copyFragments_chain hl hl.length_le (fun y hy => hsized y.2 (List.mem_map_of_mem hy)) (by simpa using hle)]
      rfl
    have hlen : ((l.map Prod.snd).flatMap Datagram.data).length = total Datagram.size (l.map Prod.snd) := by
      rw [List.length_flatMap, total]
      congr 1
      exact List.map_congr_left hsized
    rw [hcopy] at hget
    simp only [Except.ok.injEq, Prod.mk.injEq, Option.some.injEq] at hget
    obtain ⟨-, hbytes, hsize⟩ := hget
    refine ⟨?_, hsize.symm⟩
    -- a byte that was not written stands as `none` behind the others
    by_contra hne
    have hmem : (none : Option Byte) ∈ data.map some := by
      rw [← hbytes]
      refine List.mem_append_right _ (List.mem_replicate.2 ⟨?_, rfl⟩)
      rw [hlen]
      omega
    simp at hmem

/-! ## The list before the call -/

/-- The size of the packet and the bytes counted do not depend on where the fragments are. -/
theorem grownEntry_sizes (e : PackLst) (offs offs' : Option Nat) (d : Datagram) :
    (grownEntry e offs d).totalSize = (grownEntry e offs' d).totalSize ∧
      (grownEntry e offs d).countSize = (grownEntry e offs' d).countSize := by
  unfold grownEntry
  split <;> exact ⟨rfl, rfl⟩

/-- The fragments of an entry are a list that is not empty, or go on for good. -/
theorem RecvList.Sound.fragments {s : RecvList} (h : s.Sound) {id src : Nat} {e : PackLst} (hg : getid s.packs id src = some e) :
    (∃ vs last, Holds s e (vs ++ [last])) ∨ Endless s.cells e.offs := by
  obtain ⟨hmem, hid, hsrc⟩ := getid_some hg
  rcases chain_or_endless (h.separate.closed e hmem) with ⟨l, hl⟩ | hend
  · left
    have hg' : getid s.packs e.id e.src = some e := by
      rw [hid, hsrc]
      exact hg
    rcases List.eq_nil_or_concat' (l.map Prod.snd) with hnil | ⟨vs, last, hvs⟩
    · obtain rfl := List.map_eq_nil_iff.1 hnil
      cases hl' : e.offs with
      | none => exact absurd hl' (h.heads e hmem)
      | some a =>
        rw [hl'] at hl
        cases hl
    · exact ⟨vs, last, hg', l, hl, hvs⟩
  · exact Or.inr hend

/-- The fragments an entry holds have as many bytes as their sizes say. -/
theorem RecvList.Sound.sized_of_holds {s : RecvList} (h : s.Sound) {e : PackLst} {vs : List Datagram} (hv : Holds s e vs) :
    ∀ x ∈ vs, x.data.length = x.size := by
  obtain ⟨-, l, hl, rfl⟩ := hv
  intro x hx
  obtain ⟨y, hy, rfl⟩ := List.mem_map.1 hx
  obtain ⟨l₁, l₂, rfl⟩ := List.append_of_mem hy
  obtain ⟨c, hc, hval, -⟩ := hl.get_of_append
  rw [← hval]
  exact h.sized c (List.mem_of_getElem? hc)

/-- A datagram that `addoffset` does not link repeats the last fragment. -/
theorem repeats_of_not_added {s : RecvList} {e : PackLst} {d : Datagram} {cells' : Store Datagram} {offs' : Option Nat}
    (hg : getid s.packs e.id e.src = some e) (h : addoffset s.cells e.offs d = .ok (cells', offs', false)) : Repeats s e d := by
  rcases addoffset_cases h with ⟨-, -, -, hadded⟩ | ⟨head, prev, aux, last, hoffs, -, hseek, hlast, hcase⟩
  · cases hadded
  · rcases hcase with ⟨-, -, hadded, -⟩ | ⟨hnext, hoff, -, -⟩ | ⟨-, hadded, -⟩
    · cases hadded
    · obtain ⟨haux, -, -⟩ := seek_spec hseek
      obtain ⟨l, hl⟩ := haux.chain hlast hnext
      obtain ⟨l₁, x, l₂, rfl, hseek', hpass, -⟩ := seek_fragments hl d
      obtain ⟨rfl, rfl⟩ : prev = (l₁.getLast?.map Prod.fst).or none ∧ aux = x.1 :=
        Prod.mk.inj (Option.some.inj (hseek.symm.trans hseek'))
      obtain ⟨c, hc, hval, hrest⟩ := hl.get_of_append
      obtain rfl := Option.some.inj (hlast.symm.trans hc)
      rw [hnext] at hrest
      cases hrest
      refine ⟨l₁.map Prod.snd, x.2, ⟨hg, l₁ ++ [x], hoffs ▸ hl, by simp⟩, ?_, hval ▸ hoff⟩
      intro f hf
      obtain ⟨y, hy, rfl⟩ := List.mem_map.1 hf
      exact hpass y hy
    · cases hadded

/-! ## The packet is reported complete -/

/-- A datagram that opens its packet completes it when the call returns and the size it declares is the one counted. -/
theorem completes_new {s : RecvList} {d : Datagram} (hg : getid s.packs d.id d.src = none) :
    (∃ s', insertoffset s d = .ok (s', true)) ↔
      (∃ r, insertoffset s d = .ok r) ∧ (freshEntry s.cells d).totalSize = (freshEntry s.cells d).countSize := by
  rw [(insertoffset_first hg).1]
  split
  · simp
  · constructor
    · rintro ⟨s', hs'⟩
      exact ⟨⟨_, rfl⟩, by simpa using (Prod.mk.inj (Except.ok.inj hs')).2⟩
    · rintro ⟨-, hcount⟩
      exact ⟨⟨s.cells ++ [⟨d, none⟩], freshEntry s.cells d :: s.packs⟩, by simp [hcount]⟩

/-- A datagram of a packet with an entry completes it when the call returns, the datagram does not repeat the last fragment and the
size of the packet is the one counted. -/
theorem completes_known {s : RecvList} {d : Datagram} {e : PackLst} (hg : getid s.packs d.id d.src = some e) :
    (∃ s', insertoffset s d = .ok (s', true)) ↔ (∃ r, insertoffset s d = .ok r) ∧
      ¬Repeats s e d ∧ (grownEntry e e.offs d).totalSize = (grownEntry e e.offs d).countSize := by
  obtain ⟨-, hid, hsrc⟩ := getid_some hg
  have hins := insertoffset_known hg
  cases ha : addoffset s.cells e.offs d with
  | error f => simp [hins, ha, Except.bind]
  | ok r =>
    obtain ⟨cells', offs', added⟩ := r
    obtain ⟨htotal, hcount⟩ := grownEntry_sizes e e.offs offs' d
    simp only [ha, Except.bind] at hins
    rw [htotal, hcount]
    cases added with
    | false =>
      have hrepeats : Repeats s e d := repeats_of_not_added (by rw [hid, hsrc]; exact hg) ha
      simp [hins, hrepeats]
    | true =>
      constructor
      · rintro ⟨s', hs'⟩
        refine ⟨⟨_, hs'⟩, ?_, ?_⟩
        · rintro ⟨vs, last, hv, hno, hoff⟩
          rw [insertoffset_same hv ⟨hid, hsrc⟩ hno hoff] at hs'
          cases hs'
        · rw [hins] at hs'
          simpa using (Prod.mk.inj (Except.ok.inj hs')).2
      · rintro ⟨-, -, hcount'⟩
        exact ⟨⟨cells', setEntry s.packs (grownEntry e offs' d)⟩, by simp [hins, hcount']⟩

/-- `insertoffset` reports the packet complete exactly on the lists and datagrams described. -/
theorem completes_iff {s : RecvList} (h : s.Sound) (d : Datagram) :
    (∃ s', insertoffset s d = .ok (s', true)) ↔ Completes s d := by
  unfold Completes
  rw [← insertoffset_returns_iff h.separate d]
  cases hg : getid s.packs d.id d.src with
  | none => exact completes_new hg
  | some e => exact completes_known hg

/-! ## The packet stays in bounds -/

/-- A packet whose fragments are a list stays in bounds when they are as large as it is, and large enough for the transport
layer. -/
theorem packInBounds_iff {s : RecvList} {e : PackLst} {vs : List Datagram} {d : Datagram} (h : Holds s e vs) (hkey : e.Takes d)
    (hsized : ∀ x ∈ vs, x.data.length = x.size) :
    PackInBounds s d ↔ total Datagram.size vs = e.totalSize ∧ (d.forTransport → transportHeaderSize ≤ e.totalSize) := by
  simp only [PackInBounds, rcvSegment_ok_iff, ← hkey.1, ← hkey.2]
  constructor
  · rintro ⟨s', data, hget, hsize⟩
    obtain ⟨htotal, hlen⟩ := total_of_getpack h hsized hget
    exact ⟨htotal, hlen ▸ hsize⟩
  · rintro ⟨htotal, hsize⟩
    obtain ⟨s', hget⟩ := getpack_holds h hsized htotal.symm
    have hlen : (vs.flatMap Datagram.data).length = e.totalSize := by
      rw [← htotal, List.length_flatMap, total]
      congr 1
      exact List.map_congr_left hsized
    rw [← hlen] at hget hsize
    exact ⟨s', _, hget, hsize⟩

theorem not_packInBounds_of_ruined {s : RecvList} {d : Datagram} (h : Ruined s d.id d.src) : ¬PackInBounds s d := by
  rintro ⟨s', data, hget, -⟩
  obtain ⟨f, hf⟩ := getpack_ruined h
  rw [hf] at hget
  cases hget

/-- A datagram that opens and completes its packet is all of it. -/
theorem packInBounds_new {s s' : RecvList} {d : Datagram} (hg : getid s.packs d.id d.src = none) (hd : d.data.length = d.size)
    (hins : insertoffset s d = .ok (s', true)) : PackInBounds s' d ↔ (d.forTransport → transportHeaderSize ≤ d.size) := by
  obtain ⟨hfirst, hv⟩ := insertoffset_first hg
  obtain ⟨-, hcomplete⟩ := (completes_new hg).1 ⟨s', hins⟩
  have hsize : (freshEntry s.cells d).totalSize = d.size := by
    rw [hcomplete]
    unfold freshEntry
    split <;> rfl
  rw [hfirst] at hins
  split at hins
  · cases hins
  · obtain ⟨rfl, -⟩ := Prod.mk.inj (Except.ok.inj hins)
    rw [packInBounds_iff hv (isFor_iff.1 (freshEntry_isFor s.cells d)) (by simpa using hd), hsize]
    simp

/-- A datagram that completes a packet with an entry is in bounds with it when it follows none of the fragments but the last one,
and fills with them the size of the packet. -/
theorem packInBounds_known {s s' : RecvList} (h : s.Sound) {d : Datagram} {e : PackLst} (hg : getid s.packs d.id d.src = some e)
    (hd : d.data.length = d.size) (hins : insertoffset s d = .ok (s', true)) :
    PackInBounds s' d ↔ ∃ vs, Holds s e vs ∧ (∀ f ∈ vs.dropLast, follows d f = false) ∧
      total Datagram.size vs + d.size = (grownEntry e e.offs d).totalSize ∧
      (d.forTransport → transportHeaderSize ≤ (grownEntry e e.offs d).totalSize) := by
  obtain ⟨-, hid, hsrc⟩ := getid_some hg
  have hkey : e.Takes d := ⟨hid, hsrc⟩
  obtain ⟨-, hnew, -⟩ := (completes_known hg).1 ⟨s', hins⟩
  rcases h.fragments hg with ⟨vs, last, hv⟩ | hend
  · have huniq : ∀ vs', Holds s e vs' ↔ vs' = vs ++ [last] := fun vs' => ⟨fun hv' => hv'.unique hv, fun heq => heq ▸ hv⟩
    simp only [huniq, exists_eq_left, List.dropLast_concat]
    by_cases hno : ∀ f ∈ vs, follows d f = false
    · have hoff : last.offset ≠ d.offset := fun hoff => hnew ⟨vs, last, hv, hno, hoff⟩
      obtain ⟨t, ht, hheld⟩ := insertoffset_grows hv hkey hno hoff
      obtain ⟨rfl, -⟩ := Prod.mk.inj (Except.ok.inj (hins.symm.trans ht))
      have hsized : ∀ x ∈ vs ++ [last, d], x.data.length = x.size := by
        intro x hx
        rw [List.append_cons, List.mem_append] at hx
        rcases hx with hx | hx
        · exact h.sized_of_holds hv x hx
        · rw [List.mem_singleton.1 hx]
          exact hd
      obtain ⟨hid', hsrc'⟩ := grownEntry_key e e.offs d
      rw [packInBounds_iff hheld ⟨hid'.trans hid, hsrc'.trans hsrc⟩ hsized]
      simp only [total_append, total_cons, total_nil, Nat.add_zero, Nat.add_assoc]
      exact ⟨fun hfill => ⟨hno, hfill⟩, And.right⟩
    · -- the entry is ruined
      refine iff_of_false (not_packInBounds_of_ruined ?_) fun hall => hno hall.1
      push Not at hno
      obtain ⟨f, hf, hfol⟩ := hno
      exact insertoffset_ruins hv hkey ⟨f, by rwa [List.dropLast_concat], by simpa using hfol⟩ hins
  · refine iff_of_false (not_packInBounds_of_ruined (insertoffset_ruined ⟨e, hg, hend⟩ hins)) ?_
    rintro ⟨vs, ⟨-, l, hl, -⟩, -⟩
    exact hl.not_endless hend

/-- Where the packet is reported complete, it stays in bounds exactly when the fragments add up. -/
theorem addsUp_iff {s s' : RecvList} (h : s.Sound) {d : Datagram} (hd : d.data.length = d.size)
    (hins : insertoffset s d = .ok (s', true)) : PackInBounds s' d ↔ AddsUp s d := by
  unfold AddsUp
  cases hg : getid s.packs d.id d.src with
  | none => exact packInBounds_new hg hd hins
  | some e => exact packInBounds_known h hg hd hins

end NetworkLayers
