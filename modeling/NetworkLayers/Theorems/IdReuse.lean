import NetworkLayers.Net.PacketStream
import NetworkLayers.Theorems.Isolation
import NetworkLayers.Theorems.Reassembly

/-!
# Identifiers that come again

An entry stays in the list of the destination until its packet is complete, and nothing takes out one that will never be. When
`count_id` has gone round, a packet with the same identifier goes to that entry. As long as the entry is gone by then, an entry
holds the datagrams of one packet, and what is read back is what was sent.
-/

namespace NetworkLayers

open Cells Tiling Transition

/-- Every datagram that the pointer leads to is such a one. -/
def EachHeld (cells : Store Datagram) (offs : Option Nat) (P : Datagram → Prop) : Prop :=
  ∀ a c, Reaches cells offs a → cells[a]? = some c → P c.val

/-- No packet is mixed with another: an entry holds datagrams of one packet sent, and `getpack` has returned payloads of packets
sent. -/
structure Unmixed (s : PacketStream) : Prop where
  entries : ∀ e ∈ s.recv.packs, ∃ p ∈ s.sent, e.id = p.id ∧ EachHeld s.recv.cells e.offs (· ∈ p.pieces)
  returned : ∀ r ∈ s.returned, ∃ p ∈ s.sent, r = (p.payload.map some, p.payload.length)

/-- A packet that is sent is not too large for the offsets of its fragments, and when the first of its datagrams arrives no entry
is left with its identifier. -/
def FreshId (s : PacketStream) : StreamAction → Prop
  | .netSend _ payload _ _ => payload.length ≤ 32768
  | .lose _ => True
  | .arrive => ∀ x ∈ s.wire.head?, s.current ≠ some x.1 → getid s.recv.packs x.2.id x.2.src = none

instance FreshId.decidable (s : PacketStream) : ∀ a, Decidable (FreshId s a)
  | .netSend _ payload _ _ => inferInstanceAs (Decidable (payload.length ≤ 32768))
  | .lose _ => inferInstanceAs (Decidable True)
  | .arrive => inferInstanceAs (Decidable (∀ x ∈ s.wire.head?, s.current ≠ some x.1 → _))

namespace IdReuseAux

/-! ## One packet -/

/-- What is used of a packet that was sent. -/
structure PacketOk (src dest : Nat) (p : SentPacket) : Prop where
  pieces : Pieces p.payload 0 0 p.pieces
  short : p.payload.length ≤ 32768
  key : OfPacket p.id src dest p.pieces
  pos : 1 < p.pieces.length → ∀ x ∈ p.pieces, 0 < x.size

/-- The datagrams of a packet have increasing offsets. -/
theorem PacketOk.order {src dest : Nat} {p : SentPacket} (h : PacketOk src dest p) :
    p.pieces.Pairwise fun x y => x.offset < y.offset := by
  by_cases hone : 1 < p.pieces.length
  · exact (h.pieces.tiles.imp fun b x _ hx => hx.1).pairwise_lt (h.pos hone)
  · match hp : p.pieces with
    | [] => exact List.Pairwise.nil
    | [x] => exact List.pairwise_singleton _ _
    | x :: y :: l =>
      rw [hp] at hone
      simp at hone

/-- Datagrams of a packet in their order are some of them. -/
theorem PacketOk.exists_sublist {p : SentPacket} {vs : List Datagram} (hmem : ∀ v ∈ vs, v ∈ p.pieces)
    (horder : vs.Pairwise fun x y => x.offset < y.offset) :
    ∃ l : List Datagram, l.Perm vs ∧ l.Sublist p.pieces ∧ total Datagram.size l = total Datagram.size vs := by
  have hnodup : vs.Nodup := horder.imp fun hxy => by
    rintro rfl
    exact Nat.lt_irrefl _ hxy
  obtain ⟨l, hperm, hsub⟩ := List.subperm_of_subset hnodup hmem
  exact ⟨l, hperm, hsub, (hperm.map _).sum_eq⟩

theorem PacketOk.total_le {src dest : Nat} {p : SentPacket} (h : PacketOk src dest p) {vs : List Datagram}
    (hmem : ∀ v ∈ vs, v ∈ p.pieces) (horder : vs.Pairwise fun x y => x.offset < y.offset) :
    total Datagram.size vs ≤ p.payload.length := by
  obtain ⟨l, -, hsub, htotal⟩ := PacketOk.exists_sublist hmem horder
  rw [← htotal, ← h.pieces.total_eq]
  exact total_le_of_sublist hsub

/-- Only the datagram of a packet without payload is empty. -/
theorem PacketOk.payload_of_total_zero {src dest : Nat} {p : SentPacket} (h : PacketOk src dest p) {vs : List Datagram}
    (hne : vs ≠ []) (hmem : ∀ v ∈ vs, v ∈ p.pieces) (htotal : total Datagram.size vs = 0) : p.payload.length = 0 := by
  obtain ⟨v, vs, rfl⟩ := List.exists_cons_of_ne_nil hne
  have hv := hmem v List.mem_cons_self
  rw [total_cons] at htotal
  by_cases hone : 1 < p.pieces.length
  · have := h.pos hone v hv
    omega
  · obtain ⟨x, hx⟩ : ∃ x, p.pieces = [x] := by
      refine List.length_eq_one_iff.1 ?_
      have := List.length_pos_of_mem hv
      omega
    rw [hx, List.mem_singleton] at hv
    rw [← h.pieces.total_eq, hx, total_cons, total_nil, ← hv]
    omega

/-- Datagrams of a packet in their order that are as large as the packet are all of them. -/
theorem PacketOk.complete {src dest : Nat} {p : SentPacket} (h : PacketOk src dest p) {vs : List Datagram} (hne : vs ≠ [])
    (hmem : ∀ v ∈ vs, v ∈ p.pieces) (horder : vs.Pairwise fun x y => x.offset < y.offset)
    (htotal : total Datagram.size vs = p.payload.length) : vs = p.pieces := by
  obtain ⟨l, hperm, hsub, hsame⟩ := PacketOk.exists_sublist hmem horder
  have hl : l = p.pieces := by
    by_cases hone : 1 < p.pieces.length
    · exact eq_of_sublist_of_total hsub (h.pos hone) (by rw [h.pieces.total_eq, hsame, htotal])
    · refine hsub.eq_of_length_le ?_
      have := List.length_pos_of_ne_nil hne
      rw [hperm.length_eq]
      omega
  rw [hl] at hperm
  exact List.Perm.eq_of_pairwise (fun a b _ _ hab hba => absurd hab (Nat.lt_asymm hba)) horder h.order hperm.symm

/-- The datagram that is a last fragment tells the size of the packet. -/
theorem PacketOk.closedSize {src dest : Nat} {p : SentPacket} (h : PacketOk src dest p) {d : Datagram} (hd : d ∈ p.pieces)
    (hlast : islastfrag d = true) : closedSize d = p.payload.length := by
  obtain ⟨vs, ds, hsplit⟩ := List.append_of_mem hd
  have hp := h.pieces
  rw [hsplit] at hp
  by_cases hds : ds = []
  · subst hds
    exact (last_piece hp h.short).2
  · rw [not_last_piece hp hds] at hlast
    cases hlast

/-! ## One entry -/

/-- An entry for the packet `p`: it holds datagrams of the packet in their order and counts their bytes, and knows the size of the
packet or does not; or its list goes round in a circle. -/
inductive EntryOf (cells : Store Datagram) (e : PackLst) (p : SentPacket) : Prop where
  | held (l : List (Nat × Datagram)) (hchain : Chain cells e.offs l) (hne : l ≠ []) (hmem : ∀ y ∈ l, y.2 ∈ p.pieces)
      (horder : (l.map Prod.snd).Pairwise fun x y => x.offset < y.offset)
      (hcount : e.countSize = total Datagram.size (l.map Prod.snd))
      (htotal : e.totalSize = 0 ∨ e.totalSize = p.payload.length)
  | ruined (hend : Endless cells e.offs) (hmem : EachHeld cells e.offs (· ∈ p.pieces))

theorem eachHeld_chain {cells : Store Datagram} {offs : Option Nat} {l : List (Nat × Datagram)} (h : Chain cells offs l)
    {P : Datagram → Prop} : EachHeld cells offs P ↔ ∀ y ∈ l, P y.2 := by
  constructor
  · intro hheld y hy
    obtain ⟨l₁, l₂, rfl⟩ := List.append_of_mem hy
    obtain ⟨c, hc, hval, -⟩ := h.get_of_append
    rw [← hval]
    exact hheld y.1 c (h.reaches_iff.2 (List.mem_map_of_mem hy)) hc
  · intro hmem a c ha hc
    obtain ⟨y, hy, rfl⟩ := List.mem_map.1 (h.reaches_iff.1 ha)
    obtain ⟨l₁, l₂, rfl⟩ := List.append_of_mem hy
    obtain ⟨c', hc', hval, -⟩ := h.get_of_append
    obtain rfl := Option.some.inj (hc.symm.trans hc')
    rw [hval]
    exact hmem y hy

theorem EntryOf.eachHeld {cells : Store Datagram} {e : PackLst} {p : SentPacket} (h : EntryOf cells e p) :
    EachHeld cells e.offs (· ∈ p.pieces) := by
  cases h with
  | held l hchain _ hmem _ _ _ => exact (eachHeld_chain hchain).2 hmem
  | ruined _ hmem => exact hmem

/-- What is written elsewhere does not matter. -/
theorem EntryOf.frame {cells cells' : Store Datagram} {e : PackLst} {p : SentPacket} (h : EntryOf cells e p)
    (heq : ∀ a, Reaches cells e.offs a → cells'[a]? = cells[a]?) : EntryOf cells' e p := by
  cases h with
  | held l hchain hne hmem horder hcount htotal =>
    exact EntryOf.held l (hchain.frame fun a ha => heq a (hchain.reaches_iff.2 ha)) hne hmem horder hcount htotal
  | ruined hend hmem =>
    have hback : ∀ a, Reaches cells' e.offs a → Reaches cells e.offs a ∧ cells'[a]? = cells[a]? := fun a ha =>
      ⟨ha.frame heq, heq a (ha.frame heq)⟩
    refine EntryOf.ruined ⟨hend.1, fun a ha => ?_⟩ fun a c ha hc => ?_
    · obtain ⟨hr, hcell⟩ := hback a ha
      rw [hcell]
      exact hend.2 a hr
    · obtain ⟨hr, hcell⟩ := hback a ha
      exact hmem a c hr (hcell ▸ hc)

/-- After a call that returns, the entry of the packet of `d` holds what it held and `d`. -/
theorem insertoffset_eachHeld {s s' : RecvList} {d : Datagram} {b : Bool} (hsep : s.Separate)
    (h : insertoffset s d = .ok (s', b)) {P : Datagram → Prop}
    (hP : ∀ e ∈ s.packs, e.isFor d.id d.src = true → EachHeld s.cells e.offs P) {x : PackLst} (hx : x ∈ s'.packs)
    (hk : x.isFor d.id d.src = true) : EachHeld s'.cells x.offs (fun v => P v ∨ v = d) := by
  obtain ⟨offs, offs', added, hadd, hoffs, hpacks, -⟩ := insertoffset_effect hsep h
  intro a c ha hc
  rcases hpacks x hx with ⟨-, hxo⟩ | ⟨-, hne⟩
  · rw [hxo] at ha
    rcases addoffset_reached_val hadd ha hc with ⟨c', hr, hc', hval⟩ | hval
    · rcases hoffs with rfl | ⟨e, he, hek, rfl⟩
      · exact absurd hr not_reaches_none
      · exact Or.inl (hval ▸ hP e he hek a c' hr hc')
    · exact Or.inr hval
  · exact absurd hk hne

/-- The first datagram of a packet to arrive opens an entry for it. -/
theorem entryOf_first {src dest : Nat} {p : SentPacket} (hp : PacketOk src dest p) {s r : RecvList} {d : Datagram} {b : Bool}
    (hd : d ∈ p.pieces) (hnone : getid s.packs d.id d.src = none) (hr : insertoffset s d = .ok (r, b)) :
    ∃ e ∈ r.packs, e.isFor d.id d.src = true ∧ EntryOf r.cells e p ∧
      (b = true → ¬Endless r.cells e.offs → e.totalSize = e.countSize) := by
  obtain ⟨hins, -, l, hchain, hl⟩ := insertoffset_first hnone
  rw [hins] at hr
  split at hr
  · cases hr
  · obtain ⟨rfl, rfl⟩ := Prod.mk.inj (Except.ok.inj hr)
    obtain ⟨y, rfl, rfl⟩ : ∃ y, l = [y] ∧ y.2 = d := by simpa [List.map_eq_cons_iff] using hl
    have hcount : (freshEntry s.cells y.2).countSize = y.2.size := by
      unfold freshEntry
      split <;> rfl
    refine ⟨_, List.mem_cons_self, freshEntry_isFor _ _, EntryOf.held _ hchain (by simp) (by simpa using hd) (by simp)
      (by simp [hcount]) ?_, fun hb _ => beq_iff_eq.1 hb⟩
    unfold freshEntry
    split
    · rename_i hlast
      exact Or.inr (hp.closedSize hd hlast)
    · exact Or.inl rfl

/-- An entry whose list comes to no end still holds datagrams of the packet only. -/
theorem entryOf_ruined {p : SentPacket} {s r : RecvList} (hsep : s.Separate) {d : Datagram} {b : Bool} (hd : d ∈ p.pieces)
    {e : PackLst} (he : e ∈ s.packs) (hk : e.isFor d.id d.src = true) (hentry : EntryOf s.cells e p)
    (hr : insertoffset s d = .ok (r, b)) (hruined : Ruined r d.id d.src) :
    ∃ e ∈ r.packs, e.isFor d.id d.src = true ∧ EntryOf r.cells e p ∧
      (b = true → ¬Endless r.cells e.offs → e.totalSize = e.countSize) := by
  obtain ⟨hid, hsrc⟩ := isFor_iff.1 hk
  obtain ⟨e', hg', hend⟩ := hruined
  obtain ⟨hmem', hid', hsrc'⟩ := getid_some hg'
  have hk' := isFor_iff.2 ⟨hid', hsrc'⟩
  refine ⟨e', hmem', hk', EntryOf.ruined hend ?_, fun _ hne => absurd hend hne⟩
  have hold : ∀ x ∈ s.packs, x.isFor d.id d.src = true → EachHeld s.cells x.offs (· ∈ p.pieces) := by
    intro x hx hxk
    rw [← hid, ← hsrc] at hxk
    obtain rfl := eq_of_keys hsep.keys he hx hxk
    exact hentry.eachHeld
  intro a c ha hc
  rcases insertoffset_eachHeld hsep hr hold hmem' hk' a c ha hc with hin | heq
  · exact hin
  · exact heq ▸ hd

/-- A datagram that comes behind those the entry holds is held behind them. -/
theorem entryOf_grown {src dest : Nat} {p : SentPacket} (hp : PacketOk src dest p) {s r : RecvList} {d : Datagram} {b : Bool}
    (hd : d ∈ p.pieces) {e : PackLst} {vs : List Datagram} {last : Datagram} (hholds : Holds s e (vs ++ [last]))
    (hid : e.id = d.id) (hsrc : e.src = d.src) (hm : ¬Matched (vs ++ [last]) d) (hlt : ∀ v ∈ vs ++ [last], v.offset < d.offset)
    (hmem : ∀ v ∈ vs ++ [last], v ∈ p.pieces) (horder : (vs ++ [last]).Pairwise fun x y => x.offset < y.offset)
    (hcount : e.countSize = total Datagram.size (vs ++ [last]))
    (htotal : e.totalSize = 0 ∨ e.totalSize = p.payload.length) (hr : insertoffset s d = .ok (r, b)) :
    ∃ e ∈ r.packs, e.isFor d.id d.src = true ∧ EntryOf r.cells e p ∧
      (b = true → ¬Endless r.cells e.offs → e.totalSize = e.countSize) := by
  have hno : ∀ f ∈ vs, follows d f = false := by
    intro f hf
    by_contra hfol
    exact hm ⟨f, by rw [List.dropLast_concat]; exact hf, by simpa using hfol⟩
  obtain ⟨r', hr', hgrown, l', hchain', hl'⟩ := insertoffset_grows hholds ⟨hid, hsrc⟩ hno (hlt last (by simp)).ne
  obtain ⟨rfl, rfl⟩ := Prod.mk.inj (Except.ok.inj (hr'.symm.trans hr))
  have hall : vs ++ [last, d] = vs ++ [last] ++ [d] := by simp
  rw [hall] at hl'
  have hmem' : ∀ v ∈ vs ++ [last] ++ [d], v ∈ p.pieces := by
    intro v hv
    rcases List.mem_append.1 hv with hv | hv
    · exact hmem v hv
    · rw [List.mem_singleton.1 hv]
      exact hd
  have horder' : (vs ++ [last] ++ [d]).Pairwise fun x y => x.offset < y.offset := by
    refine List.pairwise_append.2 ⟨horder, List.pairwise_singleton _ _, fun v hv w hw => ?_⟩
    rw [List.mem_singleton.1 hw]
    exact hlt v hv
  have hle := hp.total_le hmem' horder'
  have hshort := hp.short
  obtain ⟨hin, h1, h2⟩ := getid_some hgrown
  obtain ⟨hk1, hk2⟩ := grownEntry_key e e.offs d
  refine ⟨_, hin, isFor_iff.2 ⟨hk1.trans hid, hk2.trans hsrc⟩, EntryOf.held l' hchain' ?_ ?_ ?_ ?_ ?_,
    fun hb _ => beq_iff_eq.1 hb⟩
  · rintro rfl
    simp at hl'
  · intro y hy
    exact hmem' y.2 (hl' ▸ List.mem_map_of_mem hy)
  · rw [hl']
    exact horder'
  · rw [hl']
    exact countSize_grownEntry e.offs hcount (by omega)
  · unfold grownEntry
    split
    · rename_i hlast
      exact Or.inr (hp.closedSize hd hlast)
    · exact htotal

/-- A later datagram of the packet goes to that entry. -/
theorem entryOf_next {src dest : Nat} {p : SentPacket} (hp : PacketOk src dest p) {s r : RecvList} (hsep : s.Separate)
    {d : Datagram} {b : Bool} (hd : d ∈ p.pieces) {e : PackLst} (he : e ∈ s.packs) (hk : e.isFor d.id d.src = true)
    (hentry : EntryOf s.cells e p) (hlt : EachHeld s.cells e.offs (·.offset < d.offset))
    (hr : insertoffset s d = .ok (r, b)) :
    ∃ e ∈ r.packs, e.isFor d.id d.src = true ∧ EntryOf r.cells e p ∧
      (b = true → ¬Endless r.cells e.offs → e.totalSize = e.countSize) := by
  obtain ⟨hid, hsrc⟩ := isFor_iff.1 hk
  have hg := getid_of_mem hsep.keys he
  have hruined := entryOf_ruined hsep hd he hk hentry hr
  cases hentry with
  | ruined hend _ => exact hruined (insertoffset_ruined ⟨e, hid ▸ hsrc ▸ hg, hend⟩ hr)
  | held l hchain hne hmem horder hcount htotal =>
    have hholds : Holds s e (l.map Prod.snd) := ⟨hg, l, hchain, rfl⟩
    by_cases hm : Matched (l.map Prod.snd) d
    · exact hruined (insertoffset_ruins hholds ⟨hid, hsrc⟩ hm hr)
    · have hlt' : ∀ v ∈ l.map Prod.snd, v.offset < d.offset := by
        intro v hv
        obtain ⟨y, hy, rfl⟩ := List.mem_map.1 hv
        exact (eachHeld_chain hchain).1 hlt y hy
      have hmem' : ∀ v ∈ l.map Prod.snd, v ∈ p.pieces := by
        intro v hv
        obtain ⟨y, hy, rfl⟩ := List.mem_map.1 hv
        exact hmem y hy
      obtain ⟨vs, last, hvs⟩ := (List.eq_nil_or_concat' (l.map Prod.snd)).resolve_left (by simpa using hne)
      rw [hvs] at hholds hm hlt' horder hcount hmem'
      exact entryOf_grown hp hd hholds hid hsrc hm hlt' hmem' horder hcount htotal hr

/-- What `getpack` returns of an entry that is reported complete is the packet, all of whose datagrams have arrived. -/
theorem getpack_entry {src dest : Nat} {p : SentPacket} (hp : PacketOk src dest p) {s s' : RecvList} (hsep : s.Separate)
    {e : PackLst} (he : e ∈ s.packs) (hentry : EntryOf s.cells e p)
    (hcomplete : ¬Endless s.cells e.offs → e.totalSize = e.countSize) {data : Option (List (Option Byte) × Nat)}
    (hs : getpack s e.id e.src = .ok (s', data)) :
    data = some (p.payload.map some, p.payload.length) ∧ ∀ P, EachHeld s.cells e.offs P → ∀ x ∈ p.pieces, P x := by
  have hg := getid_of_mem hsep.keys he
  cases hentry with
  | ruined hend _ =>
    obtain ⟨f, hf⟩ := getpack_ruined ⟨e, hg, hend⟩
    rw [hf] at hs
    cases hs
  | held l hchain hne hmem horder hcount htotal =>
    have hmem' : ∀ v ∈ l.map Prod.snd, v ∈ p.pieces := by
      intro v hv
      obtain ⟨y, hy, rfl⟩ := List.mem_map.1 hv
      exact hmem y hy
    have hfull := hcomplete hchain.not_endless
    have hsize : total Datagram.size (l.map Prod.snd) = p.payload.length := by
      rcases htotal with h0 | hlen
      · have hzero : total Datagram.size (l.map Prod.snd) = 0 := by rw [← hcount, ← hfull, h0]
        rw [hzero, hp.payload_of_total_zero (by simpa using hne) hmem' hzero]
      · rw [← hcount, ← hfull, hlen]
    have hall := hp.complete (by simpa using hne) hmem' horder hsize
    have hholds : Holds s e p.pieces := ⟨hg, l, hchain, hall⟩
    obtain ⟨s'', hs''⟩ := getpack_holds hholds hp.pieces.sized (by rw [hfull, hcount, hall])
    rw [hs'', hp.pieces.bytes] at hs
    cases hs
    refine ⟨by rw [hfull, hcount, hsize], fun P hP x hx => ?_⟩
    rw [← hall] at hx
    obtain ⟨y, hy, rfl⟩ := List.mem_map.1 hx
    exact (eachHeld_chain hchain).1 hP y hy

/-! ## Runs -/

/-- The invariant of a run. A datagram on the way is one of a packet sent, and those of a packet come in the order of their offsets;
an entry is one of a packet sent, and the packet of which a datagram arrived last has one while there are more to come. -/
structure Inv (s : PacketStream) : Prop where
  separate : s.recv.Separate
  packets : ∀ p ∈ s.sent, PacketOk s.src s.dest p
  entries : ∀ e ∈ s.recv.packs, ∃ p ∈ s.sent, e.id = p.id ∧ EntryOf s.recv.cells e p
  wire : ∀ x ∈ s.wire, ∃ p, s.sent[x.1]? = some p ∧ x.2 ∈ p.pieces
  order : s.wire.Pairwise fun x y => x.1 = y.1 → x.2.offset < y.2.offset
  sent : ∀ k ∈ s.current, k < s.sent.length
  current : ∀ x ∈ s.wire, s.current = some x.1 → ∃ p, s.sent[x.1]? = some p ∧ ∃ e ∈ s.recv.packs,
    e.isFor x.2.id x.2.src = true ∧ EntryOf s.recv.cells e p ∧ EachHeld s.recv.cells e.offs (·.offset < x.2.offset)
  returned : ∀ r ∈ s.returned, ∃ p ∈ s.sent, r = (p.payload.map some, p.payload.length)

theorem Inv.unmixed {s : PacketStream} (h : Inv s) : Unmixed s where
  entries e he := by
    obtain ⟨p, hp, hid, hentry⟩ := h.entries e he
    exact ⟨p, hp, hid, hentry.eachHeld⟩
  returned := h.returned

/-- The packet that is sent. -/
theorem packetOk_netSend {r : Router} {dest : Nat} {payload : List Byte} {item : WaitListItem} {mtu countId : Nat}
    {hops : List Hop} {ds l : List Datagram} {n : Nat} (hsend : r.netSend dest payload payload.length 1 = some item)
    (hlen : payload.length ≤ 32768) (hmtu : 28 ≤ mtu ∧ mtu ≤ 65535) (hhops : ∀ h ∈ hops, 28 ≤ h.mtu ∧ h.mtu ≤ 65535)
    (hl : internalsend mtu countId item = some (l, n)) (hds : crossHops hops l = some ds) :
    PacketOk r.num dest { id := countId, payload := payload, pieces := ds } := by
  have hmtus : ∀ h ∈ (⟨item.firstDestLink, mtu, countId⟩ : Hop) :: hops, 28 ≤ h.mtu ∧ h.mtu ≤ 65535 :=
    List.forall_mem_cons.2 ⟨hmtu, hhops⟩
  obtain ⟨ds', hds', hp, hkey, hsizes⟩ := sendAlong_spec hsend (Or.inr rfl) hlen hmtus
  rw [sendAlong, hl] at hds'
  obtain rfl : ds' = ds := Option.some.inj (hds'.symm.trans hds)
  exact ⟨hp, hlen, hkey, pieces_pos hmtus hsizes⟩

/-- Sending a packet keeps the invariant. -/
theorem Inv.send {s : PacketStream} (h : Inv s) {payload : List Byte} {countId : Nat} {ds : List Datagram}
    (hp : PacketOk s.src s.dest { id := s.countId, payload := payload, pieces := ds }) : Inv (s.send payload countId ds) := by
  have hold : ∀ x ∈ s.wire, x.1 < s.sent.length := by
    intro x hx
    obtain ⟨p, hp, -⟩ := h.wire x hx
    exact (List.getElem?_eq_some_iff.1 hp).1
  refine ⟨h.separate, ?_, ?_, ?_, ?_, ?_, ?_, ?_⟩
  · intro p hmem
    rcases List.mem_append.1 hmem with hmem | hmem
    · exact h.packets p hmem
    · rw [List.mem_singleton.1 hmem]
      exact hp
  · intro e he
    obtain ⟨p, hmem, hentry⟩ := h.entries e he
    exact ⟨p, List.mem_append_left _ hmem, hentry⟩
  · intro x hx
    rcases List.mem_append.1 hx with hx | hx
    · obtain ⟨p, hsent, hmem⟩ := h.wire x hx
      exact ⟨p, by rw [PacketStream.send, List.getElem?_append_left (hold x hx)]; exact hsent, hmem⟩
    · obtain ⟨d, hd, rfl⟩ := List.mem_map.1 hx
      exact ⟨_, List.getElem?_concat_length, hd⟩
  · refine List.pairwise_append.2 ⟨h.order, ?_, ?_⟩
    · rw [List.pairwise_map]
      refine List.Pairwise.imp ?_ hp.order
      exact fun hlt _ => hlt
    · intro x hx y hy heq
      obtain ⟨d, -, rfl⟩ := List.mem_map.1 hy
      exact absurd heq (hold x hx).ne
  · intro k hk
    have := h.sent k hk
    rw [PacketStream.send, List.length_append]
    omega
  · intro x hx hcur
    rcases List.mem_append.1 hx with hx | hx
    · obtain ⟨p, hsent, hentry⟩ := h.current x hx hcur
      exact ⟨p, by rw [PacketStream.send, List.getElem?_append_left (hold x hx)]; exact hsent, hentry⟩
    · obtain ⟨d, -, rfl⟩ := List.mem_map.1 hx
      exact absurd (h.sent _ hcur) (lt_irrefl _)
  · intro r hr
    obtain ⟨p, hmem, heq⟩ := h.returned r hr
    exact ⟨p, List.mem_append_left _ hmem, heq⟩

/-- Losing a datagram keeps the invariant. -/
theorem Inv.lose {s : PacketStream} (h : Inv s) (i : Nat) : Inv { s with wire := s.wire.eraseIdx i } where
  separate := h.separate
  packets := h.packets
  entries := h.entries
  wire x hx := h.wire x (List.mem_of_mem_eraseIdx hx)
  order := h.order.sublist (List.eraseIdx_sublist _ _)
  sent := h.sent
  current x hx := h.current x (List.mem_of_mem_eraseIdx hx)
  returned := h.returned

/-- The entry of the packet of a datagram after its arrival. -/
theorem Inv.arrival {s : PacketStream} (h : Inv s) {k : Nat} {d : Datagram} {wire : List (Nat × Datagram)}
    (hwire : s.wire = (k, d) :: wire) (hok : FreshId s .arrive) {r : RecvList} {b : Bool}
    (hr : insertoffset s.recv d = .ok (r, b)) :
    ∃ p ∈ s.sent, s.sent[k]? = some p ∧ d ∈ p.pieces ∧ ∃ e ∈ r.packs, e.isFor d.id d.src = true ∧ EntryOf r.cells e p ∧
      (b = true → ¬Endless r.cells e.offs → e.totalSize = e.countSize) ∧ EachHeld r.cells e.offs (·.offset ≤ d.offset) := by
  obtain ⟨p, hsent, hd⟩ := h.wire (k, d) (by rw [hwire]; exact List.mem_cons_self)
  have hp := h.packets p (List.mem_of_getElem? hsent)
  refine ⟨p, List.mem_of_getElem? hsent, hsent, hd, ?_⟩
  by_cases hcur : s.current = some k
  · obtain ⟨p', hsent', e, he, hk, hentry, hlt⟩ := h.current (k, d) (by rw [hwire]; exact List.mem_cons_self) hcur
    obtain rfl := Option.some.inj (hsent.symm.trans hsent')
    obtain ⟨e', he', hk', hentry', hb⟩ := entryOf_next hp h.separate hd he hk hentry hlt hr
    refine ⟨e', he', hk', hentry', hb, fun a c ha hc => ?_⟩
    have hold : ∀ x ∈ s.recv.packs, x.isFor d.id d.src = true → EachHeld s.recv.cells x.offs (·.offset < d.offset) := by
      intro x hx hxk
      obtain ⟨h1, h2⟩ := isFor_iff.1 hk
      rw [← h1, ← h2] at hxk
      obtain rfl := eq_of_keys h.separate.keys he hx hxk
      exact hlt
    rcases insertoffset_eachHeld h.separate hr hold he' hk' a c ha hc with hlt | heq
    · exact hlt.le
    · rw [heq]
  · have hnone : getid s.recv.packs d.id d.src = none := hok (k, d) (by rw [hwire]; rfl) hcur
    obtain ⟨e', he', hk', hentry', hb⟩ := entryOf_first hp hd hnone hr
    refine ⟨e', he', hk', hentry', hb, fun a c ha hc => ?_⟩
    have hold : ∀ x ∈ s.recv.packs, x.isFor d.id d.src = true → EachHeld s.recv.cells x.offs fun _ => False :=
      fun x hx hxk => absurd hxk (getid_none hnone x hx)
    rcases insertoffset_eachHeld h.separate hr hold he' hk' a c ha hc with hf | heq
    · exact hf.elim
    · rw [heq]

/-- Inserting the datagram that arrives keeps the invariant. -/
theorem Inv.insert {s : PacketStream} (h : Inv s) {k : Nat} {d : Datagram} {wire : List (Nat × Datagram)}
    (hwire : s.wire = (k, d) :: wire) {r : RecvList} {b : Bool} (hr : insertoffset s.recv d = .ok (r, b)) {p : SentPacket}
    (hsent : s.sent[k]? = some p) (hd : d ∈ p.pieces) {e : PackLst} (he : e ∈ r.packs) (hk : e.isFor d.id d.src = true)
    (hentry : EntryOf r.cells e p) (hle : EachHeld r.cells e.offs (·.offset ≤ d.offset)) :
    Inv { s with wire := wire, recv := r, current := some k } := by
  have hp := h.packets p (List.mem_of_getElem? hsent)
  have hsep := separate_insertoffset h.separate hr
  obtain ⟨hid, hsrc⟩ := isFor_iff.1 hk
  have horder := h.order
  rw [hwire] at horder
  obtain ⟨hfirst, hrest⟩ := List.pairwise_cons.1 horder
  refine ⟨hsep, h.packets, ?_, ?_, hrest, ?_, ?_, h.returned⟩
  · intro x hx
    by_cases hxk : x.isFor d.id d.src = true
    · rw [← hid, ← hsrc] at hxk
      obtain rfl := eq_of_keys hsep.keys he hx hxk
      exact ⟨p, List.mem_of_getElem? hsent, hid.trans (hp.key d hd).1, hentry⟩
    · obtain ⟨offs, offs', added, -, -, hpacks, -⟩ := insertoffset_effect h.separate hr
      have hold := ((hpacks x hx).resolve_left fun hself => hxk hself.1).1
      obtain ⟨q, hq, hxid, hxe⟩ := h.entries x hold
      exact ⟨q, hq, hxid, hxe.frame (insertoffset_others h.separate hr hold hxk).1⟩
  · intro x hx
    exact h.wire x (by rw [hwire]; exact List.mem_cons_of_mem _ hx)
  · intro j hj
    cases hj
    exact (List.getElem?_eq_some_iff.1 hsent).1
  · intro x hx hcur
    have hxk : k = x.1 := Option.some.inj hcur
    obtain ⟨q, hq, hxq⟩ := h.wire x (by rw [hwire]; exact List.mem_cons_of_mem _ hx)
    rw [← hxk] at hq
    obtain rfl := Option.some.inj (hsent.symm.trans hq)
    obtain ⟨h1, h2, -⟩ := hp.key d hd
    obtain ⟨h1', h2', -⟩ := hp.key x.2 hxq
    refine ⟨p, hxk ▸ hsent, e, he, isFor_iff.2 ⟨?_, ?_⟩, hentry, fun a c ha hc => ?_⟩
    · rw [hid, h1, h1']
    · rw [hsrc, h2, h2']
    · exact lt_of_le_of_lt (hle a c ha hc) (hfirst x hx hxk)

/-- An arrival keeps the invariant. -/
theorem Inv.arrive {s s' : PacketStream} (h : Inv s) (hok : FreshId s .arrive) (hs : s.step .arrive = some s') : Inv s' := by
  simp only [PacketStream.step] at hs
  split at hs
  · cases hs
  · rename_i k d wire hwire
    split at hs
    · cases hs
    · rename_i r hr
      obtain ⟨p, -, hsent, hd, e, he, hk, hentry, -, hle⟩ := h.arrival hwire hok hr
      cases hs
      exact h.insert hwire hr hsent hd he hk hentry hle
    · rename_i r hr
      obtain ⟨p, hmem, hsent, hd, e, he, hk, hentry, hfull, hle⟩ := h.arrival hwire hok hr
      have hins := h.insert hwire hr hsent hd he hk hentry hle
      split at hs
      · cases hs
      · rename_i r' data hget
        cases hs
        obtain ⟨hcells, hsub⟩ := getpack_sublist hget
        obtain ⟨hid, hsrc⟩ := isFor_iff.1 hk
        rw [← hid, ← hsrc] at hget
        obtain ⟨rfl, hall⟩ := getpack_entry (h.packets p hmem) hins.separate he hentry (hfull rfl) hget
        refine ⟨hins.separate.sublist hcells hsub, h.packets, ?_, hins.wire, hins.order, hins.sent, ?_, ?_⟩
        · intro x hx
          obtain ⟨q, hq, hxid, hxe⟩ := hins.entries x (hsub.subset hx)
          exact ⟨q, hq, hxid, hcells ▸ hxe⟩
        · -- all of the packet has arrived
          intro x hx hcur
          have hxk : k = x.1 := Option.some.inj hcur
          obtain ⟨q, hq, hxq⟩ := hins.wire x hx
          rw [← hxk] at hq
          obtain rfl := Option.some.inj (hsent.symm.trans hq)
          have horder := h.order
          rw [hwire] at horder
          have hlt := (List.pairwise_cons.1 horder).1 x hx hxk
          exact absurd (hall _ hle x.2 hxq) (Nat.not_le.2 hlt)
        · intro x hx
          rcases List.mem_append.1 hx with hx | hx
          · exact h.returned x hx
          · obtain rfl : x = (p.payload.map some, p.payload.length) := by simpa using hx
            exact ⟨p, hmem, rfl⟩

theorem inv_step {s s' : PacketStream} {a : StreamAction} (h : Inv s) (hok : FreshId s a) (hs : s.step a = some s') :
    Inv s' := by
  cases a with
  | netSend r payload mtu hops =>
    simp only [PacketStream.step] at hs
    split at hs
    · rename_i hguard
      obtain ⟨hnum, hmtu, hhops⟩ := hguard
      split at hs
      · cases hs
        exact h
      · rename_i item hitem
        obtain ⟨⟨l, n⟩, hl, hs⟩ := Option.bind_eq_some_iff.1 hs
        obtain ⟨ds, hds, rfl⟩ := Option.map_eq_some_iff.1 hs
        exact h.send (hnum ▸ packetOk_netSend hitem hok hmtu hhops hl hds)
    · cases hs
  | lose i =>
    simp only [PacketStream.step] at hs
    split at hs
    · cases hs
      exact h.lose i
    · cases hs
  | arrive => exact h.arrive hok hs

theorem inv_init (src dest : Nat) : Inv (PacketStream.init src dest) where
  separate := reachable_separate Reach.refl
  packets p hp := absurd hp List.not_mem_nil
  entries e he := absurd he List.not_mem_nil
  wire x hx := absurd hx List.not_mem_nil
  order := List.Pairwise.nil
  sent k hk := by cases hk
  current x hx := absurd hx List.not_mem_nil
  returned r hr := absurd hr List.not_mem_nil

end IdReuseAux

open IdReuseAux in
/-- For every run in which one host sends packets to another over a network that loses datagrams and keeps the others in order:
while no packet is too large for the offsets of its fragments, and none begins to arrive where an entry is left with its
identifier, no packet is mixed with another. -/
theorem packets_unmixed {src dest : Nat} {s : PacketStream}
    (h : Reach PacketStream.step FreshId (PacketStream.init src dest) s) : Unmixed s :=
  (h.invariant (inv_init src dest) fun _ _ _ hinv hok hs => inv_step hinv hok hs).unmixed

/-- Twenty bytes go in two pieces, of which the second is lost; twenty more arrive. -/
def lossRun : List StreamAction :=
  [.netSend neighbourRouter (List.replicate 20 7) 36 [], .arrive, .lose 0,
    .netSend neighbourRouter (List.replicate 20 8) 36 [], .arrive, .arrive]

/-- The second packet is read back, and the first is left in the list. -/
theorem second_packet_unmixed :
    ∃ s, exec PacketStream.step (PacketStream.init 1 2) lossRun = some s ∧
      s.returned = [((List.replicate 20 8).map some, 20)] ∧ s.recv.packs.length = 1 ∧ Unmixed s := by
  obtain ⟨s, hs, hreturned, hpacks⟩ : ∃ s ∈ exec PacketStream.step (PacketStream.init 1 2) lossRun,
      s.returned = [((List.replicate 20 8).map some, 20)] ∧ s.recv.packs.length = 1 := by decide
  exact ⟨s, hs, hreturned, hpacks, packets_unmixed (reach_of_exec (by decide) hs)⟩

/-! ## An identifier that comes again -/

/-- Sixteen bytes for the neighbour, over a link that holds eight of them. -/
def sendSixteen (v : Byte) : StreamAction := .netSend neighbourRouter (List.replicate 16 v) 28 []

/-- The two pieces they go in. -/
def sixteenPieces (v : Byte) (countId : Nat) : List Datagram :=
  [{ size := 8, id := countId, frag := 32768, protocol := 1, ttl := 6, dest := 2, src := 1, data := List.replicate 8 v },
    { size := 8, id := countId, frag := 8, protocol := 1, ttl := 6, dest := 2, src := 1, data := List.replicate 8 v }]

/-- Any of the bytes used below. -/
def testBytes : List Byte := [0, 1, 2]

theorem fragpack_sixteen : ∀ v ∈ testBytes, (fragpack (List.replicate 16 v) 16 (mtuArg (28 : Nat)) 0).map
    (fun r => (r.1, r.2.map fun f => (f.size, f.frag, f.data))) =
      some (1, [(8, 32768, List.replicate 8 v), (8, 8, List.replicate 8 v)]) := by
  decide

theorem step_sendSixteen {v : Byte} (hv : v ∈ testBytes) {s : PacketStream} (hsrc : s.src = 1) (hdest : s.dest = 2) :
    s.step (sendSixteen v) =
      some (s.send (List.replicate 16 v) (u16 (s.countId + 1)) (sixteenPieces v s.countId)) := by
  let item : WaitListItem :=
    { dest := 2, src := 1, data := List.replicate 16 v, offset := 0, ttl := 6, size := 16, protocol := 1, id := 0,
      firstDestLink := 2 }
  have hitem : neighbourRouter.netSend 2 (List.replicate 16 v) 16 1 = some item := rfl
  have hsend : internalsend (28 : Nat) s.countId item = some (sixteenPieces v s.countId, u16 (s.countId + 1)) := by
    obtain ⟨⟨k, fs⟩, hfrag, hfields⟩ := Option.map_eq_some_iff.1 (fragpack_sixteen v hv)
    obtain ⟨rfl, hfs⟩ := Prod.mk.inj hfields
    have hpieces : item.pieces s.countId (1, fs) =
        (fs.map fun f => (f.size, f.frag, f.data)).map fun x => item.piece s.countId x.1 x.2.1 x.2.2 := by
      rw [List.map_map]
      rfl
    rw [internalsend, if_pos (Or.inl rfl), hfrag, Option.map_some, hpieces, hfs]
    rfl
  have hguard : neighbourRouter.num = s.src ∧ (28 ≤ 28 ∧ 28 ≤ 65535) ∧ ∀ h ∈ ([] : List Hop), 28 ≤ h.mtu ∧ h.mtu ≤ 65535 :=
    ⟨hsrc.symm, by decide, by simp⟩
  simp only [sendSixteen, PacketStream.step]
  rw [if_pos hguard, hdest, List.length_replicate, hitem]
  simp only [hsend, Option.bind_some, crossHops, Option.map_some]

/-- They are sent and lost. -/
def lostRun : List StreamAction := [sendSixteen 0, .lose 0, .lose 0]

theorem exec_lostRun {s : PacketStream} (hsrc : s.src = 1) (hdest : s.dest = 2) (hwire : s.wire = []) :
    ∃ p : SentPacket, p.payload = List.replicate 16 0 ∧ exec PacketStream.step s lostRun =
      some { s with countId := u16 (s.countId + 1), sent := s.sent ++ [p] } := by
  have hzero : (0 : Byte) ∈ testBytes := by decide
  refine ⟨{ id := s.countId, payload := List.replicate 16 0, pieces := sixteenPieces 0 s.countId }, rfl, ?_⟩
  simp only [lostRun, exec, step_sendSixteen hzero hsrc hdest, Option.bind_some]
  obtain ⟨src, dest, countId, wire, recv, sent, current, returned⟩ := s
  obtain rfl : wire = [] := hwire
  rfl

/-- So are any number of packets. -/
theorem exec_lostRuns (n : Nat) {s : PacketStream} (hsrc : s.src = 1) (hdest : s.dest = 2) (hwire : s.wire = [])
    (hid : s.countId < 65536) :
    ∃ l : List SentPacket, (∀ p ∈ l, p.payload = List.replicate 16 0) ∧
      exec PacketStream.step s (List.replicate n lostRun).flatten =
        some { s with countId := u16 (s.countId + n), sent := s.sent ++ l } := by
  induction n generalizing s with
  | zero =>
    refine ⟨[], by simp, ?_⟩
    have hzero : u16 s.countId = s.countId := u16_of_lt hid
    simp [exec, hzero]
  | succ n ih =>
    obtain ⟨p, hp, hstep⟩ := exec_lostRun hsrc hdest hwire
    have hid' : u16 (s.countId + 1) < 65536 := Nat.mod_lt _ (by decide)
    obtain ⟨l, hl, hrest⟩ := ih (s := { s with countId := u16 (s.countId + 1), sent := s.sent ++ [p] }) hsrc hdest hwire hid'
    have hcount : u16 (u16 (s.countId + 1) + n) = u16 (s.countId + (n + 1)) := by
      unfold u16
      omega
    refine ⟨p :: l, List.forall_mem_cons.2 ⟨hp, hl⟩, ?_⟩
    rw [List.replicate_succ, List.flatten_cons, exec_append, hstep, Option.bind_some, hrest]
    simp only [hcount, List.append_assoc, List.singleton_append]

/-- An arrival that completes a packet. -/
theorem step_arrive_complete {s : PacketStream} {k : Nat} {d : Datagram} {wire : List (Nat × Datagram)} {recv recv' : RecvList}
    {data : Option (List (Option Byte) × Nat)} (hwire : s.wire = (k, d) :: wire) (hinsert : insertoffset s.recv d = .ok (recv, true))
    (hget : getpack recv d.id d.src = .ok (recv', data)) :
    PacketStream.step s .arrive =
      some { s with wire := wire, recv := recv', current := some k, returned := s.returned ++ data.toList } := by
  simp only [PacketStream.step, hwire, hinsert, hget]

/-- The second piece of a packet of twos arrives where the first one of a packet of ones is left with its identifier. -/
theorem exec_twos {s : PacketStream} (hsrc : s.src = 1) (hdest : s.dest = 2) (hwire : s.wire = []) (hid : s.countId = 0)
    (hrecv : s.recv = ⟨[⟨(sixteenPieces 1 0).head (by decide), none⟩],
      [{ id := 0, src := 1, countSize := 8, totalSize := 0, offs := some 0 }]⟩) (hreturned : s.returned = []) :
    ∃ p t, p.payload = List.replicate 16 2 ∧ exec PacketStream.step s [sendSixteen 2, .lose 0, .arrive] = some t ∧
      t.sent = s.sent ++ [p] ∧ t.returned = [((List.replicate 8 (1 : Byte) ++ List.replicate 8 2).map some, 16)] := by
  have htwo : (2 : Byte) ∈ testBytes := by decide
  obtain ⟨recv, hinsert, recv', hget⟩ :
      ∃ recv, insertoffset s.recv ((sixteenPieces 2 0).getLast (by decide)) = .ok (recv, true) ∧
        ∃ recv', getpack recv 0 1 = .ok (recv', some ((List.replicate 8 (1 : Byte) ++ List.replicate 8 2).map some, 16)) := by
    rw [hrecv]
    exact ⟨_, rfl, _, rfl⟩
  have hsend := step_sendSixteen htwo hsrc hdest
  rw [hid] at hsend
  obtain ⟨lost, hlose, hlostwire, hlostrecv, hlostsent, hlostreturned⟩ :
      ∃ lost, PacketStream.step (s.send (List.replicate 16 2) 1 (sixteenPieces 2 0)) (.lose 0) = some lost ∧
        lost.wire = [(s.sent.length, (sixteenPieces 2 0).getLast (by decide))] ∧ lost.recv = s.recv ∧
        lost.sent = s.sent ++ [{ id := s.countId, payload := List.replicate 16 2, pieces := sixteenPieces 2 0 }] ∧
        lost.returned = s.returned := by
    obtain ⟨src, dest, countId, wire, recv, sent, current, returned⟩ := s
    obtain rfl : wire = [] := hwire
    exact ⟨_, rfl, rfl, rfl, rfl, rfl⟩
  rw [← hlostrecv] at hinsert
  obtain ⟨t, harrive, htsent, htreturned⟩ : ∃ t, PacketStream.step lost .arrive = some t ∧ t.sent = lost.sent ∧
      t.returned = lost.returned ++ [((List.replicate 8 (1 : Byte) ++ List.replicate 8 2).map some, 16)] :=
    ⟨_, step_arrive_complete hlostwire hinsert hget, rfl, rfl⟩
  refine ⟨_, t, rfl, ?_, htsent.trans hlostsent, ?_⟩
  · rw [exec, hsend]
    refine (congrArg (Option.bind · _) hlose).trans ?_
    exact congrArg (Option.bind · some) harrive
  · rw [htreturned, hlostreturned, hreturned]
    rfl

/-- Of a packet of ones the first piece arrives, and of one of twos, 65536 packets later, the second: they are read back as one
packet, which nobody sent. -/
theorem pieces_of_two_packets :
    ∃ s, Reach PacketStream.step anyStep (PacketStream.init 1 2) s ∧
      s.returned = [((List.replicate 8 (1 : Byte) ++ List.replicate 8 2).map some, 16)] ∧ ¬Unmixed s := by
  obtain ⟨s₁, hs₁, hsrc, hdest, hwire, hid, hrecv, hreturned, hsent⟩ :
      ∃ s ∈ exec PacketStream.step (PacketStream.init 1 2) [sendSixteen 1, .arrive, .lose 0],
        s.src = 1 ∧ s.dest = 2 ∧ s.wire = [] ∧ s.countId = 1 ∧
          s.recv = ⟨[⟨(sixteenPieces 1 0).head (by decide), none⟩],
            [{ id := 0, src := 1, countSize := 8, totalSize := 0, offs := some 0 }]⟩ ∧
          s.returned = [] ∧ s.sent.map SentPacket.payload = [List.replicate 16 1] := by decide
  obtain ⟨l, hl, hs₂⟩ := exec_lostRuns 65535 hsrc hdest hwire (by rw [hid]; decide)
  have hcount : u16 (s₁.countId + 65535) = 0 := by
    rw [hid]
    decide
  rw [hcount] at hs₂
  obtain ⟨p, t, hp, ht, htsent, htreturned⟩ := exec_twos (s := { s₁ with countId := 0, sent := s₁.sent ++ l }) hsrc hdest hwire
    rfl hrecv hreturned
  have hrun : exec PacketStream.step (PacketStream.init 1 2) ([sendSixteen 1, .arrive, .lose 0] ++
      ((List.replicate 65535 lostRun).flatten ++ [sendSixteen 2, .lose 0, .arrive])) = some t := by
    rw [exec_append, hs₁, Option.bind_some, exec_append, hs₂, Option.bind_some, ht]
  refine ⟨t, reach_anyStep_of_exec hrun, htreturned, ?_⟩
  intro h
  obtain ⟨q, hq, heq⟩ := h.returned _ (by rw [htreturned]; exact List.mem_cons_self)
  have hpayload : q.payload ∈ [List.replicate 16 (1 : Byte), List.replicate 16 0, List.replicate 16 2] := by
    rw [htsent] at hq
    rcases List.mem_append.1 hq with hq | hq
    · rcases List.mem_append.1 hq with hq | hq
      · have hmem := List.mem_map_of_mem (f := SentPacket.payload) hq
        rw [hsent, List.mem_singleton] at hmem
        simp [hmem]
      · simp [hl q hq]
    · simp [List.mem_singleton.1 hq, hp]
  have hsame : (List.replicate 8 (1 : Byte) ++ List.replicate 8 2) = q.payload :=
    List.map_injective_iff.2 (Option.some_injective Byte) (Prod.mk.inj heq).1
  rw [← hsame] at hpayload
  exact absurd hpayload (by decide)

end NetworkLayers
