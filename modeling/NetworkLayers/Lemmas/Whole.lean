import NetworkLayers.Net.Stack
import NetworkLayers.Theorems.Codecs
import NetworkLayers.Theorems.GarbledLink
import NetworkLayers.Theorems.Mtu

/-!
# Packets that go in one piece

A packet that fits every link with the headers of the network and the link layer is not cut: one item of the send queue is one
datagram, one datagram one frame, and what arrives is complete at once and leaves nothing in the list.
-/

namespace NetworkLayers

open Bytes Cells LinkAux CodecAux GarbledLinkAux

/-- So many bytes go over every link in one piece, and their frame fits the buffer of every host. Where there is no link, the MTU of
-1 is 65535 to `fragpack`. -/
def FitsLinks (t : Topology) (size : Nat) : Prop :=
  ∀ i j, size + netHeaderSize + linkHeaderSize + checksumSize ≤ mtuArg (t.links i j)

instance FitsLinks.decidable (t : Topology) (size : Nat) : Decidable (FitsLinks t size) :=
  inferInstanceAs (Decidable (∀ i j, size + netHeaderSize + linkHeaderSize + checksumSize ≤ mtuArg (t.links i j)))

namespace WholeAux

/-! ## The largest MTU -/

/-- A maximum that is taken over a list is no less than any of what it is taken of. -/
theorem le_foldl_max {α : Type} {f : α → Int} {step : Int → α → Int} (hstep : ∀ m a, m ≤ step m a ∧ f a ≤ step m a) (l : List α)
    (m : Int) : m ≤ l.foldl step m ∧ ∀ a ∈ l, f a ≤ l.foldl step m := by
  induction l generalizing m with
  | nil => exact ⟨Int.le_refl _, by simp⟩
  | cons a l ih =>
    obtain ⟨hm, hall⟩ := ih (step m a)
    refine ⟨Int.le_trans (hstep m a).1 hm, List.forall_mem_cons.2 ⟨Int.le_trans (hstep m a).2 hm, hall⟩⟩

theorem le_maxOfHost (t : Topology) (i : HostIndex) (m : Int) : m ≤ t.maxOfHost i m ∧ ∀ j, t.links i j ≤ t.maxOfHost i m := by
  have hstep : ∀ (m : Int) (j : HostIndex), m ≤ (if m < t.links i j then t.links i j else m) ∧
      t.links i j ≤ (if m < t.links i j then t.links i j else m) := by
    intro m j
    split <;> omega
  obtain ⟨hm, hall⟩ := le_foldl_max (f := t.links i) hstep (List.finRange maxHosts) m
  exact ⟨hm, fun j => hall j (List.mem_finRange j)⟩

theorem links_le_getMaxMtu (t : Topology) (i j : HostIndex) : t.links i j ≤ t.getMaxMtu := by
  have hhost : ∀ i m, m ≤ t.maxOfHost i m ∧ t.links i j ≤ t.maxOfHost i m := fun i m =>
    ⟨(le_maxOfHost t i m).1, (le_maxOfHost t i m).2 j⟩
  exact (le_foldl_max (f := fun i => t.links i j) (fun m i => hhost i m) (List.finRange maxHosts) 0).2 i (List.mem_finRange i)

end WholeAux

open WholeAux in
/-- What fits every link, over one of them. -/
theorem FitsLinks.over {t : Topology} {size : Nat} (h : FitsLinks t size) {i j : HostIndex} (hlink : t.links i j ≠ -1) :
    (size : Int) + 32 ≤ t.links i j ∧ size + 32 ≤ t.getMaxMtu.toNat := by
  have hle := h i j
  have hmax := links_le_getMaxMtu t i j
  have hrange := (t.range i j).resolve_left hlink
  unfold netHeaderSize linkHeaderSize checksumSize mtuArg at hle
  omega

theorem FitsLinks.le {t : Topology} {size : Nat} (h : FitsLinks t size) : size + 32 ≤ 65535 :=
  Nat.le_trans (h 0 0) (MtuAux.mtuArg_le _)

/-- What fits every link is not cut, wherever it is sent. -/
theorem FitsLinks.getmtu {t : Topology} {size : Nat} (h : FitsLinks t size) (n : HostIndex) (node : Nat) :
    size + netHeaderSize ≤ mtuArg (t.getmtu n node) := by
  unfold Topology.getmtu
  split
  · exact Nat.le_trans (Nat.le_add_right _ 12) (h n _)
  · have hle := h.le
    have hnone : mtuArg (-1) = 65535 := by decide
    rw [hnone, netHeaderSize]
    omega

namespace WholeAux

/-! ## One datagram for an item -/

/-- The datagram of an item that is sent whole. -/
def whole (item : WaitListItem) (id : Nat) : Datagram :=
  { size := item.size, id := id, frag := 0, protocol := item.protocol, ttl := item.ttl, dest := item.dest, src := item.src,
    data := item.data }

/-- A packet that fits is sent whole. -/
theorem internalsend_whole {item : WaitListItem} {mtu : Int} (hoffset : item.offset = 0) (hsize : item.size = item.data.length)
    (hproto : item.protocol ≤ 2) (hfit : item.size + netHeaderSize ≤ mtuArg mtu) (countId : Nat) :
    internalsend mtu countId item = some
      ([whole item (if item.protocol = 2 then item.id else countId)],
        if item.protocol = 2 then countId else u16 (countId + 1)) := by
  have hmax := MtuAux.mtuArg_le mtu
  have hu : u64 (item.size + netHeaderSize) ≤ mtuArg mtu := by rwa [u64_of_lt (by omega)]
  have hpack : ∀ last, fragpackWith last item.data item.size (mtuArg mtu) item.offset =
      some (0, [addheader item.data item.size item.offset]) := fun last => if_pos hu
  have hpiece : ∀ id, item.piece id item.size item.offset item.data = whole item id := by
    intro id
    rw [WaitListItem.piece, whole, hoffset, hsize, List.take_length]
  unfold internalsend
  by_cases htwo : item.protocol = 2
  · have hown : ¬(item.protocol = 1 ∨ item.protocol = 0) := by omega
    simp only [if_neg hown, if_pos htwo, fragpack2, hpack, Option.map_some, WaitListItem.pieces, if_true, hpiece]
  · have hown : item.protocol = 1 ∨ item.protocol = 0 := by omega
    simp only [if_pos hown, if_neg htwo, fragpack, hpack, Option.map_some, WaitListItem.pieces, if_true, hpiece]

/-! ## One frame for a datagram -/

theorem length_buildsenddatagram {d : Datagram} (h : d.Fits) : (buildsenddatagram d).length = d.size + netHeaderSize := by
  rw [buildsenddatagram_eq h, List.length_append, length_leBytes, length_datagram_body h, checksumSize, netHeaderSize]
  omega

/-- Each of the copies that UDP takes carries the data or nothing. -/
theorem mem_sendtoGarbled {max : Nat} (g : Garbler) {dest : Nat} {data : List Byte} (hdest : dest < 65536)
    (hlen : data.length + linkHeaderSize < 18446744073709551616) (hfit : data.length + linkHeaderSize + checksumSize ≤ max)
    {rnd rnd' : Nat} {datagram : List Byte} (hd : datagram ∈ g.sendtoGarbled (buildsendframe (sendFrame dest data)) rnd rnd') :
    ∃ o, CarriesData max datagram o ∧ ∀ x ∈ o, x = data := by
  obtain ⟨os, hcarries, hos⟩ := carries_sendtoGarbled g hdest hlen hfit rnd rnd'
  obtain ⟨i, hi, rfl⟩ := List.mem_iff_getElem.1 hd
  have hlength := hcarries.length_eq
  have hin : i < os.length := hlength ▸ hi
  refine ⟨os[i], List.Forall₂.get hcarries hi hin, fun x hx => ?_⟩
  have hmem : x ∈ os.reduceOption := by
    rw [List.reduceOption_mem_iff, ← Option.mem_def.1 hx]
    exact List.getElem_mem _
  rw [hos] at hmem
  exact List.eq_of_mem_replicate hmem

/-- Where the draw lets a copy through, one that UDP takes carries the data. -/
theorem exists_sendtoGarbled {max : Nat} (g : Garbler) {dest : Nat} {data : List Byte} (hdest : dest < 65536)
    (hlen : data.length + linkHeaderSize < 18446744073709551616) (hfit : data.length + linkHeaderSize + checksumSize ≤ max)
    {rnd rnd' : Nat} (hcopies : 0 < g.copies (buildsendframe (sendFrame dest data)) rnd rnd') :
    ∃ datagram ∈ g.sendtoGarbled (buildsendframe (sendFrame dest data)) rnd rnd', CarriesData max datagram (some data) := by
  obtain ⟨os, hcarries, hos⟩ := carries_sendtoGarbled g hdest hlen hfit rnd rnd'
  have hmem : some data ∈ os := by
    rw [← List.reduceOption_mem_iff, hos]
    exact List.mem_replicate.2 ⟨by omega, rfl⟩
  obtain ⟨i, hi, hget⟩ := List.mem_iff_getElem.1 hmem
  have hlength := hcarries.length_eq
  exact ⟨_, List.getElem_mem (hlength ▸ hi), hget ▸ List.Forall₂.get hcarries (hlength ▸ hi) hi⟩

/-! ## A packet that is complete at once -/

/-- The datagram of a packet that was not cut completes it, and leaves nothing in the list. -/
theorem netInternalrecv_whole (num : Nat) {list : RecvList} {f : LinkFrame} {d : Datagram} (hd : d.Fits) (hfrag : d.frag = 0)
    (hpacks : list.packs = []) (hdest : d.dest = num) (hdata : f.data = buildsenddatagram d) (hsize : f.size = f.data.length) :
    ∃ list' c, netInternalrecv num list f = .ok (list', some ({ d with checksum := c }, d.data.map some, d.size)) ∧
      list'.packs = [] := by
  have hrcv : rcvDatagram f.data f.size = .ok ({ d with checksum := checksum d.body d.body.length }, 0) := by
    rw [hsize, hdata, length_buildsenddatagram hd]
    exact rcvDatagram_build hd
  generalize checksum d.body d.body.length = c at hrcv
  have hclosed : closedSize { d with checksum := c } = d.size := by
    have hoff : offsetField d.frag = 0 := by rw [hfrag]; rfl
    have hroom := hd.room
    rw [closedSize, Datagram.offset, hoff, Nat.add_zero]
    exact u64_of_lt (Nat.lt_of_le_of_lt (Nat.le_add_right d.size _) hroom)
  have hlast : islastfrag { d with checksum := c } = true := by
    rw [islastfrag, Datagram.more, hfrag]
    rfl
  have hinsert : insertoffset list { d with checksum := c } =
      .ok (⟨list.cells ++ [⟨{ d with checksum := c }, none⟩],
        [{ id := d.id, src := d.src, countSize := d.size, totalSize := d.size, offs := some list.cells.length }]⟩, true) := by
    unfold insertoffset
    rw [hpacks]
    simp [addoffset, initpacklst, hlast, hclosed]
  have hget : getpack ⟨list.cells ++ [⟨{ d with checksum := c }, none⟩],
        [{ id := d.id, src := d.src, countSize := d.size, totalSize := d.size, offs := some list.cells.length }]⟩ d.id d.src =
      .ok (⟨list.cells ++ [⟨{ d with checksum := c }, none⟩], []⟩, some (d.data.map some, d.size)) := by
    have hcopy : copyFragments (list.cells ++ [⟨{ d with checksum := c }, none⟩]) d.size (list.cells.length + 1) []
        (some list.cells.length) = .ok d.data := by
      have htake : d.data.take d.size = d.data := by rw [← hd.data, List.take_length]
      simp [copyFragments, hd.data, htake]
    simp [getpack, getid, PackLst.isFor, removeid, hcopy, hd.data]
  subst hdest
  refine ⟨⟨list.cells ++ [⟨{ d with checksum := c }, none⟩], []⟩, c, ?_, rfl⟩
  simp only [netInternalrecv, hrcv, ok_bind, and_self, if_true, hinsert, hget]
  rfl

end WholeAux

end NetworkLayers
