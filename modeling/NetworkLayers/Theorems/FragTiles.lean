import NetworkLayers.Lemmas.Frag

/-!
# Fragmentation tiles the packet along any path

Whatever links a packet crosses, and however often its fragments are fragmented again on the way, what arrives behind the last
link are the pieces of the packet: they follow each other from offset 0, together they hold its bytes, each fits the link, and
the more-fragments bit tells the last from the others.
-/

namespace NetworkLayers

open Tiling

/-- For every packet a host sends and every path, the datagrams on the last link tile the packet. -/
theorem fragments_tile_packet {r : Router} {dest protocol : Nat} {payload : List Byte} {item : WaitListItem}
    (hsend : r.netSend dest payload payload.length protocol = some item) (hproto : protocol = 0 ∨ protocol = 1)
    (hlen : payload.length ≤ 32768) (first : Hop) (hops : List Hop)
    (hmtu : ∀ h ∈ first :: hops, 28 ≤ h.mtu ∧ h.mtu ≤ 65535) :
    ∃ ds, sendAlong item first hops = some ds ∧
      Tiles (fun b x => x.offset = b) Datagram.size 0 ds ∧
      ds.flatMap Datagram.data = payload ∧ (∀ x ∈ ds, x.data.length = x.size) ∧
      (∀ x ∈ ds, x.size + netHeaderSize ≤ ((first :: hops).getLast (by simp)).mtu) ∧
      (∀ x ∈ ds, 8 ∣ x.offset) ∧
      (∃ init last, ds = init ++ [last] ∧ (∀ x ∈ init, x.more = 1) ∧ last.more = 0) ∧
      ∀ x ∈ ds, x.id = first.countId ∧ x.src = r.num ∧ x.dest = dest := by
  obtain ⟨ds, hds, hp, hkey, hsizes⟩ := sendAlong_spec hsend hproto hlen hmtu
  refine ⟨ds, hds, hp.tiles.imp fun b x _ hx => hx.1, hp.bytes, hp.sized, ?_, ?_, hp.flags, hkey⟩
  · intro x hx
    -- the sizes are those the last link was cut for
    have hlast := List.dropLast_append_getLast (l := first :: hops) (by simp)
    have hmem : x.size ∈ pathSizes ((first :: hops).map Hop.mtu) payload.length := by
      rw [← hsizes]
      exact List.mem_map_of_mem hx
    rw [← hlast, List.map_append] at hmem
    exact mem_pathSizes_le (hmtu _ (List.getLast_mem _)).1 hmem
  · intro x hx
    exact (hp.forwardable hlen x hx).2.1

/-- A router whose neighbour is host 2. -/
def neighbourRouter : Router := Router.startRoutes (Router.init 1 fun i => if i.val = 1 then 576 else -1)

/-- Twenty bytes for its neighbour. -/
def twentyBytes : WaitListItem :=
  { dest := 2, src := 1, data := List.replicate 20 7, offset := 0, ttl := 6, size := 20, protocol := 1, id := 0,
    firstDestLink := 2 }

/-- Twenty bytes on a path of two links that hold 16 and 8 of them. -/
theorem twenty_bytes_tile_packet :
    ∃ ds, sendAlong twentyBytes ⟨2, 36, 0⟩ [⟨3, 28, 0⟩] = some ds ∧
      Tiles (fun b x => x.offset = b) Datagram.size 0 ds ∧
      ds.flatMap Datagram.data = List.replicate 20 7 ∧ (∀ x ∈ ds, x.data.length = x.size) ∧
      (∀ x ∈ ds, x.size + netHeaderSize ≤ 28) ∧
      (∀ x ∈ ds, 8 ∣ x.offset) ∧
      (∃ init last, ds = init ++ [last] ∧ (∀ x ∈ init, x.more = 1) ∧ last.more = 0) ∧
      ∀ x ∈ ds, x.id = 0 ∧ x.src = 1 ∧ x.dest = 2 :=
  have hsend : neighbourRouter.netSend 2 (List.replicate 20 7) (List.replicate 20 7).length 1 = some twentyBytes := by decide
  fragments_tile_packet hsend (Or.inr rfl) (by decide) ⟨2, 36, 0⟩ [⟨3, 28, 0⟩] (by decide)

end NetworkLayers
