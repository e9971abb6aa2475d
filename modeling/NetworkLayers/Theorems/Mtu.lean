import NetworkLayers.Net.Forward
import NetworkLayers.Lemmas.Frag

/-!
# The MTU of the network layer and of the link layer

`fragpack` and `fragpack2` fill a link to its MTU, and `link_send` refuses what is as large as the MTU although it reports it as
larger. A datagram is refused when it is as large as the MTU, or when it is cut and the MTU leaves a multiple of 8 behind the
header. An MTU that leaves no 8 bytes behind the header is not looked out for.
-/

namespace NetworkLayers

namespace MtuAux

theorem linkSend_iff {mtu : Nat} (hmtu : mtu ≤ 65535) (size : Nat) : linkSend mtu size = true ↔ size < mtu := by
  unfold linkSend
  rw [decide_eq_true_iff]
  omega

end MtuAux

open MtuAux in
/-- Of an item of the send queue, every datagram is accepted by the link exactly when the whole one is not as large as the MTU,
and, where it is larger, the MTU does not leave a multiple of 8 behind the header. -/
theorem link_send_accepts_iff {item : WaitListItem} (hsize : item.size < 18446744073709551616) {mtu : Nat} (hmtu : 28 ≤ mtu)
    (hmtu' : mtu ≤ 65535) (countId : Nat) :
    ∃ ds n, internalsend mtu countId item = some (ds, n) ∧
      ((∀ d ∈ ds, linkSend mtu (u64 (d.size + netHeaderSize)) = true) ↔
        2 < item.protocol ∨
          (u64 (item.size + netHeaderSize) ≠ mtu ∧ (mtu < u64 (item.size + netHeaderSize) → mtu % 8 ≠ 4))) := by
  obtain ⟨ds, n, hds, hsizes⟩ := internalsend_sizes hsize hmtu hmtu' countId
  refine ⟨ds, n, hds, ?_⟩
  have haccept : (∀ d ∈ ds, linkSend mtu (u64 (d.size + netHeaderSize)) = true) ↔
      ∀ s ∈ ds.map Datagram.size, u64 (s + netHeaderSize) < mtu := by
    rw [List.forall_mem_map]
    exact forall₂_congr fun d _ => linkSend_iff hmtu' _
  rw [haccept, hsizes]
  split
  · rename_i hproto
    simp [hproto]
  · rename_i hproto
    split
    · rename_i hfit
      rw [List.forall_mem_singleton]
      omega
    · rename_i hcut
      have hg : fragSize mtu = mtu - 20 - (mtu - 20) % 8 := fragSize_eq hmtu hmtu'
      have hlong : mtu - 20 < item.size := by
        have : u64 (item.size + netHeaderSize) ≤ item.size + 20 := Nat.mod_le _ _
        omega
      have hfull : ∀ s, s ≤ fragSize mtu → u64 (s + netHeaderSize) = s + 20 := fun s hs => u64_of_lt (by
        unfold netHeaderSize
        omega)
      -- a datagram that is cut has a fragment of the full size
      have hmem : fragSize mtu ∈ chop (fragSize mtu) item.size := by
        rw [chop_of_gt (by omega) (by omega)]
        exact List.mem_cons_self
      constructor
      · intro h
        have hlt := h _ hmem
        rw [hfull _ (Nat.le_refl _)] at hlt
        exact Or.inr ⟨by omega, fun _ => by omega⟩
      · rintro h s hs
        have hle := mem_chop_le (by omega) hs
        rw [hfull s hle]
        omega

/-- A datagram of thirty bytes that is forwarded to host 2. -/
def thirtyBytes : WaitListItem :=
  { dest := 2, src := 1, data := List.replicate 30 7, offset := 0, ttl := 5, size := 30, protocol := 2, id := 9,
    firstDestLink := 2 }

/-- Over a link of MTU 39 it goes in two fragments, and both are accepted. -/
theorem thirty_bytes_accepted :
    ∃ ds n, internalsend (39 : Nat) 0 thirtyBytes = some (ds, n) ∧
      ∀ d ∈ ds, linkSend (39 : Nat) (u64 (d.size + netHeaderSize)) = true :=
  have ⟨ds, n, hds, hiff⟩ := link_send_accepts_iff (by decide : thirtyBytes.size < 18446744073709551616)
    (by decide : 28 ≤ 39) (by decide) 0
  ⟨ds, n, hds, hiff.2 (Or.inr (by decide))⟩

/-- Over a link of MTU 36 the first fragment fills the link and is refused. -/
theorem full_fragment_refused :
    ¬∀ (item : WaitListItem) (mtu countId : Nat), item.size < 18446744073709551616 → 28 ≤ mtu → mtu ≤ 65535 →
      ∃ ds n, internalsend mtu countId item = some (ds, n) ∧
        ∀ d ∈ ds, linkSend mtu (u64 (d.size + netHeaderSize)) = true := by
  intro h
  obtain ⟨ds, n, hds, hall⟩ := h thirtyBytes 36 0 (by decide) (by decide) (by decide)
  have hrefused : ¬∀ d ∈ ((internalsend (36 : Nat) 0 thirtyBytes).map Prod.fst).getD [],
      linkSend (36 : Nat) (u64 (d.size + netHeaderSize)) = true := by decide
  rw [hds] at hrefused
  exact hrefused hall

/-! ## Every MTU that can be configured -/

/-- What a call of `fragpack` or `fragpack2` is to do for an MTU: it returns, the header can be taken from the MTU, and no fragment
has more data than that leaves. -/
def RespectsMtu (mtu : Nat) (r : Option (Nat × List Datagram)) : Prop :=
  netHeaderSize ≤ mtu ∧
    ∃ k l, r = some (k, l) ∧ ∀ f ∈ l, f.size ≤ mtu - netHeaderSize ∧ f.data.length ≤ mtu - netHeaderSize

/-- The size with the header does not wrap, and it fits the MTU as a whole or the MTU leaves eight bytes behind the header. -/
def Fragmentable (size mtu : Nat) : Prop :=
  size + netHeaderSize < 18446744073709551616 ∧ (size + netHeaderSize ≤ mtu ∨ netHeaderSize + 8 ≤ mtu)

instance (size mtu : Nat) : Decidable (Fragmentable size mtu) := inferInstanceAs (Decidable (_ ∧ (_ ∨ _)))

namespace MtuAux

/-- With pieces of no bytes the loop makes no progress, however many rounds it is given. -/
theorem fragLoop_stuck (data : List Byte) {size off : Nat} (pos last fuel : Nat) (hsize : size < 18446744073709551616)
    (hoff : off < size) : fragLoop data size 0 pos last fuel off = none := by
  induction fuel with
  | zero => rfl
  | succ fuel ih =>
    have hleft : ¬subSize size off ≤ 0 := by
      rw [subSize_of_le hsize (Nat.le_of_lt hoff)]
      omega
    rw [fragLoop, if_neg hleft, Nat.add_zero, u64_of_lt (by omega), ih]
    rfl

/-- A fragment holds no more data than its header says. -/
theorem fragLoop_data {data : List Byte} {size g pos last fuel off : Nat} {l : List Datagram}
    (h : fragLoop data size g pos last fuel off = some l) : ∀ f ∈ l, f.data.length ≤ f.size := by
  have hheader : ∀ (bs : List Byte) (n x : Nat), (addheader bs n x).data.length ≤ (addheader bs n x).size :=
    fun bs n x => List.length_take_le n bs
  induction fuel generalizing off l with
  | zero => cases h
  | succ fuel ih =>
    simp only [fragLoop] at h
    split at h
    · cases h
      exact List.forall_mem_singleton.2 (hheader _ _ _)
    · obtain ⟨rest, hrest, rfl⟩ := Option.map_eq_some_iff.1 h
      exact List.forall_mem_cons.2 ⟨hheader _ _ _, ih hrest⟩

/-- For an MTU of a header and fewer than eight bytes the fragments have no bytes. -/
theorem fragSize_eq_zero {mtu : Nat} (hmtu : netHeaderSize ≤ mtu) (hmtu' : mtu < netHeaderSize + 8) : fragSize mtu = 0 := by
  have h20 : netHeaderSize = 20 := rfl
  rw [fragSize, subSize_of_le (by omega) hmtu]
  omega

/-- The two copies of the loop alike. -/
theorem respectsMtu_iff (last : Nat) {data : List Byte} (hsize : data.length < 18446744073709551616) {mtu : Nat}
    (hmtu : mtu ≤ 65535) (offset : Nat) :
    RespectsMtu mtu (fragpackWith last data data.length mtu offset) ↔ Fragmentable data.length mtu := by
  have h20 : netHeaderSize = 20 := rfl
  by_cases hfit : u64 (data.length + netHeaderSize) ≤ mtu
  · -- the whole, which is too long only where the sum has wrapped
    rw [fragpackWith, if_pos hfit]
    have hwhole : (addheader data data.length offset).data.length = data.length := by simp [addheader]
    unfold Fragmentable
    constructor
    · rintro ⟨hle, k, l, hl, hall⟩
      cases hl
      have hlen := (List.forall_mem_singleton.1 hall).1
      have hlen' : data.length ≤ mtu - netHeaderSize := hlen
      omega
    · rintro ⟨hwrap, -⟩
      rw [u64_of_lt hwrap] at hfit
      refine ⟨by omega, 0, _, rfl, List.forall_mem_singleton.2 ⟨?_, ?_⟩⟩
      · exact (by omega : data.length ≤ mtu - netHeaderSize)
      · rw [hwhole]
        omega
  · have hpos : 20 ≤ mtu → 0 < data.length := by
      intro hle
      rcases Nat.eq_zero_or_pos data.length with h0 | hpos
      · rw [h0] at hfit
        exact absurd (Nat.le_trans (by decide : u64 (0 + netHeaderSize) ≤ 20) hle) hfit
      · exact hpos
    have hnowrap : 20 ≤ mtu → data.length + netHeaderSize < 18446744073709551616 := by
      intro hle
      by_contra hge
      refine hfit (Nat.le_trans ?_ hle)
      unfold u64
      omega
    have hcut : ¬(data.length + netHeaderSize < 18446744073709551616 ∧ data.length + netHeaderSize ≤ mtu) := by
      rintro ⟨hlt, hle⟩
      rw [u64_of_lt hlt] at hfit
      exact hfit hle
    rcases Nat.lt_or_ge mtu 28 with hsmall | hlarge
    · -- the subtraction wraps below 20, and the fragments are empty from 20 on
      refine iff_of_false ?_ ?_
      · rintro ⟨hle, k, l, hl, -⟩
        rw [fragpackWith, if_neg hfit, fragSize_eq_zero hle (by omega), fragLoop_stuck data _ _ _ hsize (hpos (by omega))] at hl
        cases hl
      · rintro ⟨hlt, hle | hle⟩
        · exact hcut ⟨hlt, hle⟩
        · omega
    · refine iff_of_true ⟨by omega, ?_⟩ ⟨hnowrap (by omega), Or.inr (by omega)⟩
      obtain ⟨k, l, hl, hk, hsizes⟩ := fragpackWith_sizes data hsize hlarge hmtu last offset
      have hk0 : k ≠ 0 := mt hk.1 hfit
      refine ⟨k, l, hl, ?_⟩
      rw [fragpackWith, if_neg hfit] at hl
      obtain ⟨l', hl', heq⟩ := Option.map_eq_some_iff.1 hl
      obtain ⟨-, rfl⟩ := Prod.mk.inj heq
      intro f hf
      have hg : fragSize mtu = mtu - netHeaderSize - (mtu - netHeaderSize) % 8 := fragSize_eq hlarge hmtu
      have hchop : f.size ∈ chop (fragSize mtu) data.length := by
        rw [← hsizes hk0]
        exact List.mem_map_of_mem hf
      have hle := mem_chop_le (by omega) hchop
      have hdata := fragLoop_data hl' f hf
      omega

theorem mtuArg_le (mtu : Int) : mtuArg mtu ≤ 65535 := by
  unfold mtuArg
  omega

end MtuAux

open MtuAux in
/-- Whatever `int` a link has as its MTU, cut to 16 bits at the call: `fragpack` and `fragpack2` return with fragments that fit
exactly when the payload fits as a whole, or the 16 bits hold a header and eight bytes. -/
theorem fragmentation_respects_mtu_iff {data : List Byte} (hsize : data.length < 18446744073709551616) (mtu : Int)
    (offset : Nat) :
    (RespectsMtu (mtuArg mtu) (fragpack data data.length (mtuArg mtu) offset) ↔ Fragmentable data.length (mtuArg mtu)) ∧
      (RespectsMtu (mtuArg mtu) (fragpack2 data data.length (mtuArg mtu) offset) ↔ Fragmentable data.length (mtuArg mtu)) :=
  ⟨respectsMtu_iff _ hsize (mtuArg_le mtu) offset, respectsMtu_iff _ hsize (mtuArg_le mtu) offset⟩

/-- Thirty bytes over a link of MTU 65576, of which the call keeps 40. -/
theorem cut_mtu_respected :
    RespectsMtu 40 (fragpack (List.replicate 30 7) 30 (mtuArg 65576) 0) ∧
      RespectsMtu 40 (fragpack2 (List.replicate 30 7) 30 (mtuArg 65576) 0) := by
  have hsize : (List.replicate 30 7 : List Byte).length < 18446744073709551616 := by decide
  obtain ⟨hfirst, hsecond⟩ := fragmentation_respects_mtu_iff hsize 65576 0
  exact ⟨hfirst.2 (by decide), hsecond.2 (by decide)⟩

open MtuAux in
/-- For an MTU of 27, eight bytes are cut into fragments of none, without an end; for one of 19, the header is taken from less than
itself, and eight bytes go out as they are. -/
theorem small_mtu_not_respected :
    (¬∀ (data : List Byte) (mtu : Int) (offset : Nat), data.length < 18446744073709551616 → mtu ≠ -1 →
      RespectsMtu (mtuArg mtu) (fragpack data data.length (mtuArg mtu) offset) ∧
        RespectsMtu (mtuArg mtu) (fragpack2 data data.length (mtuArg mtu) offset)) ∧
      (∀ fuel, fragLoop (List.replicate 8 7) 8 (fragSize 27) 0 0 fuel 0 = none) ∧ 8 < fragSize 19 ∧
      ∃ f, fragpack (List.replicate 8 7) 8 19 0 = some (1, [f]) ∧ f.size = 8 := by
  refine ⟨?_, ?_, by decide, _, rfl, rfl⟩
  · intro h
    have hbad := (h (List.replicate 8 7) 27 0 (by decide) (by decide)).1
    exact absurd ((respectsMtu_iff 0 (by decide) (by decide) 0).1 hbad) (by decide)
  · intro fuel
    rw [fragSize_eq_zero (by decide) (by decide)]
    exact fragLoop_stuck _ _ _ fuel (by decide) (by decide)

end NetworkLayers
