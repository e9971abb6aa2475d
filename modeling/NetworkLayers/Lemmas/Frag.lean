import NetworkLayers.Net.Send
import NetworkLayers.Lib.Tiling
import Mathlib.Data.List.Chain

/-!
# Fragmentation: what the pieces are

`Pieces data pos more l` says that the datagrams of `l` hold the bytes `data` from the position `pos` of a packet on. Cutting a
piece gives pieces that lie in its place (`fragpackWith_spec`, `internalsend_spec`), of sizes that depend on its size and the MTU
alone (`cutSizes`), and a hop therefore takes the pieces of a packet to pieces of the same packet (`cross_spec`).
-/

namespace NetworkLayers

open Tiling

/-! ## The field `frag` -/

theorem or_moreFrags {x : Nat} (h : x < 32768) : x ||| moreFrags = x + 32768 := by
  have hor : 2 ^ 15 * 1 + x = 2 ^ 15 * 1 ||| x := Nat.two_pow_add_eq_or_of_lt h 1
  have hMF : moreFrags = 2 ^ 15 * 1 := rfl
  rw [hMF, Nat.or_comm, ← hor]
  omega

theorem more_or_moreFrags (x : Nat) : u16 (x ||| moreFrags) >>> offsetFieldLength = 1 := by
  have hshift : (x ||| moreFrags) >>> offsetFieldLength = x >>> offsetFieldLength ||| 1 := Nat.shiftRight_or_distrib
  have hodd : (x >>> offsetFieldLength ||| 1) % 2 = 1 := Nat.or_mod_two_eq_one.2 (Or.inr rfl)
  rw [← hshift] at hodd
  simp only [u16, Nat.shiftRight_eq_div_pow, offsetFieldLength] at hodd ⊢
  omega

theorem offsetField_or_moreFrags (x : Nat) : offsetField (u16 (x ||| moreFrags)) = offsetField x := by
  have hmod : (x ||| moreFrags) % 2 ^ 15 = x % 2 ^ 15 := by
    rw [Nat.or_mod_two_pow]
    exact Nat.or_zero _
  simp only [offsetField, u16]
  omega

/-- What `addheader` writes for a position and the more-fragments bit `more`. -/
theorem addheader_spec {data : List Byte} {size x more : Nat} (hlen : data.length = size) (hx : x < 32768) (hm : more ≤ 1) :
    (addheader data size (x + more * 32768)).offset = x ∧ (addheader data size (x + more * 32768)).more = more ∧
      (addheader data size (x + more * 32768)).data = data := by
  have hfrag : u16 (x + more * 32768) = x + more * 32768 := u16_of_lt (by omega)
  simp only [addheader, Datagram.offset, Datagram.more, offsetField, offsetFieldLength, hfrag, Nat.shiftRight_eq_div_pow]
  refine ⟨by omega, by omega, ?_⟩
  rw [← hlen, List.take_length]

/-! ## The sizes of the pieces -/

/-- The sizes of the pieces of `n` bytes that `fragLoop` cuts: as many of `g` bytes as leave at least one byte, and the rest. -/
def chop (g n : Nat) : List Nat := List.replicate ((n - 1) / g) g ++ [n - (n - 1) / g * g]

theorem chop_of_le {g n : Nat} (h0 : 0 < n) (h : n ≤ g) : chop g n = [n] := by
  have hdiv : (n - 1) / g = 0 := Nat.div_eq_of_lt (by omega)
  simp [chop, hdiv]

theorem chop_of_gt {g n : Nat} (hg : 0 < g) (h : g < n) : chop g n = g :: chop g (n - g) := by
  have hdiv : (n - 1) / g = (n - g - 1) / g + 1 := by
    rw [← Nat.add_div_right _ hg]
    congr 1
    omega
  have hrest : n - ((n - g - 1) / g + 1) * g = n - g - (n - g - 1) / g * g := by
    rw [Nat.add_mul]
    omega
  rw [chop, hdiv, hrest, List.replicate_succ]
  rfl

/-- Together they are `n` bytes. -/
theorem sum_chop (g n : Nat) : (chop g n).sum = n := by
  have hle : (n - 1) / g * g ≤ n := Nat.le_trans (Nat.div_mul_le_self (n - 1) g) (Nat.sub_le n 1)
  rw [chop, List.sum_append, List.sum_replicate_nat, List.sum_singleton]
  omega

/-- The sizes of the datagrams `internalsend` makes of `n` bytes for a link. -/
def cutSizes (mtu n : Nat) : List Nat :=
  if n + netHeaderSize ≤ mtu then [n] else chop (mtu - netHeaderSize - (mtu - netHeaderSize) % 8) n

theorem mem_chop_le {g n s : Nat} (hg : 0 < g) (hs : s ∈ chop g n) : s ≤ g := by
  have hmod : n - 1 - (n - 1) / g * g < g := by
    have := Nat.div_add_mod' (n - 1) g
    have := Nat.mod_lt (n - 1) hg
    omega
  rcases List.mem_append.1 hs with hs | hs
  · exact Nat.le_of_eq (List.eq_of_mem_replicate hs)
  · rw [List.mem_singleton] at hs
    omega

/-- A piece fits the link it is cut for. -/
theorem mem_cutSizes_le {mtu n s : Nat} (hmtu : 28 ≤ mtu) (hs : s ∈ cutSizes mtu n) : s + netHeaderSize ≤ mtu := by
  unfold cutSizes netHeaderSize at *
  split at hs
  · rw [List.mem_singleton] at hs
    omega
  · have := mem_chop_le (by omega) hs
    omega

/-- No piece of a packet that is not empty is empty. -/
theorem mem_cutSizes_pos {mtu n s : Nat} (hn : 0 < n) (hs : s ∈ cutSizes mtu n) (hmtu : 28 ≤ mtu) : 0 < s := by
  unfold cutSizes at hs
  split at hs
  · rw [List.mem_singleton] at hs
    omega
  · have hg : 0 < mtu - netHeaderSize - (mtu - netHeaderSize) % 8 := by
      unfold netHeaderSize
      omega
    rcases List.mem_append.1 hs with hs | hs
    · rw [List.eq_of_mem_replicate hs]
      exact hg
    · rw [List.mem_singleton] at hs
      have := Nat.div_mul_le_self (n - 1) (mtu - netHeaderSize - (mtu - netHeaderSize) % 8)
      omega

/-- A packet that does not fit the link is cut in two or more. -/
theorem one_lt_length_cutSizes {mtu n : Nat} (hmtu : 28 ≤ mtu) (hn : mtu < n + netHeaderSize) :
    1 < (cutSizes mtu n).length := by
  rw [cutSizes, if_neg (by omega), chop, List.length_append, List.length_replicate, List.length_singleton]
  have hpos : 0 < (n - 1) / (mtu - netHeaderSize - (mtu - netHeaderSize) % 8) := by
    unfold netHeaderSize at *
    exact Nat.div_pos (by omega) (by omega)
  omega

/-! ## Pieces of a packet -/

/-- The datagrams hold the bytes `data` from the position `pos` of a packet on, one behind the other and each at a multiple of
8; the more-fragments bit of the last is `more`, of the others 1. -/
structure Pieces (data : List Byte) (pos more : Nat) (l : List Datagram) : Prop where
  tiles : Tiles (fun b x => x.offset = b ∧ 8 ∣ b) Datagram.size pos l
  bytes : l.flatMap Datagram.data = data
  sized : ∀ x ∈ l, x.data.length = x.size
  flags : ∃ init last, l = init ++ [last] ∧ (∀ x ∈ init, x.more = 1) ∧ last.more = more

/-- The pieces reach as far as the bytes they hold. -/
theorem Pieces.total_eq {data : List Byte} {pos more : Nat} {l : List Datagram} (h : Pieces data pos more l) :
    total Datagram.size l = data.length := by
  rw [← h.bytes, List.length_flatMap, total]
  congr 1
  exact List.map_congr_left fun x hx => (h.sized x hx).symm

/-- One datagram that holds the bytes. -/
theorem Pieces.single {data : List Byte} {pos more : Nat} {d : Datagram} (h8 : 8 ∣ pos) (hoff : d.offset = pos)
    (hdata : d.data = data) (hlen : data.length = d.size) (hmore : d.more = more) : Pieces data pos more [d] where
  tiles := ⟨⟨hoff, h8⟩, trivial⟩
  bytes := by simpa using hdata
  sized x hx := by rw [List.mem_singleton.1 hx, hdata, hlen]
  flags := ⟨[], d, rfl, by simp, hmore⟩

/-- A packet has a piece, and a piece with others behind it has the more-fragments bit. -/
theorem Pieces.first {data : List Byte} {pos more : Nat} {l : List Datagram} (h : Pieces data pos more l) :
    ∃ d rest, l = d :: rest ∧ d.offset = pos ∧ d.more = if rest = [] then more else 1 := by
  obtain ⟨init, last, rfl, hinit, hlast⟩ := h.flags
  cases init with
  | nil => exact ⟨last, [], rfl, h.tiles.1.1, by simpa using hlast⟩
  | cons d init => exact ⟨d, init ++ [last], rfl, h.tiles.1.1, by simpa using hinit d List.mem_cons_self⟩

/-- A datagram with the more-fragments bit, in front of the pieces behind it. -/
theorem Pieces.cons {data : List Byte} {pos more : Nat} {l : List Datagram} {d : Datagram} (h8 : 8 ∣ pos)
    (hoff : d.offset = pos) (hlen : d.data.length = d.size) (hmore : d.more = 1) (h : Pieces data (pos + d.size) more l) :
    Pieces (d.data ++ data) pos more (d :: l) where
  tiles := ⟨⟨hoff, h8⟩, h.tiles⟩
  bytes := by rw [List.flatMap_cons, h.bytes]
  sized := List.forall_mem_cons.2 ⟨hlen, h.sized⟩
  flags := by
    obtain ⟨init, last, rfl, hinit, hlast⟩ := h.flags
    exact ⟨d :: init, last, rfl, List.forall_mem_cons.2 ⟨hmore, hinit⟩, hlast⟩

/-- Other fields of the datagrams do not matter. -/
theorem Pieces.map {data : List Byte} {pos more : Nat} {l : List Datagram} {f : Datagram → Datagram}
    (hf : ∀ x ∈ l, (f x).size = x.size ∧ (f x).frag = x.frag ∧ (f x).data = x.data) (h : Pieces data pos more l) :
    Pieces data pos more (l.map f) where
  tiles := by
    have hflat : l.map f = l.flatMap fun x => [f x] := (List.flatMap_pure_eq_map f l).symm
    rw [hflat]
    refine h.tiles.flatMap (fun b x hx hb => ⟨⟨?_, hb.2⟩, trivial⟩) fun x hx => by simp [(hf x hx).1]
    rw [Datagram.offset, (hf x hx).2.1]
    exact hb.1
  bytes := by
    rw [List.flatMap_map, ← h.bytes]
    exact List.flatMap_congr fun x hx => (hf x hx).2.2
  sized := by
    intro y hy
    obtain ⟨x, hx, rfl⟩ := List.mem_map.1 hy
    obtain ⟨h1, -, h3⟩ := hf x hx
    rw [h1, h3]
    exact h.sized x hx
  flags := by
    obtain ⟨init, last, rfl, hinit, hlast⟩ := h.flags
    have hmore : ∀ x ∈ init ++ [last], (f x).more = x.more := fun x hx => by
      rw [Datagram.more, (hf x hx).2.1, Datagram.more]
    refine ⟨init.map f, f last, by simp, ?_, by rw [hmore last (by simp), hlast]⟩
    intro y hy
    obtain ⟨x, hx, rfl⟩ := List.mem_map.1 hy
    rw [hmore x (List.mem_append_left _ hx), hinit x hx]

/-- Cutting every piece of a packet gives pieces of the packet. -/
theorem Pieces.flatMap {data : List Byte} {pos more : Nat} {l : List Datagram} {f : Datagram → List Datagram}
    (h : Pieces data pos more l) (hf : ∀ x ∈ l, 8 ∣ x.offset → Pieces x.data x.offset x.more (f x)) :
    Pieces data pos more (l.flatMap f) := by
  have h8 : ∀ x ∈ l, 8 ∣ x.offset := by
    intro x hx
    obtain ⟨l₁, l₂, rfl⟩ := List.append_of_mem hx
    obtain ⟨h1, h2⟩ := h.tiles.here_of_append
    rw [h1]
    exact h2
  have hcut : ∀ x ∈ l, Pieces x.data x.offset x.more (f x) := fun x hx => hf x hx (h8 x hx)
  refine ⟨?_, ?_, ?_, ?_⟩
  · refine h.tiles.flatMap ?_ ?_
    · intro b x hx hb
      rw [← hb.1]
      exact (hcut x hx).tiles
    · intro x hx
      rw [(hcut x hx).total_eq, h.sized x hx]
  · rw [List.flatMap_assoc, ← h.bytes]
    exact List.flatMap_congr fun x hx => (hcut x hx).bytes
  · intro y hy
    obtain ⟨x, hx, hy⟩ := List.mem_flatMap.1 hy
    exact (hcut x hx).sized y hy
  · obtain ⟨init, last, rfl, hinit, hlast⟩ := h.flags
    obtain ⟨init', last', hl', hinit', hlast'⟩ := (hcut last (by simp)).flags
    refine ⟨init.flatMap f ++ init', last', by simp [List.flatMap_append, hl'], ?_, by rw [hlast', hlast]⟩
    intro y hy
    rcases List.mem_append.1 hy with hy | hy
    · obtain ⟨x, hx, hy⟩ := List.mem_flatMap.1 hy
      obtain ⟨i, z, hz, hi, hzm⟩ := (hcut x (List.mem_append_left _ hx)).flags
      rw [hz] at hy
      rcases List.mem_append.1 hy with hy | hy
      · exact hi y hy
      · rw [List.mem_singleton.1 hy, hzm, hinit x hx]
    · exact hinit' y hy

/-! ## The loop -/

/-- From a position inside the packet on, the loop comes to its end and cuts the rest into pieces of these sizes. -/
theorem fragLoop_sizes (data : List Byte) {size g fuel off : Nat} (pos last : Nat) (hsize : size < 18446744073709551616)
    (hg : 0 < g) (hoff : off < size) (hfuel : size - off ≤ fuel) :
    ∃ l, fragLoop data size g pos last fuel off = some l ∧ l.map Datagram.size = chop g (size - off) := by
  induction fuel generalizing off with
  | zero => omega
  | succ fuel ih =>
    have hsub : subSize size off = size - off := subSize_of_le hsize (Nat.le_of_lt hoff)
    simp only [fragLoop, hsub]
    by_cases hle : size - off ≤ g
    · rw [if_pos hle, chop_of_le (by omega) hle]
      exact ⟨_, rfl, rfl⟩
    · rw [if_neg hle, u64_of_lt (by omega)]
      have hoff' : off + g < size := by omega
      obtain ⟨l, hl, hsizes⟩ := ih hoff' (by omega)
      rw [hl, chop_of_gt hg (by omega)]
      refine ⟨_, rfl, ?_⟩
      rw [List.map_cons, hsizes, Nat.sub_sub]
      rfl

/-- Every piece but the last has the more-fragments bit and the full size. -/
theorem fragLoop_flags {data : List Byte} {size g pos last fuel off : Nat} {l : List Datagram}
    (h : fragLoop data size g pos last fuel off = some l) :
    ∃ init z, l = init ++ [z] ∧ ∀ x ∈ init, x.more = 1 ∧ x.size = g := by
  induction fuel generalizing off l with
  | zero => cases h
  | succ fuel ih =>
    simp only [fragLoop] at h
    split at h
    · cases h
      exact ⟨[], _, rfl, by simp⟩
    · obtain ⟨rest, hrest, rfl⟩ := Option.map_eq_some_iff.1 h
      obtain ⟨init, z, rfl, hinit⟩ := ih hrest
      refine ⟨_ :: init, z, rfl, List.forall_mem_cons.2 ⟨⟨?_, rfl⟩, hinit⟩⟩
      exact more_or_moreFrags (off + pos)

/-- Each piece begins where the one before it ends, as far as 15 bits tell. -/
theorem fragLoop_isChain {data : List Byte} {size g pos fuel off : Nat} {l : List Datagram} (hsize : size < 18446744073709551616)
    (hoff : off < size) (h : fragLoop data size g pos 0 fuel off = some l) :
    (l.IsChain fun x y => y.offset = offsetField (x.offset + g)) ∧ ∃ d rest, l = d :: rest ∧ d.offset = offsetField (off + pos) := by
  have hlast : ∀ x, offsetField (u16 x) = offsetField x := by
    intro x
    simp only [offsetField, u16]
    omega
  induction fuel generalizing off l with
  | zero => cases h
  | succ fuel ih =>
    have hsub : subSize size off = size - off := subSize_of_le hsize (Nat.le_of_lt hoff)
    simp only [fragLoop, hsub] at h
    split at h
    · cases h
      exact ⟨List.isChain_singleton _, _, [], rfl, by rw [Nat.or_zero]; exact hlast _⟩
    · rw [u64_of_lt (by omega)] at h
      obtain ⟨rest, hrest, rfl⟩ := Option.map_eq_some_iff.1 h
      obtain ⟨hchain, d, rest, rfl, hd⟩ := ih (by omega) hrest
      have hfirst := offsetField_or_moreFrags (off + pos)
      refine ⟨List.isChain_cons_cons.2 ⟨?_, hchain⟩, _, _, rfl, hfirst⟩
      show d.offset = offsetField (offsetField (u16 ((off + pos) ||| moreFrags)) + g)
      rw [hfirst, hd]
      simp only [offsetField]
      omega

/-- What the loop cuts the rest into lies in its place. -/
theorem fragLoop_pieces {data : List Byte} {g pos more fuel off : Nat} {l : List Datagram} (hlen : data.length ≤ 32768)
    (h8 : 8 ∣ g) (hpos8 : 8 ∣ pos) (hpos : pos + data.length ≤ 32768) (hm : more ≤ 1) (hoff8 : 8 ∣ off)
    (hoff : off < data.length) (h : fragLoop data data.length g pos (more * moreFrags) fuel off = some l) :
    Pieces (data.drop off) (pos + off) more l := by
  have hMF : moreFrags = 32768 := rfl
  have hor : ∀ x m : Nat, x < 32768 → m ≤ 1 → x ||| m * moreFrags = x + m * 32768 := by
    intro x m hx hm
    rcases Nat.le_one_iff_eq_zero_or_eq_one.1 hm with rfl | rfl
    · simp
    · rw [Nat.one_mul, or_moreFrags hx]
  induction fuel generalizing off l with
  | zero => cases h
  | succ fuel ih =>
    have hsub : subSize data.length off = data.length - off := subSize_of_le (by omega) (Nat.le_of_lt hoff)
    simp only [fragLoop, hsub] at h
    by_cases hle : data.length - off ≤ g
    · -- the last piece
      rw [if_pos hle, hor _ _ (by omega) hm, Nat.add_comm off pos] at h
      have htake : (data.drop off).take (data.length - off) = data.drop off :=
        List.take_of_length_le (Nat.le_of_eq List.length_drop)
      have hx : pos + off < 32768 := by omega
      have hlen' : (data.drop off).length = data.length - off := List.length_drop
      obtain ⟨ho, hmo, hd⟩ := addheader_spec hlen' hx hm
      rw [htake] at h
      cases h
      exact Pieces.single (Nat.dvd_add hpos8 hoff8) ho hd List.length_drop hmo
    · rw [if_neg hle, u64_of_lt (by omega)] at h
      obtain ⟨rest, hrest, rfl⟩ := Option.map_eq_some_iff.1 h
      have hpieces := ih (Nat.dvd_add hoff8 h8) (by omega) hrest
      have hlen' : ((data.drop off).take g).length = g := by
        rw [List.length_take, List.length_drop]
        omega
      have hor1 := hor (off + pos) 1 (by omega) (Nat.le_refl 1)
      rw [Nat.one_mul] at hor1
      have hx : off + pos < 32768 := by omega
      obtain ⟨ho, hmo, hd⟩ := addheader_spec hlen' hx (Nat.le_refl 1)
      rw [hor1]
      have hend : pos + (off + g) = pos + off + (addheader ((data.drop off).take g) g (off + pos + 1 * 32768)).size :=
        (Nat.add_assoc pos off g).symm
      rw [hend] at hpieces
      have hcons := hpieces.cons (Nat.dvd_add hpos8 hoff8) (by rw [ho, Nat.add_comm]) (by rw [hd]; exact hlen') hmo
      rw [hd, ← List.drop_drop, List.take_append_drop] at hcons
      exact hcons

/-- The size of the pieces for an MTU that holds a header and eight bytes. -/
theorem fragSize_eq {mtu : Nat} (hmtu : 28 ≤ mtu) (hmtu' : mtu ≤ 65535) :
    fragSize mtu = mtu - netHeaderSize - (mtu - netHeaderSize) % 8 := by
  rw [fragSize, subSize_of_le (by omega) (by unfold netHeaderSize; omega)]

/-- What does not fit the MTU is not empty. -/
theorem size_pos_of_cut {size mtu : Nat} (hmtu : 28 ≤ mtu) (h : ¬u64 (size + netHeaderSize) ≤ mtu) : 0 < size := by
  rcases Nat.eq_zero_or_pos size with rfl | hpos
  · exact absurd (Nat.le_trans (by decide : u64 (0 + netHeaderSize) ≤ 28) hmtu) h
  · exact hpos

/-- Fragmentation returns for every size: the datagram whole when it fits the MTU, and else fragments of these sizes. -/
theorem fragpackWith_sizes (data : List Byte) {size mtu : Nat} (hsize : size < 18446744073709551616) (hmtu : 28 ≤ mtu)
    (hmtu' : mtu ≤ 65535) (last offset : Nat) :
    ∃ k l, fragpackWith last data size mtu offset = some (k, l) ∧ (k = 0 ↔ u64 (size + netHeaderSize) ≤ mtu) ∧
      (k ≠ 0 → l.map Datagram.size = chop (fragSize mtu) size) := by
  unfold fragpackWith
  by_cases hfit : u64 (size + netHeaderSize) ≤ mtu
  · rw [if_pos hfit]
    exact ⟨0, _, rfl, by simp [hfit], fun h => absurd rfl h⟩
  · rw [if_neg hfit]
    have hg : 0 < fragSize mtu := by
      rw [fragSize_eq hmtu hmtu']
      unfold netHeaderSize
      omega
    obtain ⟨l, hl, hsizes⟩ := fragLoop_sizes data (offsetField offset) last hsize hg (size_pos_of_cut hmtu hfit)
      (Nat.le_succ size)
    rw [hl]
    exact ⟨1, l, rfl, by simp [hfit], fun _ => hsizes⟩

/-- Fragmentation returns, and cuts the bytes of a datagram into pieces that fit the MTU: the datagram whole when it fits, and
else fragments. -/
theorem fragpackWith_spec {data : List Byte} {mtu offset last : Nat} (hmtu : 28 ≤ mtu) (hmtu' : mtu ≤ 65535)
    (h16 : offset < 65536) (h8 : 8 ∣ offsetField offset) (hend : offsetField offset + data.length ≤ 32768)
    (hlast : last = offset >>> offsetFieldLength * moreFrags) :
    ∃ k l, fragpackWith last data data.length mtu offset = some (k, l) ∧ (k = 0 ↔ data.length + netHeaderSize ≤ mtu) ∧
      (k ≠ 0 → l.map Datagram.size = cutSizes mtu data.length ∧
        Pieces data (offsetField offset) (offset >>> offsetFieldLength) l) := by
  have hmore : offset >>> offsetFieldLength ≤ 1 := by
    rw [Nat.shiftRight_eq_div_pow]
    show offset / 2 ^ 15 ≤ 1
    omega
  have hsize : u64 (data.length + netHeaderSize) = data.length + netHeaderSize := u64_of_lt (by unfold netHeaderSize; omega)
  have hlen : data.length < 18446744073709551616 := by omega
  obtain ⟨k, l, hkl, hk, hcut⟩ := fragpackWith_sizes data hlen hmtu hmtu' last offset
  rw [hsize] at hk
  refine ⟨k, l, hkl, hk, fun h0 => ⟨?_, ?_⟩⟩
  · rw [hcut h0, cutSizes, if_neg (mt hk.2 h0), fragSize_eq hmtu hmtu']
  · have hfit : ¬data.length + netHeaderSize ≤ mtu := mt hk.2 h0
    have hg : 8 ∣ fragSize mtu := by
      rw [fragSize_eq hmtu hmtu']
      omega
    have hpos : 0 < data.length := by
      unfold netHeaderSize at hfit
      omega
    rw [fragpackWith, hsize, if_neg hfit, hlast] at hkl
    obtain ⟨l', hl', heq⟩ := Option.map_eq_some_iff.1 hkl
    cases heq
    simpa using fragLoop_pieces (by omega) hg h8 hend hmore (Nat.dvd_zero 8) hpos hl'

/-! ## One hop -/

/-- What the datagrams `internalsend` hands to the link have of the item. -/
theorem internalsend_fields {mtu : Int} {countId n : Nat} {item : WaitListItem} {l : List Datagram}
    (h : internalsend mtu countId item = some (l, n)) :
    ∀ x ∈ l, x.protocol = item.protocol ∧ x.ttl = item.ttl ∧ x.dest = item.dest ∧ x.src = item.src ∧
      x.id = if item.protocol = 2 then item.id else countId := by
  have hpieces : ∀ id r, ∀ x ∈ item.pieces id r,
      x.protocol = item.protocol ∧ x.ttl = item.ttl ∧ x.dest = item.dest ∧ x.src = item.src ∧ x.id = id := by
    intro id r x hx
    unfold WaitListItem.pieces at hx
    split at hx
    · rw [List.mem_singleton.1 hx]
      exact ⟨rfl, rfl, rfl, rfl, rfl⟩
    · obtain ⟨f, -, rfl⟩ := List.mem_map.1 hx
      exact ⟨rfl, rfl, rfl, rfl, rfl⟩
  unfold internalsend at h
  split at h
  · rename_i hp
    obtain ⟨r, -, hr⟩ := Option.map_eq_some_iff.1 h
    cases hr
    have hne : item.protocol ≠ 2 := by omega
    simpa only [hne, if_false] using hpieces countId r
  · split at h
    · rename_i hp
      obtain ⟨r, -, hr⟩ := Option.map_eq_some_iff.1 h
      cases hr
      simpa only [hp, if_true] using hpieces item.id r
    · cases h
      simp

/-- The sizes of what `internalsend` passes on: nothing for a protocol it does not know, and else the datagram whole or cut. -/
theorem internalsend_sizes {item : WaitListItem} (hsize : item.size < 18446744073709551616) {mtu : Nat} (hmtu : 28 ≤ mtu)
    (hmtu' : mtu ≤ 65535) (countId : Nat) :
    ∃ ds n, internalsend mtu countId item = some (ds, n) ∧
      ds.map Datagram.size =
        if 2 < item.protocol then []
        else if u64 (item.size + netHeaderSize) ≤ mtu then [item.size]
        else chop (fragSize mtu) item.size := by
  have harg : mtuArg (mtu : Int) = mtu := by
    unfold mtuArg
    omega
  -- what becomes of the result of either fragmentation
  have hpieces : ∀ last id, ∃ r, fragpackWith last item.data item.size (mtuArg mtu) item.offset = some r ∧
      (item.pieces id r).map Datagram.size =
        if u64 (item.size + netHeaderSize) ≤ mtu then [item.size] else chop (fragSize mtu) item.size := by
    intro last id
    obtain ⟨k, l, hkl, hk, hcut⟩ := fragpackWith_sizes item.data hsize hmtu hmtu' last item.offset
    rw [harg]
    refine ⟨(k, l), hkl, ?_⟩
    unfold WaitListItem.pieces
    by_cases h0 : k = 0
    · rw [if_pos h0, if_pos (hk.1 h0)]
      rfl
    · rw [if_neg h0, if_neg (mt hk.2 h0), ← hcut h0, List.map_map]
      rfl
  unfold internalsend
  by_cases hself : item.protocol = 1 ∨ item.protocol = 0
  · obtain ⟨r, hr, hsizes⟩ := hpieces 0 countId
    rw [if_pos hself, fragpack, hr, if_neg (by omega)]
    exact ⟨_, _, rfl, hsizes⟩
  · rw [if_neg hself]
    by_cases hforward : item.protocol = 2
    · obtain ⟨r, hr, hsizes⟩ := hpieces (if item.offset >>> offsetFieldLength = 1 then moreFrags else 0) item.id
      rw [if_pos hforward, fragpack2, hr, if_neg (by omega)]
      exact ⟨_, _, rfl, hsizes⟩
    · rw [if_neg hforward, if_pos (by omega)]
      exact ⟨_, _, rfl, rfl⟩

/-- What `internalsend` makes of a packet of the host itself, of any size: together the datagrams are as large, all but the last
are of the full size and have the more-fragments bit, and each begins where the one before it ends, as far as 15 bits tell. -/
theorem internalsend_own {item : WaitListItem} (hproto : item.protocol = 0 ∨ item.protocol = 1)
    (hsize : item.size < 18446744073709551616) {mtu countId n : Nat} (hmtu : 28 ≤ mtu) (hmtu' : mtu ≤ 65535)
    {ds : List Datagram} (h : internalsend mtu countId item = some (ds, n)) :
    total Datagram.size ds = item.size ∧
      (∃ init z, ds = init ++ [z] ∧ ∀ x ∈ init, x.more = 1 ∧ x.size = fragSize mtu) ∧
      ds.IsChain fun x y => y.offset = offsetField (x.offset + fragSize mtu) := by
  obtain ⟨ds', n', hds', hsizes⟩ := internalsend_sizes hsize hmtu hmtu' countId
  obtain ⟨rfl, -⟩ := Prod.mk.inj (Option.some.inj (hds'.symm.trans h))
  have harg : mtuArg (mtu : Int) = mtu := by
    unfold mtuArg
    omega
  refine ⟨?_, ?_⟩
  · rw [total, hsizes, if_neg (by omega)]
    split
    · exact List.sum_singleton
    · exact sum_chop _ _
  · rw [internalsend, if_pos (by omega), harg] at hds'
    obtain ⟨r, hr, heq⟩ := Option.map_eq_some_iff.1 hds'
    cases heq
    unfold WaitListItem.pieces
    split
    · exact ⟨⟨[], _, rfl, by simp⟩, List.isChain_singleton _⟩
    · rename_i hcut
      rw [fragpack, fragpackWith] at hr
      split at hr
      · cases hr
        exact absurd rfl hcut
      · rename_i hlarge
        obtain ⟨l, hl, rfl⟩ := Option.map_eq_some_iff.1 hr
        obtain ⟨init, z, hinitz, hinit⟩ := fragLoop_flags hl
        refine ⟨⟨init.map _, _, by rw [hinitz, List.map_append]; rfl, ?_⟩, ?_⟩
        · intro x hx
          obtain ⟨y, hy, rfl⟩ := List.mem_map.1 hx
          exact hinit y hy
        · rw [List.isChain_map]
          exact (fragLoop_isChain hsize (size_pos_of_cut hmtu hlarge) hl).1

/-- An item that `internalsend` can send: of the host itself, whole; or a piece to be forwarded. -/
def WaitListItem.Sendable (item : WaitListItem) : Prop :=
  item.offset < 65536 ∧ 8 ∣ offsetField item.offset ∧ offsetField item.offset + item.size ≤ 32768 ∧
    item.data.length = item.size ∧ (item.protocol = 2 ∨ (item.protocol = 0 ∨ item.protocol = 1) ∧ item.offset = 0)

/-- The sending thread cuts an item into pieces that lie in its place. -/
theorem internalsend_spec {item : WaitListItem} (hi : item.Sendable) {mtu : Nat} (hmtu : 28 ≤ mtu) (hmtu' : mtu ≤ 65535)
    (countId : Nat) :
    ∃ l n, internalsend mtu countId item = some (l, n) ∧ l.map Datagram.size = cutSizes mtu item.size ∧
      Pieces item.data (offsetField item.offset) (item.offset >>> offsetFieldLength) l := by
  obtain ⟨h16, h8, hend, hlen, hproto⟩ := hi
  have harg : mtuArg (mtu : Int) = mtu := by
    unfold mtuArg
    omega
  -- what becomes of the result of either fragmentation
  have hpieces : ∀ last id, last = item.offset >>> offsetFieldLength * moreFrags →
      ∃ r, fragpackWith last item.data item.size (mtuArg mtu) item.offset = some r ∧
        (item.pieces id r).map Datagram.size = cutSizes mtu item.size ∧
        Pieces item.data (offsetField item.offset) (item.offset >>> offsetFieldLength) (item.pieces id r) := by
    intro last id hlast
    have hend' : offsetField item.offset + item.data.length ≤ 32768 := by rw [hlen]; exact hend
    obtain ⟨k, l, hkl, hk, hcut⟩ := fragpackWith_spec hmtu hmtu' h16 h8 hend' hlast
    rw [hlen] at hkl hk hcut
    rw [harg]
    refine ⟨(k, l), hkl, ?_⟩
    unfold WaitListItem.pieces
    by_cases h0 : k = 0
    · rw [if_pos h0]
      refine ⟨by simp [WaitListItem.piece, cutSizes, hk.1 h0], Pieces.single h8 rfl ?_ hlen rfl⟩
      simp [WaitListItem.piece, ← hlen]
    · rw [if_neg h0]
      obtain ⟨hsizes, hp⟩ := hcut h0
      refine ⟨by rw [List.map_map, ← hsizes]; rfl, hp.map fun x hx => ⟨rfl, rfl, ?_⟩⟩
      exact List.take_of_length_le (Nat.le_of_eq (hp.sized x hx))
  have hbit : item.offset >>> offsetFieldLength = 0 ∨ item.offset >>> offsetFieldLength = 1 := by
    rw [Nat.shiftRight_eq_div_pow]
    show item.offset / 2 ^ 15 = 0 ∨ item.offset / 2 ^ 15 = 1
    omega
  unfold internalsend
  rcases hproto with hp | ⟨hp, h0⟩
  · rw [if_neg (by omega), if_pos hp]
    obtain ⟨r, hr, hsizes, hps⟩ := hpieces (if item.offset >>> offsetFieldLength = 1 then moreFrags else 0) item.id
      (by rcases hbit with h | h <;> simp [h])
    exact ⟨_, _, by rw [fragpack2, hr]; rfl, hsizes, hps⟩
  · rw [if_pos (by omega)]
    obtain ⟨r, hr, hsizes, hps⟩ := hpieces 0 countId (by rw [h0]; simp)
    exact ⟨_, _, by rw [fragpack, hr]; rfl, hsizes, hps⟩

/-- A datagram that can be forwarded: its offset a multiple of 8, and its end within the packet size the offsets can name. -/
def Datagram.Forwardable (d : Datagram) : Prop :=
  d.frag < 65536 ∧ 8 ∣ d.offset ∧ d.offset + d.size ≤ 32768 ∧ d.data.length = d.size

/-- A hop cuts a datagram into pieces that lie in its place, of the same packet. -/
theorem forward_spec {d : Datagram} (hd : d.Forwardable) {h : Hop} (hmtu : 28 ≤ h.mtu) (hmtu' : h.mtu ≤ 65535) :
    ∃ l, h.forward d = some l ∧ l.map Datagram.size = cutSizes h.mtu d.size ∧ Pieces d.data d.offset d.more l ∧
      ∀ x ∈ l, x.id = d.id ∧ x.src = d.src ∧ x.dest = d.dest := by
  obtain ⟨h16, h8, hend, hlen⟩ := hd
  have hi : (resendItem h.node (forwarded d)).Sendable := ⟨h16, h8, hend, hlen, Or.inl rfl⟩
  obtain ⟨l, n, hl, hsizes, hp⟩ := internalsend_spec hi hmtu hmtu' h.countId
  refine ⟨l, by rw [Hop.forward, hl]; rfl, hsizes, hp, ?_⟩
  intro x hx
  obtain ⟨-, -, h1, h2, h3⟩ := internalsend_fields hl x hx
  exact ⟨h3, h2, h1⟩

/-- The pieces of a packet no longer than the offsets can name can be forwarded. -/
theorem Pieces.forwardable {data : List Byte} {l : List Datagram} (h : Pieces data 0 0 l) (hlen : data.length ≤ 32768) :
    ∀ x ∈ l, x.Forwardable := by
  intro x hx
  have hmore : x.more ≤ 1 := by
    obtain ⟨init, last, rfl, hinit, hlast⟩ := h.flags
    rcases List.mem_append.1 hx with hx | hx
    · exact Nat.le_of_eq (hinit x hx)
    · rw [List.mem_singleton.1 hx, hlast]
      exact Nat.zero_le 1
  have hfrag : x.frag < 65536 := by
    rw [Datagram.more, Nat.shiftRight_eq_div_pow] at hmore
    have : x.frag / 2 ^ 15 ≤ 1 := hmore
    omega
  obtain ⟨l₁, l₂, rfl⟩ := List.append_of_mem hx
  obtain ⟨hoff, h8⟩ := h.tiles.here_of_append
  have htotal := h.total_eq
  rw [total_append, total_cons] at htotal
  rw [← hoff] at h8
  exact ⟨hfrag, h8, by omega, h.sized x hx⟩

/-- What a hop puts on its link when it forwards every datagram that arrives. -/
theorem cross_eq {h : Hop} {l : List Datagram} {f : Datagram → List Datagram} (hf : ∀ x ∈ l, h.forward x = some (f x)) :
    h.cross l = some (l.flatMap f) := by
  induction l with
  | nil => rfl
  | cons d l ih =>
    obtain ⟨h1, h2⟩ := List.forall_mem_cons.1 hf
    rw [Hop.cross, h1, ih h2]
    rfl

/-- The datagrams are of the packet `id` that `src` sends to `dest`. -/
def OfPacket (id src dest : Nat) (l : List Datagram) : Prop := ∀ x ∈ l, x.id = id ∧ x.src = src ∧ x.dest = dest

/-- A hop takes the pieces of a packet to pieces of the same packet. -/
theorem cross_spec {payload : List Byte} (hlen : payload.length ≤ 32768) {l : List Datagram} (hp : Pieces payload 0 0 l)
    {id src dest : Nat} (hkey : OfPacket id src dest l) {h : Hop} (hmtu : 28 ≤ h.mtu) (hmtu' : h.mtu ≤ 65535) :
    ∃ l', h.cross l = some l' ∧ Pieces payload 0 0 l' ∧ OfPacket id src dest l' ∧
      l'.map Datagram.size = (l.map Datagram.size).flatMap (cutSizes h.mtu) := by
  have hf : ∀ x ∈ l, h.forward x = some ((h.forward x).getD []) ∧
      ((h.forward x).getD []).map Datagram.size = cutSizes h.mtu x.size ∧
      Pieces x.data x.offset x.more ((h.forward x).getD []) ∧ OfPacket x.id x.src x.dest ((h.forward x).getD []) := by
    intro x hx
    obtain ⟨l', hl', hsizes, hcut, hkey'⟩ := forward_spec (hp.forwardable hlen x hx) hmtu hmtu'
    rw [hl']
    exact ⟨rfl, hsizes, hcut, hkey'⟩
  refine ⟨_, cross_eq fun x hx => (hf x hx).1, hp.flatMap fun x hx _ => (hf x hx).2.2.1, ?_, ?_⟩
  · intro y hy
    obtain ⟨x, hx, hy⟩ := List.mem_flatMap.1 hy
    obtain ⟨h1, h2, h3⟩ := hkey x hx
    rw [← h1, ← h2, ← h3]
    exact (hf x hx).2.2.2 y hy
  · rw [List.map_flatMap, List.flatMap_map]
    exact List.flatMap_congr fun x hx => (hf x hx).2.1

/-! ## A path -/

/-- The sizes of the pieces that the links of a path leave of `n` bytes. -/
def pathSizes (mtus : List Nat) (n : Nat) : List Nat := mtus.foldl (fun sizes mtu => sizes.flatMap (cutSizes mtu)) [n]

/-- The pieces at the end of a path fit its last link. -/
theorem mem_pathSizes_le {mtus : List Nat} {mtu n s : Nat} (hmtu : 28 ≤ mtu) (hs : s ∈ pathSizes (mtus ++ [mtu]) n) :
    s + netHeaderSize ≤ mtu := by
  rw [pathSizes, List.foldl_append] at hs
  obtain ⟨x, -, hx⟩ := List.mem_flatMap.1 hs
  exact mem_cutSizes_le hmtu hx

/-- An empty packet is not cut. -/
theorem pathSizes_zero {mtus : List Nat} (hmtu : ∀ m ∈ mtus, 28 ≤ m) : pathSizes mtus 0 = [0] := by
  induction mtus with
  | nil => rfl
  | cons m mtus ih =>
    obtain ⟨hm, hms⟩ := List.forall_mem_cons.1 hmtu
    have hcut : cutSizes m 0 = [0] := by
      rw [cutSizes, if_pos (by unfold netHeaderSize; omega)]
    have hstep : pathSizes (m :: mtus) 0 = pathSizes mtus 0 := by
      simp [pathSizes, hcut]
    rw [hstep, ih hms]

/-- No piece of a packet that is not empty is empty at the end of a path. -/
theorem mem_pathSizes_pos {mtus : List Nat} {n s : Nat} (hn : 0 < n) (hmtu : ∀ m ∈ mtus, 28 ≤ m) (hs : s ∈ pathSizes mtus n) :
    0 < s := by
  have hfold : ∀ (mtus : List Nat) (sizes : List Nat), (∀ m ∈ mtus, 28 ≤ m) → (∀ x ∈ sizes, 0 < x) →
      ∀ y ∈ mtus.foldl (fun sizes mtu => sizes.flatMap (cutSizes mtu)) sizes, 0 < y := by
    intro mtus
    induction mtus with
    | nil => intro sizes _ h; exact h
    | cons m mtus ih =>
      intro sizes hm h
      obtain ⟨hm, hmtus⟩ := List.forall_mem_cons.1 hm
      refine ih _ hmtus ?_
      intro x hx
      obtain ⟨z, hz, hx⟩ := List.mem_flatMap.1 hx
      exact mem_cutSizes_pos (h z hz) hx hm
  exact hfold mtus [n] hmtu (by simpa using hn) s hs

/-- The hops of a path take the pieces of a packet to pieces of the same packet. -/
theorem crossHops_spec {payload : List Byte} (hlen : payload.length ≤ 32768) {id src dest : Nat} {hops : List Hop}
    (hmtu : ∀ h ∈ hops, 28 ≤ h.mtu ∧ h.mtu ≤ 65535) {l : List Datagram} (hp : Pieces payload 0 0 l)
    (hkey : OfPacket id src dest l) :
    ∃ l', crossHops hops l = some l' ∧ Pieces payload 0 0 l' ∧ OfPacket id src dest l' ∧
      l'.map Datagram.size =
        (hops.map Hop.mtu).foldl (fun sizes mtu => sizes.flatMap (cutSizes mtu)) (l.map Datagram.size) := by
  induction hops generalizing l with
  | nil => exact ⟨l, rfl, hp, hkey, rfl⟩
  | cons h hops ih =>
    obtain ⟨h1, h2⟩ := List.forall_mem_cons.1 hmtu
    obtain ⟨l₁, hl₁, hp₁, hkey₁, hsizes₁⟩ := cross_spec hlen hp hkey h1.1 h1.2
    obtain ⟨l', hl', hp', hkey', hsizes'⟩ := ih h2 hp₁ hkey₁
    refine ⟨l', by rw [crossHops, hl₁]; exact hl', hp', hkey', ?_⟩
    rw [hsizes', hsizes₁]
    rfl

/-- What the item `net_send` queues holds. -/
theorem netSend_fields {r : Router} {dest size protocol : Nat} {data : List Byte} {item : WaitListItem}
    (h : r.netSend dest data size protocol = some item) :
    item.dest = dest ∧ item.src = r.num ∧ item.data = data ∧ item.offset = 0 ∧ item.ttl = ttlInit ∧ item.size = size ∧
      item.protocol = protocol := by
  simp only [Router.netSend] at h
  generalize (if protocol = 0 then dest else r.hostreachable dest) = node at h
  split at h
  · cases h
    exact ⟨rfl, rfl, rfl, rfl, rfl, rfl, rfl⟩
  · cases h

/-- The datagrams on the last link of a path are pieces of the packet the host sends, of the sizes the MTUs give. -/
theorem sendAlong_spec {r : Router} {dest protocol : Nat} {payload : List Byte} {item : WaitListItem}
    (hsend : r.netSend dest payload payload.length protocol = some item) (hproto : protocol = 0 ∨ protocol = 1)
    (hlen : payload.length ≤ 32768) {first : Hop} {hops : List Hop}
    (hmtu : ∀ h ∈ first :: hops, 28 ≤ h.mtu ∧ h.mtu ≤ 65535) :
    ∃ ds, sendAlong item first hops = some ds ∧ Pieces payload 0 0 ds ∧ OfPacket first.countId r.num dest ds ∧
      ds.map Datagram.size = pathSizes ((first :: hops).map Hop.mtu) payload.length := by
  obtain ⟨h1, h2⟩ := List.forall_mem_cons.1 hmtu
  obtain ⟨hdest, hsrc, hdata, hoff, -, hsize, hprot⟩ := netSend_fields hsend
  have hi : item.Sendable := by
    unfold WaitListItem.Sendable
    rw [hoff, hsize, hdata, hprot]
    exact ⟨by decide, by decide, by simpa [offsetField] using hlen, rfl, Or.inr ⟨hproto, rfl⟩⟩
  obtain ⟨l, n, hl, hsizes, hp⟩ := internalsend_spec hi h1.1 h1.2 first.countId
  rw [hoff] at hp
  have hkey : OfPacket first.countId r.num dest l := by
    intro x hx
    obtain ⟨-, -, hd, hs, hid⟩ := internalsend_fields hl x hx
    have hne : item.protocol ≠ 2 := by omega
    rw [if_neg hne] at hid
    exact ⟨hid, hs.trans hsrc, hd.trans hdest⟩
  obtain ⟨ds, hds, hpds, hkeyds, hsizesds⟩ := crossHops_spec hlen h2 (hdata ▸ hp) hkey
  refine ⟨ds, by rw [sendAlong, hl]; exact hds, hpds, hkeyds, ?_⟩
  rw [hsizesds, hsizes, hsize]
  simp [pathSizes]

end NetworkLayers
