import NetworkLayers.Theorems.Reassembly

/-!
# Fragments that arrive again

`addoffset` looks for a fragment it already holds only where its walk ends, so it finds the one that arrived last and no other.
The fragments of a packet arrive here in the order of their offsets, and any that is held may arrive again in between.
-/

namespace NetworkLayers

open Cells Tiling Transition

/-- The list of packets, and how many fragments of the packet have arrived. -/
structure Arrivals where
  recv : RecvList
  held : Nat

/-- What arrives: the next fragment, or one that is held. -/
inductive Arrival where
  | next
  | again (j : Nat)
  deriving DecidableEq, Repr

/-- The fragment that arrives, of those of the packet. While the packet is not complete, any fragment held may arrive again. -/
def Arrivals.datagram (ds : List Datagram) (s : Arrivals) : Arrival → Option Datagram
  | .next => ds[s.held]?
  | .again j => if j < s.held ∧ s.held < ds.length then ds[j]? else none

/-- The fragments that have arrived after an arrival. -/
def Arrival.heldAfter (held : Nat) : Arrival → Nat
  | .next => held + 1
  | .again _ => held

/-- One arrival. -/
def Arrivals.step (ds : List Datagram) (s : Arrivals) (a : Arrival) : Option Arrivals :=
  (s.datagram ds a).bind fun d =>
    match insertoffset s.recv d with
    | .ok (r, _) => some { recv := r, held := a.heldAfter s.held }
    | .error _ => none

/-- What the packet's entry owes to an arrival: a fragment that is held is refused and leaves the entry as it is; the packet is
reported complete only with the last fragment; and the bytes counted are those of the fragments held. -/
def Harmless (ds : List Datagram) (s : Arrivals) : Arrival → Prop
  | .next => ∀ d ∈ s.datagram ds .next, ∀ r b, insertoffset s.recv d = .ok (r, b) →
      (b = true → s.held + 1 = ds.length) ∧
        ∃ e, getid r.packs d.id d.src = some e ∧ e.countSize = total Datagram.size (ds.take (s.held + 1))
  | .again j => ∀ d ∈ s.datagram ds (.again j), ∃ r e vs, insertoffset s.recv d = .ok (r, false) ∧
      e.Takes d ∧ Holds s.recv e vs ∧ Holds r e vs ∧ e.countSize = total Datagram.size (ds.take s.held)

/-- A fragment that arrives again is the first, and no other has arrived; or it is the last that arrived, and the fragments are so
large that none begins where another of their size would end. -/
def RepeatsFirst (mtu : Nat) (ds : List Datagram) (s : Arrivals) : Arrival → Prop
  | .next => True
  | .again j => ∀ _ ∈ s.datagram ds (.again j), s.held = 1 ∨ (j + 1 = s.held ∧ 32768 ≤ fragSize mtu)

instance RepeatsFirst.decidable (mtu : Nat) (ds : List Datagram) (s : Arrivals) : ∀ a, Decidable (RepeatsFirst mtu ds s a)
  | .next => inferInstanceAs (Decidable True)
  | .again j => inferInstanceAs (Decidable (∀ _ ∈ s.datagram ds (.again j), _))

namespace DuplicateAux

/-- What is used of the fragments of a packet: all but the last are of one size and have the more-fragments bit, and each begins
where the one before it ends, as far as 15 bits tell. -/
structure Split (g : Nat) (ds : List Datagram) : Prop where
  key : ∀ x ∈ ds, ∀ y ∈ ds, x.id = y.id ∧ x.src = y.src
  size : total Datagram.size ds < 18446744073709551616
  pos : 0 < g ∧ g ≤ 65535
  flags : ∃ init z, ds = init ++ [z] ∧ ∀ x ∈ init, x.more = 1 ∧ x.size = g
  chain : ds.IsChain fun x y => y.offset = offsetField (x.offset + g)
  order : ds.Pairwise fun x y => x.offset < y.offset

variable {g : Nat} {ds : List Datagram}

theorem Split.not_last (h : Split g ds) {l r : List Datagram} {d : Datagram} (hds : ds = l ++ d :: r) (hr : r ≠ []) :
    islastfrag d = false ∧ d.size = g := by
  obtain ⟨init, z, hz, hinit⟩ := h.flags
  have hmem : d ∈ ds.dropLast := by
    rw [hds, List.dropLast_append_of_ne_nil (by simp), List.dropLast_cons_of_ne_nil hr]
    simp
  rw [hz, List.dropLast_concat] at hmem
  exact ⟨by simp [islastfrag, (hinit d hmem).1], (hinit d hmem).2⟩

/-- A fragment that is not the last of the packet follows none but the one before it. -/
theorem Split.not_matched (h : Split g ds) {l r : List Datagram} {d : Datagram} (hds : ds = l ++ d :: r) (hr : r ≠ []) :
    ¬Matched l d := by
  rintro ⟨f, hf, hfol⟩
  obtain ⟨-, hsize⟩ := h.not_last hds hr
  obtain ⟨init, z, rfl⟩ := (List.eq_nil_or_concat' l).resolve_left (by rintro rfl; simp at hf)
  rw [List.dropLast_concat] at hf
  obtain ⟨a, b, rfl⟩ := List.append_of_mem hf
  -- the fragment behind `f` begins where `d` would
  obtain ⟨f', b', hb⟩ : ∃ f' b', b ++ [z] = f' :: b' := List.exists_cons_of_ne_nil (by simp)
  have hsplit : ds = a ++ f :: f' :: (b' ++ d :: r) :=
    calc ds = a ++ f :: (b ++ [z] ++ d :: r) := by simp [hds]
      _ = a ++ f :: f' :: (b' ++ d :: r) := by rw [hb]; rfl
  have hnext : f'.offset = offsetField (f.offset + g) := by
    have hchain := h.chain
    rw [hsplit, List.isChain_append_cons_cons] at hchain
    exact hchain.2.1
  have hlt : f'.offset < d.offset := by
    have horder := h.order
    rw [hsplit] at horder
    have htail := (List.pairwise_cons.1 (List.pairwise_cons.1 (List.pairwise_append.1 horder).2.1).2).1
    exact htail d (by simp)
  have hf : f.offset < 32768 := Nat.mod_lt _ (by decide)
  have hd : d.offset < 32768 := Nat.mod_lt _ (by decide)
  have hg := h.pos
  rw [follows, hsize, u64_of_lt (by omega), beq_iff_eq] at hfol
  rw [hfol, offsetField, Nat.mod_eq_of_lt hd] at hnext
  omega

/-- Of the fragments held, the last follows one before it exactly when there is one, unless their size does not fit 15 bits. -/
theorem Split.matched_last_iff (h : Split g ds) {l r : List Datagram} {d : Datagram} (hds : ds = l ++ d :: r) (hr : r ≠ []) :
    Matched (l ++ [d]) d ↔ l ≠ [] ∧ g < 32768 := by
  obtain ⟨-, hsize⟩ := h.not_last hds hr
  have hg := h.pos
  have hd : d.offset < 32768 := Nat.mod_lt _ (by decide)
  have hfollows : ∀ f : Datagram, follows d f = true ↔ f.offset + g = d.offset := by
    intro f
    have hf : f.offset < 32768 := Nat.mod_lt _ (by decide)
    rw [follows, hsize, u64_of_lt (by omega), beq_iff_eq]
  unfold Matched
  rw [List.dropLast_concat]
  constructor
  · rintro ⟨f, hf, hfol⟩
    rw [hfollows] at hfol
    exact ⟨List.ne_nil_of_mem hf, by omega⟩
  · rintro ⟨hl, hsmall⟩
    obtain ⟨a, f, rfl⟩ := (List.eq_nil_or_concat' l).resolve_left hl
    have hsplit : ds = a ++ f :: d :: r := by simp [hds]
    have hnext : d.offset = offsetField (f.offset + g) := by
      have hchain := h.chain
      rw [hsplit, List.isChain_append_cons_cons] at hchain
      exact hchain.2.1
    have hlt : f.offset < d.offset := by
      have horder := h.order
      rw [hsplit] at horder
      exact (List.pairwise_cons.1 (List.pairwise_append.1 horder).2.1).1 d List.mem_cons_self
    refine ⟨f, by simp, (hfollows f).2 ?_⟩
    unfold offsetField at hnext
    omega

/-- The invariant: nothing has arrived, or everything, or the entry holds the fragments that have arrived. -/
inductive Progress (ds : List Datagram) (s : Arrivals) : Prop where
  | start (h0 : s.held = 0) (hnone : ∀ d ∈ ds, getid s.recv.packs d.id d.src = none)
  | held (e : PackLst) (hpos : 0 < s.held) (hlt : s.held < ds.length) (hkey : ∀ d ∈ ds, e.Takes d)
      (hholds : Holds s.recv e (ds.take s.held)) (hcount : e.countSize = total Datagram.size (ds.take s.held))
      (htotal : e.totalSize = 0)
  | complete (hall : s.held = ds.length)

/-- The fragment at a place, between those before it and those behind it. -/
theorem split_at {k : Nat} {d : Datagram} (hd : ds[k]? = some d) :
    ∃ r, ds = ds.take k ++ d :: r ∧ ds.take (k + 1) = ds.take k ++ [d] ∧ (r = [] ↔ k + 1 = ds.length) ∧ k < ds.length := by
  obtain ⟨hlt, rfl⟩ := List.getElem?_eq_some_iff.1 hd
  refine ⟨ds.drop (k + 1), ?_, ?_, ?_, hlt⟩
  · rw [← List.drop_eq_getElem_cons hlt, List.take_append_drop]
  · rw [List.take_add_one, List.getElem?_eq_getElem hlt]
    rfl
  · rw [List.drop_eq_nil_iff]
    omega

theorem Split.total_take (h : Split g ds) (k : Nat) : total Datagram.size (ds.take k) < 18446744073709551616 := by
  have htotal : total Datagram.size (ds.take k) + total Datagram.size (ds.drop k) = total Datagram.size ds := by
    rw [← total_append, List.take_append_drop]
  have := h.size
  omega

/-- The fragments before a place begin before the one there. -/
theorem Split.offset_lt (h : Split g ds) {k : Nat} {d : Datagram} (hd : ds[k]? = some d) {v : Datagram}
    (hv : v ∈ ds.take k) : v.offset < d.offset := by
  obtain ⟨r, hds, -⟩ := split_at hd
  have horder := h.order
  rw [hds] at horder
  exact (List.pairwise_append.1 horder).2.2 v hv d List.mem_cons_self

/-- An entry that counts the fragments held takes the packet for complete only when none is missing. -/
theorem Split.complete_of_count (h : Split g ds) {k : Nat} {d : Datagram} (hd : ds[k]? = some d) {e : PackLst}
    (hcount : e.countSize = total Datagram.size (ds.take (k + 1))) (htotal : islastfrag d = false → e.totalSize = 0)
    (heq : e.totalSize = e.countSize) : k + 1 = ds.length := by
  obtain ⟨r, hds, htake, hlast, -⟩ := split_at hd
  by_contra hne
  obtain ⟨hmore, hsize⟩ := h.not_last hds (mt hlast.1 hne)
  have hpos := h.pos
  rw [hcount, htotal hmore, htake, total_append, total_cons, hsize] at heq
  omega

/-- The first fragment opens the entry. -/
theorem next_first (h : Split g ds) {s : Arrivals} (h0 : s.held = 0)
    (hnone : ∀ d ∈ ds, getid s.recv.packs d.id d.src = none) {d : Datagram} (hd : ds[s.held]? = some d) {r : RecvList}
    {b : Bool} (hr : insertoffset s.recv d = .ok (r, b)) :
    ((b = true → s.held + 1 = ds.length) ∧
      ∃ e, getid r.packs d.id d.src = some e ∧ e.countSize = total Datagram.size (ds.take (s.held + 1))) ∧
    Progress ds { recv := r, held := s.held + 1 } := by
  obtain ⟨rest, hds, htake, hlast, hlt⟩ := split_at hd
  obtain ⟨hins, hholds⟩ := insertoffset_first (hnone d (List.mem_of_getElem? hd))
  rw [hins] at hr
  split at hr
  · cases hr
  · obtain ⟨rfl, rfl⟩ := Prod.mk.inj (Except.ok.inj hr)
    obtain ⟨hid, hsrc⟩ := isFor_iff.1 (freshEntry_isFor s.recv.cells d)
    have hheld : ds.take (s.held + 1) = [d] := by rw [htake, h0, List.take_zero, List.nil_append]
    have hcount : (freshEntry s.recv.cells d).countSize = total Datagram.size (ds.take (s.held + 1)) := by
      rw [hheld, total_cons, total_nil]
      unfold freshEntry
      split <;> rfl
    have htotal : islastfrag d = false → (freshEntry s.recv.cells d).totalSize = 0 := by
      intro hmore
      simp [freshEntry, hmore, initpacklst]
    refine ⟨⟨?_, _, hid ▸ hsrc ▸ hholds.1, hcount⟩, ?_⟩
    · intro hb
      exact h.complete_of_count hd hcount htotal (beq_iff_eq.1 hb)
    · by_cases hall : s.held + 1 = ds.length
      · exact Progress.complete hall
      · have hmore := (h.not_last hds (mt hlast.1 hall)).1
        refine Progress.held _ (Nat.succ_pos _) (by show s.held + 1 < ds.length; omega) ?_ (by rw [hheld]; exact hholds)
          hcount (htotal hmore)
        intro x hx
        obtain ⟨h1, h2⟩ := h.key d (List.mem_of_getElem? hd) x hx
        exact ⟨hid.trans h1, hsrc.trans h2⟩

/-- The next fragment is counted in the entry. -/
theorem next_held (h : Split g ds) {s : Arrivals} {e : PackLst} (hpos : 0 < s.held) (hkey : ∀ d ∈ ds, e.Takes d)
    (hholds : Holds s.recv e (ds.take s.held)) (hcount : e.countSize = total Datagram.size (ds.take s.held))
    (htotal : e.totalSize = 0) {d : Datagram} (hd : ds[s.held]? = some d) {r : RecvList}
    {b : Bool} (hr : insertoffset s.recv d = .ok (r, b)) :
    ((b = true → s.held + 1 = ds.length) ∧
      ∃ e, getid r.packs d.id d.src = some e ∧ e.countSize = total Datagram.size (ds.take (s.held + 1))) ∧
    Progress ds { recv := r, held := s.held + 1 } := by
  obtain ⟨rest, hds, htake, hlast, hlt⟩ := split_at hd
  have htakes := hkey d (List.mem_of_getElem? hd)
  have hnew : ∀ v ∈ ds.take s.held, v.offset ≠ d.offset := fun v hv => (h.offset_lt hd hv).ne
  obtain ⟨offs, hgrown, hb⟩ := insertoffset_counts hholds htakes hnew hr
  have hcount' : ∀ offs, (grownEntry e offs d).countSize = total Datagram.size (ds.take (s.held + 1)) := by
    intro offs
    have hsum := h.total_take (s.held + 1)
    rw [htake] at hsum ⊢
    exact countSize_grownEntry offs hcount hsum
  have htotal' : ∀ offs, islastfrag d = false → (grownEntry e offs d).totalSize = 0 := by
    intro offs hmore
    simp [grownEntry, hmore, htotal]
  refine ⟨⟨?_, _, ?_, hcount' offs⟩, ?_⟩
  · intro htrue
    exact h.complete_of_count hd (hcount' offs) (htotal' offs) (beq_iff_eq.1 (hb.symm.trans htrue))
  · rw [← htakes.1, ← htakes.2]
    exact hgrown
  · by_cases hall : s.held + 1 = ds.length
    · exact Progress.complete hall
    · have hrest : rest ≠ [] := mt hlast.1 hall
      obtain ⟨vs, last, hvs⟩ := (List.eq_nil_or_concat' (ds.take s.held)).resolve_left (by
        intro hnil
        have := congrArg List.length hnil
        rw [List.length_take, List.length_nil] at this
        omega)
      have hno : ∀ f ∈ vs, follows d f = false := by
        intro f hf
        by_contra hfol
        refine h.not_matched hds hrest ⟨f, ?_, by simpa using hfol⟩
        rw [hvs, List.dropLast_concat]
        exact hf
      rw [hvs] at hholds
      obtain ⟨r', hr', hholds'⟩ := insertoffset_grows hholds htakes hno (hnew last (by rw [hvs]; simp))
      obtain ⟨rfl, -⟩ := Prod.mk.inj (Except.ok.inj (hr'.symm.trans hr))
      obtain ⟨h1, h2⟩ := grownEntry_key e e.offs d
      refine Progress.held _ (Nat.succ_pos _) (by show s.held + 1 < ds.length; omega) ?_ ?_ (hcount' e.offs)
        (htotal' e.offs (h.not_last hds hrest).1)
      · intro x hx
        exact ⟨h1.trans (hkey x hx).1, h2.trans (hkey x hx).2⟩
      · show Holds r' _ (ds.take (s.held + 1))
        rw [htake, hvs, List.append_assoc]
        exact hholds'

/-- A fragment that is held is refused exactly when it is the first and the only one held, or the last and so large. -/
theorem again_iff (h : Split g ds) {s : Arrivals} {e : PackLst} (hkey : ∀ d ∈ ds, e.Takes d)
    (hholds : Holds s.recv e (ds.take s.held)) {j : Nat} (hj : j < s.held) (hlt : s.held < ds.length) {d : Datagram}
    (hd : ds[j]? = some d) :
    (∃ r vs, insertoffset s.recv d = .ok (r, false) ∧ Holds s.recv e vs ∧ Holds r e vs) ↔
      s.held = 1 ∨ (j + 1 = s.held ∧ 32768 ≤ g) := by
  have htakes := hkey d (List.mem_of_getElem? hd)
  obtain ⟨k, hk⟩ : ∃ k, s.held = k + 1 := ⟨s.held - 1, by omega⟩
  obtain ⟨last, hlast⟩ : ∃ last, ds[k]? = some last := ⟨ds[k], List.getElem?_eq_getElem (by omega)⟩
  obtain ⟨r, hds, htake, hend, -⟩ := split_at hlast
  have hmatched := h.matched_last_iff hds (by rw [Ne, hend]; omega)
  have hnil : ds.take k = [] ↔ k = 0 := by
    rw [List.take_eq_nil_iff]
    refine or_iff_left ?_
    rintro rfl
    simp at hlt
  rw [Ne, hnil] at hmatched
  rw [hk, htake] at hholds
  have hfollow : ¬Matched (ds.take k ++ [last]) d → ∀ f ∈ ds.take k, follows d f = false := by
    intro hm f hf
    by_contra hfol
    exact hm ⟨f, by rw [List.dropLast_concat]; exact hf, by simpa using hfol⟩
  constructor
  · rintro ⟨r, vs, hr, hvs, hr'⟩
    obtain rfl := hvs.unique hholds
    have hm : ¬Matched (ds.take k ++ [last]) d := by
      intro hm
      obtain ⟨e', hg, hend⟩ := insertoffset_ruins hholds htakes hm hr
      obtain ⟨hg', l, hl, -⟩ := hr'
      rw [htakes.1, htakes.2] at hg'
      obtain rfl := Option.some.inj (hg'.symm.trans hg)
      exact hl.not_endless hend
    by_contra hne
    -- the last fragment is matched, so it is one before it, which is taken for a new one
    have hjk : j ≠ k := by
      rintro rfl
      obtain rfl : d = last := Option.some.inj (hd.symm.trans hlast)
      rw [hmatched] at hm
      omega
    have hoff : last.offset ≠ d.offset := by
      have hmem : d ∈ ds.take k := by
        rw [List.mem_take_iff_getElem]
        obtain ⟨hjlt, rfl⟩ := List.getElem?_eq_some_iff.1 hd
        exact ⟨j, by omega, rfl⟩
      exact (h.offset_lt hlast hmem).ne'
    obtain ⟨r', hins, hgrown⟩ := insertoffset_grows hholds htakes (hfollow hm) hoff
    obtain ⟨rfl, -⟩ := Prod.mk.inj (Except.ok.inj (hins.symm.trans hr))
    obtain ⟨h1, h2⟩ := grownEntry_key e e.offs d
    have hg := hgrown.1
    rw [h1, h2, hr'.1] at hg
    rw [← Option.some.inj hg] at hgrown
    have hlen := congrArg List.length (hgrown.unique hr')
    simp only [List.length_append, List.length_cons, List.length_nil] at hlen
    omega
  · intro hcond
    obtain rfl : j = k := by omega
    obtain rfl : d = last := Option.some.inj (hd.symm.trans hlast)
    have hm : ¬Matched (ds.take j ++ [d]) d := by
      rw [hmatched]
      omega
    exact ⟨s.recv, _, insertoffset_same hholds htakes (hfollow hm) rfl, hholds, hholds⟩

/-- Where the invariant holds, an arrival is harmless exactly when it meets the condition. -/
theorem harmless_iff {mtu : Nat} (h : Split (fragSize mtu) ds) {s : Arrivals} (hp : Progress ds s) (a : Arrival) :
    Harmless ds s a ↔ RepeatsFirst mtu ds s a := by
  cases a with
  | next =>
    refine iff_of_true ?_ trivial
    intro d hd r b hr
    have hd : ds[s.held]? = some d := hd
    cases hp with
    | start h0 hnone => exact (next_first h h0 hnone hd hr).1
    | held e hpos _ hkey hholds hcount htotal => exact (next_held h hpos hkey hholds hcount htotal hd hr).1
    | complete hall =>
      rw [hall, List.getElem?_length] at hd
      cases hd
  | again j =>
    refine forall₂_congr fun d hd => ?_
    have hd : (if j < s.held ∧ s.held < ds.length then ds[j]? else none) = some d := hd
    split at hd
    · rename_i hj
      cases hp with
      | start h0 _ => omega
      | held e _ _ hkey hholds hcount _ =>
        rw [← again_iff h hkey hholds hj.1 hj.2 hd]
        have htakes := hkey d (List.mem_of_getElem? hd)
        constructor
        · rintro ⟨r, e', vs, hr, htakes', hvs, hvs', -⟩
          have hg := hvs.1
          rw [htakes'.1, htakes'.2, ← htakes.1, ← htakes.2, hholds.1] at hg
          obtain rfl := Option.some.inj hg
          exact ⟨r, vs, hr, hvs, hvs'⟩
        · rintro ⟨r, vs, hr, hvs, hvs'⟩
          exact ⟨r, e, vs, hr, htakes, hvs, hvs', hcount⟩
      | complete hall => omega
    · cases hd

/-- An arrival that meets the condition keeps the invariant. -/
theorem progress_step {mtu : Nat} (h : Split (fragSize mtu) ds) {s s' : Arrivals} {a : Arrival} (hp : Progress ds s)
    (hok : RepeatsFirst mtu ds s a) (hs : s.step ds a = some s') : Progress ds s' := by
  obtain ⟨d, hd, hins⟩ := Option.bind_eq_some_iff.1 hs
  split at hins
  · rename_i r b hr
    cases hins
    cases a with
    | next =>
      have hd : ds[s.held]? = some d := hd
      cases hp with
      | start h0 hnone => exact (next_first h h0 hnone hd hr).2
      | held e hpos _ hkey hholds hcount htotal => exact (next_held h hpos hkey hholds hcount htotal hd hr).2
      | complete hall =>
        rw [hall, List.getElem?_length] at hd
        cases hd
    | again j =>
      obtain ⟨r', e, vs, hr', htakes, hvs, hvs', hcount⟩ := (harmless_iff h hp (.again j)).2 hok d hd
      obtain ⟨rfl, -⟩ := Prod.mk.inj (Except.ok.inj (hr'.symm.trans hr))
      cases hp with
      | start h0 _ =>
        simp only [Arrivals.datagram, h0] at hd
        simp at hd
      | held e' hpos hlt hkey hholds hcount' htotal =>
        have hmem : d ∈ ds := by
          have hd : (if j < s.held ∧ s.held < ds.length then ds[j]? else none) = some d := hd
          split at hd
          · exact List.mem_of_getElem? hd
          · cases hd
        have htakes' := hkey d hmem
        have hg := hvs.1
        rw [htakes.1, htakes.2, ← htakes'.1, ← htakes'.2, hholds.1] at hg
        obtain rfl := Option.some.inj hg
        obtain rfl := hvs.unique hholds
        exact Progress.held e' hpos hlt hkey hvs' hcount' htotal
      | complete hall => exact Progress.complete hall
  · cases hins

end DuplicateAux

open DuplicateAux in
/-- For every packet a host sends over a link, when its fragments arrive in the order of their offsets at a list with no entry for
it, and any that are held arrive again in between: all along, repeats change nothing and the others are counted, exactly when each
repeat is of the first fragment while no other is held, or of the last one when the fragments are of 32768 bytes or more. -/
theorem duplicates_harmless_iff {r : Router} {dest protocol : Nat} {payload : List Byte} {item : WaitListItem}
    (hsend : r.netSend dest payload payload.length protocol = some item) (hproto : protocol = 0 ∨ protocol = 1)
    (hlen : payload.length < 18446744073709551616) {mtu countId n : Nat} (hmtu : 28 ≤ mtu ∧ mtu ≤ 65535) {ds : List Datagram}
    (hds : internalsend mtu countId item = some (ds, n)) (horder : ds.Pairwise fun x y => x.offset < y.offset)
    {s : RecvList} (hnone : getid s.packs countId r.num = none) (as : List Arrival) :
    Along (Arrivals.step ds) (Harmless ds) { recv := s, held := 0 } as ↔
      Along (Arrivals.step ds) (RepeatsFirst mtu ds) { recv := s, held := 0 } as := by
  obtain ⟨-, hsrc, -, -, -, hsize, hp⟩ := netSend_fields hsend
  have hself : item.protocol = 0 ∨ item.protocol = 1 := hp ▸ hproto
  have hkey : ∀ x ∈ ds, x.id = countId ∧ x.src = r.num := by
    intro x hx
    obtain ⟨-, -, -, h4, h5⟩ := internalsend_fields hds x hx
    rw [if_neg (by omega)] at h5
    exact ⟨h5, h4.trans hsrc⟩
  obtain ⟨htotal, hflags, hchain⟩ := internalsend_own hself (by omega) hmtu.1 hmtu.2 hds
  have hg : 0 < fragSize mtu ∧ fragSize mtu ≤ 65535 := by
    rw [fragSize_eq hmtu.1 hmtu.2]
    unfold netHeaderSize
    omega
  have hsplit : Split (fragSize mtu) ds := {
    key := fun x hx y hy => ⟨(hkey x hx).1.trans (hkey y hy).1.symm, (hkey x hx).2.trans (hkey y hy).2.symm⟩
    size := by omega
    pos := hg
    flags := hflags
    chain := hchain
    order := horder }
  have hstart : Progress ds { recv := s, held := 0 } := by
    refine Progress.start rfl ?_
    intro d hd
    rw [(hkey d hd).1, (hkey d hd).2]
    exact hnone
  exact along_congr hstart (fun _ _ _ hp hok hs => progress_step hsplit hp hok hs) (fun _ a hp => harmless_iff hsplit hp a) as

/-- The first of two pieces arrives three times before the second. -/
theorem first_piece_again_harmless :
    Along (Arrivals.step twoPieces) (Harmless twoPieces) { recv := RecvList.empty, held := 0 }
      [.next, .again 0, .again 0, .next] := by
  have hsend : neighbourRouter.netSend 2 (List.replicate 20 7) (List.replicate 20 7).length 1 = some twentyBytes := by decide
  have hds : internalsend (36 : Nat) 0 twentyBytes = some (twoPieces, 1) := by decide
  exact (duplicates_harmless_iff hsend (Or.inr rfl) (by decide) (by decide) hds (by decide) rfl _).2 (by decide)

/-- The pieces of the twenty bytes on a link that holds eight. -/
def threePieces : List Datagram :=
  [{ size := 8, id := 0, frag := 32768, protocol := 1, ttl := 6, dest := 2, src := 1, data := List.replicate 8 7 },
    { size := 8, id := 0, frag := 32776, protocol := 1, ttl := 6, dest := 2, src := 1, data := List.replicate 8 7 },
    { size := 4, id := 0, frag := 16, protocol := 1, ttl := 6, dest := 2, src := 1, data := List.replicate 4 7 }]

/-- The bytes counted for the packet. -/
def countOf (r : Except Fault (RecvList × Bool)) : Option Nat :=
  match r with
  | .ok (r, _) => (getid r.packs 0 1).map PackLst.countSize
  | .error _ => none

/-- When two of three pieces have arrived, the first is taken for a new one, and 24 bytes are counted of the 16 that are held. -/
theorem first_piece_counted_again :
    internalsend (28 : Nat) 0 twentyBytes = some (threePieces, 1) ∧
      (threePieces.Pairwise fun x y => x.offset < y.offset) ∧
      ¬Along (Arrivals.step threePieces) (Harmless threePieces) { recv := RecvList.empty, held := 0 }
        [.next, .next, .again 0] := by
  refine ⟨by decide, by decide, ?_⟩
  intro h
  obtain ⟨s, hs, hcount, hagain⟩ : ∃ s ∈ exec (Arrivals.step threePieces) { recv := RecvList.empty, held := 0 } [.next, .next],
      (getid s.recv.packs 0 1).map PackLst.countSize = some 16 ∧
        (s.datagram threePieces (.again 0)).map (fun d => (d.id, d.src, countOf (insertoffset s.recv d))) =
          some (0, 1, some 24) := ⟨_, rfl, by decide, by decide⟩
  have hrest : [Arrival.next, .next, .again 0] = [.next, .next] ++ [.again 0] := rfl
  rw [hrest] at h
  obtain ⟨d, hd, hkey⟩ := Option.map_eq_some_iff.1 hagain
  obtain ⟨hid, hsrc, hins⟩ : d.id = 0 ∧ d.src = 1 ∧ countOf (insertoffset s.recv d) = some 24 := by simpa using hkey
  obtain ⟨r, e, vs, hr, ⟨h1, h2⟩, hold, hnew, -⟩ := (h.after hs).1 d hd
  have hold := hold.1
  have hnew := hnew.1
  rw [h1, h2, hid, hsrc] at hold hnew
  rw [hold] at hcount
  rw [hr, countOf, hnew, hcount] at hins
  cases hins

end NetworkLayers
