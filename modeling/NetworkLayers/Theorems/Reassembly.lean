import NetworkLayers.Lemmas.Reassembly
import NetworkLayers.Theorems.FragTiles

/-!
# Reassembly of the fragments of one packet

`Delivers` says what a receiver expects of the fragments that arrive: the packet is reported complete with the last of them and
not before, and its bytes are then read back. `addoffset` finds the place of a fragment by its own size, so it keeps to that
only when the fragments arrive in the order of their offsets, and only when none of them is as large as two or more right before
it together.
-/

namespace NetworkLayers

open Cells Tiling

/-- Each datagram of the list is inserted, the result tells the last from the others, `keep` holds of the list after each, and in
the end `getpack` returns the payload and its size. -/
def Delivers (keep : RecvList → Prop) (id src : Nat) (payload : List Byte) : RecvList → List Datagram → Prop
  | s, [] => ∃ s', getpack s id src = .ok (s', some (payload.map some, payload.length))
  | s, d :: ds => ∃ s', insertoffset s d = .ok (s', ds.isEmpty) ∧ keep s' ∧ Delivers keep id src payload s' ds

/-- The datagram `d` follows one of the fragments `vs` that has another behind it. -/
def Matched (vs : List Datagram) (d : Datagram) : Prop := ∃ f ∈ vs.dropLast, follows d f = true

/-- Some piece is as large as two or more pieces right before it together. -/
def Clashes (sizes : List Nat) : Prop :=
  ∃ l₁ m x l₂, sizes = l₁ ++ m ++ x :: l₂ ∧ 2 ≤ m.length ∧ m.sum = x

section
variable {keep : RecvList → Prop} {id src : Nat} {payload : List Byte}

/-! ## One arrival -/

/-- Nothing is delivered from a ruined entry. -/
theorem not_delivers_of_ruined {ds : List Datagram} (hkey : ∀ x ∈ ds, x.id = id ∧ x.src = src) {s : RecvList}
    (h : Ruined s id src) : ¬Delivers keep id src payload s ds := by
  induction ds generalizing s with
  | nil =>
    rintro ⟨s', hs'⟩
    obtain ⟨f, hf⟩ := getpack_ruined h
    rw [hf] at hs'
    cases hs'
  | cons d ds ih =>
    rintro ⟨s', hs', -, hrest⟩
    obtain ⟨⟨h1, h2⟩, hkey'⟩ := List.forall_mem_cons.1 hkey
    have hr : Ruined s' id src := by
      rw [← h1, ← h2] at h ⊢
      exact insertoffset_ruined h hs'
    exact ih hkey' hr hrest

/-- What a delivery says of the next arrival: it follows none of the fragments but the last, and is linked behind them. -/
theorem delivers_cons {s : RecvList} {e : PackLst} {vs ds : List Datagram} {last d : Datagram}
    (h : Holds s e (vs ++ [last])) (hkey : ∀ x ∈ d :: ds, x.id = e.id ∧ x.src = e.src) (hoff : last.offset ≠ d.offset) :
    Delivers keep e.id e.src payload s (d :: ds) ↔
      ¬Matched (vs ++ [last]) d ∧
        ((grownEntry e e.offs d).totalSize == (grownEntry e e.offs d).countSize) = ds.isEmpty ∧
        ∃ s', insertoffset s d = .ok (s', ds.isEmpty) ∧ Holds s' (grownEntry e e.offs d) (vs ++ [last, d]) ∧ keep s' ∧
          Delivers keep e.id e.src payload s' ds := by
  obtain ⟨⟨h1, h2⟩, hkey'⟩ := List.forall_mem_cons.1 hkey
  have htakes : e.Takes d := ⟨h1.symm, h2.symm⟩
  constructor
  · rintro ⟨s', hs', hkeep, hrest⟩
    by_cases hm : Matched (vs ++ [last]) d
    · have hr : Ruined s' e.id e.src := by
        rw [← h1, ← h2]
        exact insertoffset_ruins h htakes hm hs'
      exact absurd hrest (not_delivers_of_ruined hkey' hr)
    · have hno : ∀ f ∈ vs, follows d f = false := by
        intro f hf
        by_contra hne
        exact hm ⟨f, by rw [List.dropLast_concat]; exact hf, by simpa using hne⟩
      obtain ⟨s'', hs'', hholds⟩ := insertoffset_grows h htakes hno hoff
      obtain ⟨rfl, hb⟩ := Prod.mk.inj (Except.ok.inj (hs''.symm.trans hs'))
      exact ⟨hm, hb, s'', hs', hholds, hkeep, hrest⟩
  · rintro ⟨-, -, s', hs', -, hkeep, hrest⟩
    exact ⟨s', hs', hkeep, hrest⟩

/-! ## All arrivals -/

/-- Fragments that arrive behind those an entry holds are delivered only when none of them follows an earlier fragment, and then
they stand in the order of their arrival. -/
theorem not_matched_of_delivers {ds vs : List Datagram} {s : RecvList} {e : PackLst} (h : Holds s e vs) (hvs : vs ≠ [])
    (hkey : ∀ x ∈ ds, x.id = e.id ∧ x.src = e.src) (hoff : (vs ++ ds).Pairwise fun x y => x.offset ≠ y.offset)
    (hd : Delivers keep e.id e.src payload s ds) :
    (∀ l d r, vs ++ ds = l ++ d :: r → vs.length ≤ l.length → ¬Matched l d) ∧
      (ds ≠ [] → ∃ s' e', e'.id = e.id ∧ e'.src = e.src ∧ Holds s' e' (vs ++ ds) ∧ keep s') := by
  induction ds generalizing s e vs with
  | nil =>
    refine ⟨?_, fun hne => absurd rfl hne⟩
    intro l d r hl hlen
    have := congrArg List.length hl
    simp only [List.append_nil, List.length_append, List.length_cons] at this
    omega
  | cons d ds ih =>
    obtain ⟨vs, last, rfl⟩ := (List.eq_nil_or_concat' vs).resolve_left hvs
    have hne : last.offset ≠ d.offset :=
      (List.pairwise_append.1 hoff).2.2 last (by simp) d (by simp)
    obtain ⟨hm, -, s', -, hholds, hkeep, hrest⟩ := (delivers_cons h hkey hne).1 hd
    obtain ⟨hk1, hk2⟩ := grownEntry_key e e.offs d
    have hassoc : vs ++ [last] ++ d :: ds = vs ++ [last, d] ++ ds := by simp
    rw [hassoc] at hoff ⊢
    rw [← hk1, ← hk2] at hrest
    obtain ⟨hno, hend⟩ := ih hholds (by simp) (by rw [hk1, hk2]; exact (List.forall_mem_cons.1 hkey).2) hoff hrest
    refine ⟨?_, ?_⟩
    · intro l d' r hl hlen
      rcases Nat.lt_or_ge l.length (vs ++ [last, d]).length with hlt | hge
      · -- the next arrival itself
        have hl' : vs ++ [last] ++ (d :: ds) = l ++ (d' :: r) := by rw [hassoc]; exact hl
        have hlen' : (vs ++ [last]).length = l.length := by
          simp only [List.length_append, List.length_cons, List.length_nil] at hlt hlen ⊢
          omega
        obtain ⟨rfl, heq⟩ := List.append_inj hl' hlen'
        obtain ⟨rfl, -⟩ := List.cons_eq_cons.1 heq
        exact hm
      · exact hno l d' r hl hge
    · intro _
      cases ds with
      | nil => exact ⟨s', _, hk1, hk2, by simpa using hholds, hkeep⟩
      | cons x ds =>
        obtain ⟨s'', e', h1, h2, h3, h4⟩ := hend (by simp)
        exact ⟨s'', e', h1.trans hk1, h2.trans hk2, h3, h4⟩

/-- The entry counts the bytes of its fragments. -/
theorem countSize_grownEntry {e : PackLst} {vs : List Datagram} {d : Datagram} (offs : Option Nat)
    (hcount : e.countSize = total Datagram.size vs) (hlt : total Datagram.size (vs ++ [d]) < 18446744073709551616) :
    (grownEntry e offs d).countSize = total Datagram.size (vs ++ [d]) := by
  have hsum : e.countSize + d.size = total Datagram.size (vs ++ [d]) := by
    rw [hcount, total_append, total_cons, total_nil, Nat.add_zero]
  unfold grownEntry
  split
  all_goals
    show u64 (e.countSize + d.size) = _
    rw [hsum, u64_of_lt hlt]

/-- The last piece of a packet tells its size. -/
theorem last_piece {vs : List Datagram} {d : Datagram} (hp : Pieces payload 0 0 (vs ++ [d])) (hlen : payload.length ≤ 32768) :
    islastfrag d = true ∧ closedSize d = payload.length := by
  obtain ⟨init, z, hz, -, hlast⟩ := hp.flags
  obtain ⟨-, hzd⟩ := List.append_inj' hz rfl
  obtain rfl : d = z := by simpa using hzd
  have htot := hp.total_eq
  have hoff : d.offset = total Datagram.size vs := by
    simpa using hp.tiles.here_of_append.1
  rw [total_append, total_cons, total_nil] at htot
  refine ⟨by simp [islastfrag, hlast], ?_⟩
  rw [closedSize, hoff, u64_of_lt (by omega)]
  omega

/-- The others do not. -/
theorem not_last_piece {vs ds : List Datagram} {d : Datagram} (hp : Pieces payload 0 0 (vs ++ d :: ds)) (hds : ds ≠ []) :
    islastfrag d = false := by
  obtain ⟨init, z, hz, hinit, -⟩ := hp.flags
  have hmem : d ∈ (vs ++ d :: ds).dropLast := by
    rw [List.dropLast_append_of_ne_nil (by simp), List.dropLast_cons_of_ne_nil hds]
    simp
  rw [hz, List.dropLast_concat] at hmem
  simp [islastfrag, hinit d hmem]

/-- The pieces of a packet that arrive in order behind those an entry holds are delivered, when none of them follows an earlier
fragment. -/
theorem delivers_of_not_matched {ds vs : List Datagram} {s : RecvList} {e : PackLst} (h : Holds s e vs) (hvs : vs ≠ [])
    (hds : ds ≠ []) (hkey : ∀ x ∈ ds, x.id = e.id ∧ x.src = e.src) (hoff : (vs ++ ds).Pairwise fun x y => x.offset < y.offset)
    (hcount : e.countSize = total Datagram.size vs) (htotal : e.totalSize = 0) (hp : Pieces payload 0 0 (vs ++ ds))
    (hlen : payload.length ≤ 32768) (hpos : ∀ x ∈ ds, 0 < x.size)
    (hno : ∀ l d r, vs ++ ds = l ++ d :: r → vs.length ≤ l.length → ¬Matched l d)
    (hkeep : ∀ s e' l, e'.id = e.id → e'.src = e.src → l <+: vs ++ ds → Holds s e' l → keep s) :
    Delivers keep e.id e.src payload s ds := by
  induction ds generalizing s e vs with
  | nil => exact absurd rfl hds
  | cons d ds ih =>
    obtain ⟨vs, last, rfl⟩ := (List.eq_nil_or_concat' vs).resolve_left hvs
    have hne : last.offset ≠ d.offset :=
      ((List.pairwise_append.1 hoff).2.2 last (by simp) d (by simp)).ne
    have hassoc : vs ++ [last] ++ d :: ds = vs ++ [last] ++ [d] ++ ds := by simp
    have hm : ¬Matched (vs ++ [last]) d := hno _ d ds rfl (Nat.le_refl _)
    have hfollow : ∀ f ∈ vs, follows d f = false := by
      intro f hf
      by_contra hfol
      exact hm ⟨f, by rw [List.dropLast_concat]; exact hf, by simpa using hfol⟩
    obtain ⟨⟨h1, h2⟩, hkey'⟩ := List.forall_mem_cons.1 hkey
    obtain ⟨s', hs', hholds⟩ := insertoffset_grows h ⟨h1.symm, h2.symm⟩ hfollow hne
    rw [show vs ++ [last, d] = vs ++ [last] ++ [d] by simp] at hholds
    obtain ⟨hk1, hk2⟩ := grownEntry_key e e.offs d
    have hk := hkeep s' _ _ hk1 hk2 (by rw [hassoc]; exact List.prefix_append _ _) hholds
    have hle : total Datagram.size (vs ++ [last] ++ [d]) ≤ payload.length := by
      rw [← hp.total_eq, hassoc, total_append _ ds]
      exact Nat.le_add_right _ _
    have hcount' := countSize_grownEntry e.offs hcount (d := d) (by omega)
    by_cases hds' : ds = []
    · -- the last piece closes the packet
      subst hds'
      obtain ⟨hfrag, hclosed⟩ := last_piece hp hlen
      have htotal' : (grownEntry e e.offs d).totalSize = payload.length := by
        simp only [grownEntry, hfrag, if_true, hclosed]
      have hpay : total Datagram.size (vs ++ [last] ++ [d]) = payload.length := hp.total_eq
      refine ⟨s', ?_, hk, ?_⟩
      · rw [hs', hcount', htotal', hpay]
        simp
      · obtain ⟨s'', hs''⟩ := getpack_holds hholds hp.sized (by rw [htotal', hpay])
        rw [hk1, hk2, hp.bytes, htotal'] at hs''
        exact ⟨s'', hs''⟩
    · have hfrag := not_last_piece hp hds'
      have htotal' : (grownEntry e e.offs d).totalSize = 0 := by
        simp [grownEntry, hfrag, htotal]
      have hdpos := hpos d List.mem_cons_self
      refine ⟨s', ?_, hk, ?_⟩
      · have hcpos : (grownEntry e e.offs d).countSize ≠ 0 := by
          rw [hcount', total_append, total_cons]
          omega
        have hempty : ds.isEmpty = false := by simpa using hds'
        rw [hs', htotal', hempty, beq_false_of_ne hcpos.symm]
      · rw [← hk1, ← hk2]
        rw [hassoc] at hoff hp hno hkeep
        refine ih hholds (by simp) hds' (by rw [hk1, hk2]; exact hkey') hoff hcount' htotal' hp
          (fun y hy => hpos y (List.mem_cons_of_mem _ hy)) ?_ ?_
        · intro l d' r hl hge
          refine hno l d' r hl ?_
          rw [List.length_append] at hge
          omega
        · intro s e' l h1' h2'
          exact hkeep s e' l (h1'.trans hk1) (h2'.trans hk2)

/-- What a delivery says of the first arrival. -/
theorem delivers_first {s : RecvList} {d : Datagram} {ds : List Datagram} (hg : getid s.packs d.id d.src = none) :
    Delivers keep id src payload s (d :: ds) ↔
      ¬(s.packs ≠ [] ∧ islastfrag d = true) ∧
        ((freshEntry s.cells d).totalSize == (freshEntry s.cells d).countSize) = ds.isEmpty ∧
        keep ⟨s.cells ++ [⟨d, none⟩], freshEntry s.cells d :: s.packs⟩ ∧
        Delivers keep id src payload ⟨s.cells ++ [⟨d, none⟩], freshEntry s.cells d :: s.packs⟩ ds := by
  obtain ⟨hins, -⟩ := insertoffset_first hg
  by_cases hlast : s.packs ≠ [] ∧ islastfrag d = true
  · rw [if_pos hlast] at hins
    refine iff_of_false ?_ fun h => h.1 hlast
    rintro ⟨s', hs', -⟩
    rw [hins] at hs'
    cases hs'
  · rw [if_neg hlast] at hins
    constructor
    · rintro ⟨s', hs', hkeep, hrest⟩
      obtain ⟨rfl, hb⟩ := Prod.mk.inj (Except.ok.inj (hins.symm.trans hs'))
      exact ⟨hlast, hb, hkeep, hrest⟩
    · rintro ⟨-, hb, hkeep, hrest⟩
      exact ⟨_, by rw [hins, hb], hkeep, hrest⟩

/-! ## The sizes of the pieces -/

theorem follows_iff {d f : Datagram} (h : d.size ≤ 32768) : follows d f = true ↔ f.offset + d.size = d.offset := by
  have hf : f.offset < 32768 := Nat.mod_lt _ (by decide)
  rw [follows, u64_of_lt (by omega), beq_iff_eq]

/-- A piece follows an earlier one exactly when it is as large as that one and those behind it together. -/
theorem matched_iff {l r : List Datagram} {d : Datagram} (hp : Pieces payload 0 0 (l ++ d :: r))
    (hlen : payload.length ≤ 32768) :
    Matched l d ↔ ∃ l₁ m, l.map Datagram.size = l₁ ++ m ∧ 2 ≤ m.length ∧ m.sum = d.size := by
  have htot := hp.total_eq
  have hdoff : d.offset = total Datagram.size l := by simpa using hp.tiles.here_of_append.1
  rw [total_append, total_cons] at htot
  have hsize : d.size ≤ 32768 := by omega
  constructor
  · rintro ⟨f, hf, hfol⟩
    obtain ⟨a, b, hab⟩ := List.append_of_mem hf
    obtain ⟨init, z, rfl⟩ := (List.eq_nil_or_concat' l).resolve_left (by rintro rfl; simp at hf)
    rw [List.dropLast_concat] at hab
    subst hab
    have hfoff : f.offset = total Datagram.size a := by
      have hsplit : a ++ f :: b ++ [z] ++ d :: r = a ++ f :: (b ++ [z] ++ d :: r) := by simp
      rw [hsplit] at hp
      simpa using hp.tiles.here_of_append.1
    rw [follows_iff hsize, hfoff, hdoff] at hfol
    refine ⟨a.map Datagram.size, (f :: (b ++ [z])).map Datagram.size, by simp, by simp, ?_⟩
    have hsum : total Datagram.size (f :: (b ++ [z])) = d.size := by
      simp only [total_append, total_cons, total_nil] at hfol ⊢
      omega
    exact hsum
  · rintro ⟨l₁, m, hl, hm2, hmsum⟩
    obtain ⟨a, b, rfl, rfl, rfl⟩ := List.map_eq_append_iff.1 hl
    obtain ⟨f, g, b, rfl⟩ : ∃ f g b', b = f :: g :: b' := by
      match b, hm2 with
      | f :: g :: b', _ => exact ⟨f, g, b', rfl⟩
    refine ⟨f, by rw [List.dropLast_append_of_ne_nil (by simp)]; simp, ?_⟩
    have hfoff : f.offset = total Datagram.size a := by
      have hsplit : a ++ (f :: g :: b) ++ d :: r = a ++ f :: (g :: b ++ d :: r) := by simp
      rw [hsplit] at hp
      simpa using hp.tiles.here_of_append.1
    rw [follows_iff hsize, hfoff, hdoff, total_append, ← hmsum]
    rfl

/-- Some piece follows an earlier one exactly when the sizes clash. -/
theorem exists_matched_iff {ds : List Datagram} (hp : Pieces payload 0 0 ds) (hlen : payload.length ≤ 32768) :
    (∃ l d r, ds = l ++ d :: r ∧ Matched l d) ↔ Clashes (ds.map Datagram.size) := by
  constructor
  · rintro ⟨l, d, r, rfl, hm⟩
    obtain ⟨l₁, m, hl, hm2, hmsum⟩ := (matched_iff hp hlen).1 hm
    exact ⟨l₁, m, d.size, r.map Datagram.size, by rw [List.map_append, hl, List.map_cons], hm2, hmsum⟩
  · rintro ⟨l₁, m, x, l₂, hsizes, hm2, hmsum⟩
    obtain ⟨l, b, rfl, hl, hb⟩ := List.map_eq_append_iff.1 hsizes
    obtain ⟨d, r, rfl, rfl, -⟩ := List.map_eq_cons_iff.1 hb
    exact ⟨l, d, r, rfl, (matched_iff hp hlen).2 ⟨l₁, m, hl, hm2, hmsum⟩⟩

/-- The pieces of a packet that arrives in two or more are not empty. -/
theorem pieces_pos {first : Hop} {hops : List Hop} {n : Nat} {ds : List Datagram}
    (hmtu : ∀ h ∈ first :: hops, 28 ≤ h.mtu ∧ h.mtu ≤ 65535)
    (hsizes : ds.map Datagram.size = pathSizes ((first :: hops).map Hop.mtu) n) (htwo : 1 < ds.length) :
    ∀ y ∈ ds, 0 < y.size := by
  have hmtus : ∀ m ∈ (first :: hops).map Hop.mtu, 28 ≤ m := by
    intro m hm
    obtain ⟨h, hh, rfl⟩ := List.mem_map.1 hm
    exact (hmtu h hh).1
  have hn : 0 < n := by
    by_contra h0
    have hlen := congrArg List.length hsizes
    rw [Nat.eq_zero_of_not_pos h0, pathSizes_zero hmtus, List.length_map] at hlen
    simp only [List.length_cons, List.length_nil] at hlen
    omega
  intro y hy
  refine mem_pathSizes_pos hn hmtus ?_
  rw [← hsizes]
  exact List.mem_map_of_mem hy

/-- The pieces of one link do not clash: none is larger than the ones before it. -/
theorem not_clashes_cutSizes {mtu n : Nat} (hmtu : 28 ≤ mtu) : ¬Clashes (cutSizes mtu n) := by
  rintro ⟨l₁, m, x, l₂, hsizes, hm2, hmsum⟩
  unfold cutSizes at hsizes
  split at hsizes
  · have := congrArg List.length hsizes
    simp only [List.length_append, List.length_cons, List.length_nil] at this
    omega
  · have hg : 0 < mtu - netHeaderSize - (mtu - netHeaderSize) % 8 := by
      unfold netHeaderSize
      omega
    generalize mtu - netHeaderSize - (mtu - netHeaderSize) % 8 = g at hsizes hg
    have hx : x ≤ g := mem_chop_le hg (by rw [hsizes]; simp)
    have hrep : ∀ y ∈ m, y = g := by
      intro y hy
      have hmem : y ∈ (chop g n).dropLast := by
        rw [hsizes, List.dropLast_append_of_ne_nil (by simp)]
        simp [hy]
      rw [chop, List.dropLast_concat] at hmem
      exact List.eq_of_mem_replicate hmem
    rw [List.eq_replicate_of_mem hrep, List.sum_replicate_nat] at hmsum
    have := Nat.mul_le_mul_right g hm2
    omega

/-! ## Arrival in order -/

/-- A packet that arrives whole is delivered exactly when no other packet is pending. -/
theorem delivers_whole {s : RecvList} {d : Datagram} (hg : getid s.packs d.id d.src = none) (hp : Pieces payload 0 0 [d])
    (hlen : payload.length ≤ 32768) (hkeep : keep ⟨s.cells ++ [⟨d, none⟩], freshEntry s.cells d :: s.packs⟩) :
    Delivers keep d.id d.src payload s [d] ↔ s.packs = [] := by
  obtain ⟨-, hholds⟩ := insertoffset_first hg
  obtain ⟨hfid, hfsrc⟩ := isFor_iff.1 (freshEntry_isFor s.cells d)
  obtain ⟨d', rest, heq, hoff, hmore⟩ := hp.first
  obtain ⟨rfl, rfl⟩ := List.cons_eq_cons.1 heq
  have htot := hp.total_eq
  rw [total_cons, total_nil, Nat.add_zero] at htot
  have hfrag : islastfrag d = true := by simp [islastfrag, hmore]
  have hfresh : (freshEntry s.cells d).totalSize = d.size ∧ (freshEntry s.cells d).countSize = d.size := by
    simp only [freshEntry, hfrag, if_true, closedSize, hoff, initpacklst, Nat.add_zero, and_true]
    exact u64_of_lt (by omega)
  have hget : ∃ s', getpack ⟨s.cells ++ [⟨d, none⟩], freshEntry s.cells d :: s.packs⟩ d.id d.src =
      .ok (s', some (payload.map some, payload.length)) := by
    obtain ⟨s', hs'⟩ := getpack_holds hholds (fun x hx => hp.sized x hx) (by rw [hfresh.1]; simp)
    rw [hfid, hfsrc, hp.bytes, hfresh.1] at hs'
    exact ⟨s', htot ▸ hs'⟩
  rw [delivers_first hg, hfrag, hfresh.1, hfresh.2]
  simp [hkeep, Delivers, hget]

/-- A packet that arrives in two pieces or more, in order, is delivered exactly when the sizes of the pieces do not clash. -/
theorem delivers_pieces {s : RecvList} {d : Datagram} {rest : List Datagram} (hg : getid s.packs d.id d.src = none)
    (hrest : rest ≠ []) (hp : Pieces payload 0 0 (d :: rest)) (hlen : payload.length ≤ 32768)
    (hkey : ∀ x ∈ rest, x.id = d.id ∧ x.src = d.src) (hpos : ∀ x ∈ d :: rest, 0 < x.size)
    (hkeep : ∀ s e l, e.id = d.id → e.src = d.src → l <+: d :: rest → Holds s e l → keep s) :
    Delivers keep d.id d.src payload s (d :: rest) ↔ ¬Clashes ((d :: rest).map Datagram.size) := by
  obtain ⟨-, hholds⟩ := insertoffset_first hg
  obtain ⟨hfid, hfsrc⟩ := isFor_iff.1 (freshEntry_isFor s.cells d)
  obtain ⟨d', rest', heq, hoff, hmore⟩ := hp.first
  obtain ⟨rfl, rfl⟩ := List.cons_eq_cons.1 heq
  have hfrag : islastfrag d = false := by simp [islastfrag, hmore, hrest]
  have hfresh : (freshEntry s.cells d).totalSize = 0 ∧ (freshEntry s.cells d).countSize = d.size := by
    simp [freshEntry, hfrag, initpacklst]
  have hk := hkeep _ _ _ hfid hfsrc (List.prefix_append [d] rest) hholds
  have hinc : ([d] ++ rest).Pairwise fun x y => x.offset < y.offset :=
    (hp.tiles.imp fun b x _ hx => hx.1).pairwise_lt hpos
  have hkeyrest : ∀ y ∈ rest, y.id = (freshEntry s.cells d).id ∧ y.src = (freshEntry s.cells d).src := by
    rw [hfid, hfsrc]
    exact hkey
  -- the first piece follows none
  have hall : (∀ l d' r, [d] ++ rest = l ++ d' :: r → [d].length ≤ l.length → ¬Matched l d') ↔
      ¬∃ l d' r, d :: rest = l ++ d' :: r ∧ Matched l d' := by
    constructor
    · rintro hno ⟨l, d', r, heq, hm⟩
      refine hno l d' r heq ?_ hm
      obtain ⟨f, hf, -⟩ := hm
      exact List.length_pos_of_mem (List.mem_of_mem_dropLast hf)
    · rintro hno l d' r heq - hm
      exact hno ⟨l, d', r, heq, hm⟩
  have hdelivers : Delivers keep d.id d.src payload ⟨s.cells ++ [⟨d, none⟩], freshEntry s.cells d :: s.packs⟩ rest ↔
      ¬Clashes ((d :: rest).map Datagram.size) := by
    rw [← exists_matched_iff hp hlen, ← hall, ← hfid, ← hfsrc]
    constructor
    · intro hd
      exact (not_matched_of_delivers hholds (by simp) hkeyrest (hinc.imp fun h => h.ne) hd).1
    · intro hno
      refine delivers_of_not_matched hholds (by simp) hrest hkeyrest hinc (by rw [hfresh.2]; simp) hfresh.1 hp hlen
        (fun y hy => hpos y (List.mem_cons_of_mem _ hy)) hno ?_
      intro s' e' l h1 h2 hl hh
      exact hkeep s' e' l (h1.trans hfid) (h2.trans hfsrc) hl hh
  have hne : (0 == d.size) = false := by simp [Nat.ne_of_lt (hpos d List.mem_cons_self)]
  rw [delivers_first hg, hdelivers, hfresh.1, hfresh.2, hne, hfrag]
  simp [hk, hrest]

end

/-- For every packet a host sends and every path, when the pieces arrive in order at a list with no entry for the packet: the
packet is delivered exactly when no other packet is pending or it arrives in at least two pieces, and no piece is as large as
two or more right before it together. -/
theorem in_order_delivers_iff {r : Router} {dest protocol : Nat} {payload : List Byte} {item : WaitListItem}
    (hsend : r.netSend dest payload payload.length protocol = some item) (hproto : protocol = 0 ∨ protocol = 1)
    (hlen : payload.length ≤ 32768) {first : Hop} {hops : List Hop}
    (hmtu : ∀ h ∈ first :: hops, 28 ≤ h.mtu ∧ h.mtu ≤ 65535) {ds : List Datagram}
    (hds : sendAlong item first hops = some ds) {s : RecvList} (hnone : getid s.packs first.countId r.num = none) :
    Delivers (fun _ => True) first.countId r.num payload s ds ↔
      (s.packs = [] ∨ 2 ≤ (pathSizes ((first :: hops).map Hop.mtu) payload.length).length) ∧
        ¬Clashes (pathSizes ((first :: hops).map Hop.mtu) payload.length) := by
  obtain ⟨ds', hds', hp, hkey, hsizes⟩ := sendAlong_spec hsend hproto hlen hmtu
  obtain rfl : ds' = ds := Option.some.inj (hds'.symm.trans hds)
  obtain ⟨d, rest, rfl, -, -⟩ := hp.first
  have hkey' : ∀ x ∈ d :: rest, x.id = first.countId ∧ x.src = r.num := fun x hx => ⟨(hkey x hx).1, (hkey x hx).2.1⟩
  obtain ⟨hid, hsrc⟩ := hkey' d List.mem_cons_self
  rw [← hsizes]
  rw [← hid, ← hsrc] at hnone hkey' ⊢
  by_cases hrest : rest = []
  · subst hrest
    rw [delivers_whole hnone hp hlen trivial]
    have hno : ¬Clashes ([d].map Datagram.size) := by
      rintro ⟨l₁, m, x, l₂, heq, hm2, -⟩
      have := congrArg List.length heq
      simp only [List.length_append, List.length_cons, List.length_nil, List.length_map] at this
      omega
    exact ⟨fun h => ⟨Or.inl h, hno⟩, fun h => h.1.resolve_right (by simp)⟩
  · have hpos : ∀ y ∈ d :: rest, 0 < y.size := pieces_pos hmtu hsizes (by simpa using List.length_pos_of_ne_nil hrest)
    rw [delivers_pieces hnone hrest hp hlen (fun x hx => hkey' x (List.mem_cons_of_mem _ hx)) hpos fun _ _ _ _ _ _ _ => trivial]
    have htwo : 2 ≤ ((d :: rest).map Datagram.size).length := by
      have := List.length_pos_of_ne_nil hrest
      simp only [List.map_cons, List.length_cons, List.length_map]
      omega
    exact ⟨fun h => ⟨Or.inr htwo, h⟩, fun h => h.2⟩

/-- The pieces of the twenty bytes on a link that holds sixteen. -/
def twoPieces : List Datagram :=
  [{ size := 16, id := 0, frag := 32768, protocol := 1, ttl := 6, dest := 2, src := 1, data := List.replicate 16 7 },
    { size := 4, id := 0, frag := 16, protocol := 1, ttl := 6, dest := 2, src := 1, data := List.replicate 4 7 }]

/-- Twenty bytes that arrive in two pieces are delivered. -/
theorem two_pieces_delivered :
    Delivers (fun _ => True) 0 1 (List.replicate 20 7) RecvList.empty twoPieces := by
  have hsend : neighbourRouter.netSend 2 (List.replicate 20 7) (List.replicate 20 7).length 1 = some twentyBytes := by decide
  have hds : sendAlong twentyBytes ⟨2, 36, 0⟩ [] = some twoPieces := by decide
  refine (in_order_delivers_iff hsend (Or.inr rfl) (by decide) (by decide) hds rfl).2 ⟨Or.inl rfl, ?_⟩
  have hsizes : pathSizes ([⟨2, 36, 0⟩].map Hop.mtu) (List.replicate 20 (7 : Byte)).length = cutSizes 36 20 := by decide
  rw [hsizes]
  exact not_clashes_cutSizes (Nat.le_of_ble_eq_true rfl)

/-- The results of the insertions and what `getpack` returns in the end. -/
def receiveAll (id src : Nat) : RecvList → List Datagram → Except Fault (List Bool × Option (List (Option Byte) × Nat))
  | s, [] => (getpack s id src).map fun r => ([], r.2)
  | s, d :: ds => do
    let (s, b) ← insertoffset s d
    let (bs, r) ← receiveAll id src s ds
    .ok (b :: bs, r)

/-- A delivery returns the payload and its size. -/
theorem receiveAll_of_delivers {keep : RecvList → Prop} {id src : Nat} {payload : List Byte} {s : RecvList}
    {ds : List Datagram} (h : Delivers keep id src payload s ds) :
    ∃ bs, receiveAll id src s ds = .ok (bs, some (payload.map some, payload.length)) := by
  induction ds generalizing s with
  | nil =>
    obtain ⟨s', hs'⟩ := h
    exact ⟨[], by rw [receiveAll, hs']; rfl⟩
  | cons d ds ih =>
    obtain ⟨s', hs', -, hrest⟩ := h
    obtain ⟨bs, hbs⟩ := ih hrest
    refine ⟨ds.isEmpty :: bs, ?_⟩
    simp only [receiveAll, hs', hbs, bind, Except.bind]

/-- A router that has learnt a route to host 4 from host 2. -/
def farRouter : Router := neighbourRouter.setRoute ⟨3, by decide⟩ 3 2

/-- Sixty-four bytes for host 4, over host 2 and host 3. -/
def sixtyFourBytes : WaitListItem :=
  { dest := 4, src := 1, data := List.replicate 64 7, offset := 0, ttl := 6, size := 64, protocol := 1, id := 0,
    firstDestLink := 2 }

set_option synthInstance.maxSize 1000 in
/-- Links that hold 32, 24 and 16 bytes leave pieces of 16, 8, 8, 16, 8 and 8 bytes. The fourth piece ends where the second
would if it were as large, so it is linked in a circle, and `insertoffset` never ends for the fifth. -/
theorem clashing_pieces_not_delivered :
    farRouter.netSend 4 (List.replicate 64 7) 64 1 = some sixtyFourBytes ∧
      ∃ ds, sendAlong sixtyFourBytes ⟨2, 52, 0⟩ [⟨3, 44, 0⟩, ⟨4, 36, 0⟩] = some ds ∧
        ds.map Datagram.size = [16, 8, 8, 16, 8, 8] ∧ getid RecvList.empty.packs 0 1 = none ∧
        receiveAll 0 1 RecvList.empty ds = .error .endlessLoop ∧
        ¬Delivers (fun _ => True) 0 1 (List.replicate 64 7) RecvList.empty ds := by
  refine ⟨by decide, ?_⟩
  obtain ⟨ds, hds⟩ : ∃ ds, sendAlong sixtyFourBytes ⟨2, 52, 0⟩ [⟨3, 44, 0⟩, ⟨4, 36, 0⟩] = some ds :=
    Option.isSome_iff_exists.1 (by decide)
  have hrun : (sendAlong sixtyFourBytes ⟨2, 52, 0⟩ [⟨3, 44, 0⟩, ⟨4, 36, 0⟩]).map
      (fun ds => (ds.map Datagram.size, receiveAll 0 1 RecvList.empty ds)) =
        some ([16, 8, 8, 16, 8, 8], .error .endlessLoop) := by
    decide
  rw [hds] at hrun
  obtain ⟨hsizes, herr⟩ := Prod.mk.inj (Option.some.inj hrun)
  refine ⟨ds, hds, hsizes, rfl, herr, ?_⟩
  intro h
  obtain ⟨bs, hbs⟩ := receiveAll_of_delivers h
  rw [herr] at hbs
  cases hbs

/-! ## Arrival in any order over one link -/

/-- The fragments of the packet are a finite list in the order of their offsets. -/
def SortedFrags (id src : Nat) (s : RecvList) : Prop :=
  ∃ e vs, e.id = id ∧ e.src = src ∧ Holds s e vs ∧ vs.Pairwise fun x y => x.offset < y.offset

/-- For every packet a host sends over a link that it does not fit, when its fragments arrive in some order at a list with no
entry for the packet: the packet is delivered, its fragments sorted after each arrival, exactly when they arrive in the order of
their offsets. -/
theorem arrival_order_delivers_iff {r : Router} {dest protocol : Nat} {payload : List Byte} {item : WaitListItem}
    (hsend : r.netSend dest payload payload.length protocol = some item) (hproto : protocol = 0 ∨ protocol = 1)
    (hlen : payload.length ≤ 32768) {hop : Hop} (hmtu : 28 ≤ hop.mtu ∧ hop.mtu ≤ 65535)
    (hsplit : hop.mtu < payload.length + netHeaderSize) {ds : List Datagram} (hds : sendAlong item hop [] = some ds)
    {s : RecvList} (hnone : getid s.packs hop.countId r.num = none) {ys : List Datagram} (hperm : ys.Perm ds) :
    Delivers (SortedFrags hop.countId r.num) hop.countId r.num payload s ys ↔ ys = ds := by
  have hmtus : ∀ h ∈ [hop], 28 ≤ h.mtu ∧ h.mtu ≤ 65535 := by simpa using hmtu
  obtain ⟨ds', hds', hp, hkey, hsizes⟩ := sendAlong_spec hsend hproto hlen hmtus
  obtain rfl : ds' = ds := Option.some.inj (hds'.symm.trans hds)
  have hcut : pathSizes ([hop].map Hop.mtu) payload.length = cutSizes hop.mtu payload.length := by
    simp [pathSizes]
  have htwo : 1 < ds'.length := by
    have := one_lt_length_cutSizes hmtu.1 hsplit
    rw [← hcut, ← hsizes, List.length_map] at this
    exact this
  have hinc : ds'.Pairwise fun x y => x.offset < y.offset :=
    (hp.tiles.imp fun b x _ hx => hx.1).pairwise_lt (pieces_pos hmtus hsizes htwo)
  have hkeyds : ∀ x ∈ ds', x.id = hop.countId ∧ x.src = r.num := fun x hx => ⟨(hkey x hx).1, (hkey x hx).2.1⟩
  constructor
  · intro hdel
    obtain ⟨y, rest, rfl⟩ : ∃ y rest, ys = y :: rest := by
      cases ys with
      | nil =>
        rw [← hperm.length_eq] at htwo
        simp at htwo
      | cons y rest => exact ⟨y, rest, rfl⟩
    have hrest : rest ≠ [] := by
      rintro rfl
      rw [← hperm.length_eq] at htwo
      simp at htwo
    have hkeyys : ∀ x ∈ y :: rest, x.id = hop.countId ∧ x.src = r.num := fun x hx => hkeyds x (hperm.mem_iff.1 hx)
    obtain ⟨hid, hsrc⟩ := hkeyys y List.mem_cons_self
    rw [← hid, ← hsrc] at hnone hkeyys hdel
    obtain ⟨-, hholds⟩ := insertoffset_first hnone
    obtain ⟨hfid, hfsrc⟩ := isFor_iff.1 (freshEntry_isFor s.cells y)
    obtain ⟨-, -, -, hdel'⟩ := (delivers_first hnone).1 hdel
    have hdistinct : (y :: rest).Pairwise fun x z => x.offset ≠ z.offset :=
      (hperm.pairwise_iff fun h => Ne.symm h).2 (hinc.imp fun h => h.ne)
    rw [← hfid, ← hfsrc] at hdel'
    obtain ⟨-, hend⟩ := not_matched_of_delivers hholds (by simp)
      (by rw [hfid, hfsrc]; exact fun x hx => hkeyys x (List.mem_cons_of_mem _ hx)) hdistinct hdel'
    obtain ⟨s', e', h1, h2, hh, e'', vs, h1', h2', hh', hsorted⟩ := hend hrest
    -- the entry of the packet is one, and so is its list of fragments
    have hsame : e'' = e' := by
      have hg := hh.1
      have hg' := hh'.1
      rw [h1, h2, hfid, hfsrc] at hg
      rw [h1', h2', hfid, hfsrc] at hg'
      exact Option.some.inj (hg'.symm.trans hg)
    rw [hsame] at hh'
    rw [hh'.unique hh] at hsorted
    exact List.Perm.eq_of_pairwise (fun a b _ _ hab hba => absurd hab (Nat.lt_asymm hba)) hsorted hinc hperm
  · rintro rfl
    obtain ⟨d, rest, rfl, -, -⟩ := hp.first
    have hrest : rest ≠ [] := by
      rintro rfl
      simp at htwo
    obtain ⟨hid, hsrc⟩ := hkeyds d List.mem_cons_self
    rw [← hid, ← hsrc] at hnone hkeyds ⊢
    refine (delivers_pieces hnone hrest hp hlen (fun x hx => hkeyds x (List.mem_cons_of_mem _ hx))
      (pieces_pos hmtus hsizes htwo) ?_).2 ?_
    · intro s' e l h1 h2 hl hh
      exact ⟨e, l, h1, h2, hh, hinc.sublist hl.sublist⟩
    · rw [hsizes, hcut]
      exact not_clashes_cutSizes hmtu.1

/-- Twenty bytes that arrive in two pieces, in order, are delivered. -/
theorem two_sorted_pieces_delivered :
    Delivers (SortedFrags 0 1) 0 1 (List.replicate 20 7) RecvList.empty twoPieces := by
  have hsend : neighbourRouter.netSend 2 (List.replicate 20 7) (List.replicate 20 7).length 1 = some twentyBytes := by decide
  have hds : sendAlong twentyBytes ⟨2, 36, 0⟩ [] = some twoPieces := by decide
  exact (arrival_order_delivers_iff hsend (Or.inr rfl) (by decide) (by decide) (by decide) hds rfl (List.Perm.refl _)).2 rfl

/-- Sixteen bytes for its neighbour. -/
def sixteenBytes : WaitListItem :=
  { dest := 2, src := 1, data := [1, 2, 3, 4, 5, 6, 7, 8, 9, 10, 11, 12, 13, 14, 15, 16], offset := 0, ttl := 6, size := 16,
    protocol := 1, id := 0, firstDestLink := 2 }

set_option synthInstance.maxSize 1000 in
/-- Two pieces of a packet of the bytes 1 to 16 that arrive in the other order are reported complete, and read back in the wrong
order. -/
theorem swapped_pieces_not_delivered :
    ∃ ds, sendAlong sixteenBytes ⟨2, 28, 0⟩ [] = some ds ∧ ds.reverse.Perm ds ∧
      receiveAll 0 1 RecvList.empty ds.reverse =
        .ok ([false, true], some ([9, 10, 11, 12, 13, 14, 15, 16, 1, 2, 3, 4, 5, 6, 7, 8].map some, 16)) ∧
      ¬Delivers (SortedFrags 0 1) 0 1 [1, 2, 3, 4, 5, 6, 7, 8, 9, 10, 11, 12, 13, 14, 15, 16] RecvList.empty ds.reverse := by
  obtain ⟨ds, hds⟩ : ∃ ds, sendAlong sixteenBytes ⟨2, 28, 0⟩ [] = some ds := Option.isSome_iff_exists.1 (by decide)
  have hrun : (sendAlong sixteenBytes ⟨2, 28, 0⟩ []).map (fun ds => receiveAll 0 1 RecvList.empty ds.reverse) =
      some (.ok ([false, true], some ([9, 10, 11, 12, 13, 14, 15, 16, 1, 2, 3, 4, 5, 6, 7, 8].map some, 16))) := by
    decide
  rw [hds] at hrun
  have hswapped : receiveAll 0 1 RecvList.empty ds.reverse = _ := Option.some.inj hrun
  refine ⟨ds, hds, List.reverse_perm ds, hswapped, ?_⟩
  intro h
  obtain ⟨bs, hbs⟩ := receiveAll_of_delivers h
  rw [hswapped] at hbs
  simp at hbs

end NetworkLayers
