import NetworkLayers.Lemmas.NetList

/-!
# Isolation between packets under reassembly

A datagram concerns the entry of its packet and no other: the entries of the other packets stay as they are, and the result is the
one a list with that entry alone would give. `insertoffset` keeps to that except where it does not return: with other packets
pending it writes the size of a new packet through the null result of its search, and the relinking of `addoffset` fails on a
fragment that follows the first one and has no end on a list that goes round in a circle.
-/

namespace NetworkLayers

open Cells Transition

/-- The calls a node makes on its list. -/
inductive RecvOp where
  | insertoffset (d : Datagram)
  | getpack (id src : Nat)
  deriving DecidableEq, Repr

/-- The list after a call that returns. -/
def RecvList.step (s : RecvList) : RecvOp → Option RecvList
  | .insertoffset d => ((insertoffset s d).toOption).map Prod.fst
  | .getpack id src => ((getpack s id src).toOption).map Prod.fst

/-- The lists a node can hold: reached from the empty one by calls that return. -/
def RecvList.Reachable (s : RecvList) : Prop := Reach RecvList.step anyStep RecvList.empty s

/-- What holds of the list between calls: a packet has one entry, the fragments of an entry are cells of the store, and entries of
different packets share none. -/
structure RecvList.Separate (s : RecvList) : Prop where
  keys : (s.packs.map fun e => (e.id, e.src)).Nodup
  closed : ∀ e ∈ s.packs, Closed s.cells e.offs
  disjoint : ∀ e ∈ s.packs, ∀ e' ∈ s.packs, ¬e'.isFor e.id e.src →
    ∀ a, Reaches s.cells e.offs a → ¬Reaches s.cells e'.offs a

/-- Fragments that no call of `addoffset` reached are read the same afterwards. -/
theorem addoffset_unroll {cells cells' : Store Datagram} {offs offs' p : Option Nat} {d : Datagram} {added : Bool}
    (h : addoffset cells offs d = .ok (cells', offs', added)) (hcl : Closed cells p)
    (hdis : ∀ a, Reaches cells p a → ¬Reaches cells offs a) :
    (∀ a, Reaches cells p a → cells'[a]? = cells[a]?) ∧ ∀ n, unroll cells' n p = unroll cells n p := by
  have heq : ∀ a, Reaches cells p a → cells'[a]? = cells[a]? := by
    intro a ha
    obtain ⟨c, hc⟩ := hcl a ha
    exact (addoffset_frame h).2 a (lt_of_get hc) (hdis a ha)
  exact ⟨heq, unroll_frame heq⟩

/-- What one call that returns has done to the list: the entry of the packet of `d`, at the head or in its place, is the only one
that changed. -/
theorem insertoffset_cases {s s' : RecvList} {d : Datagram} {b : Bool} (h : insertoffset s d = .ok (s', b)) :
    (getid s.packs d.id d.src = none ∧ ∃ e, s'.packs = e :: s.packs ∧ e.id = d.id ∧ e.src = d.src ∧
        e.offs = some s.cells.length ∧ s'.cells = s.cells ++ [⟨d, none⟩]) ∨
      ∃ e, getid s.packs d.id d.src = some e ∧ ∃ offs added, addoffset s.cells e.offs d = .ok (s'.cells, offs, added) ∧
        ((added = false ∧ s'.packs = s.packs ∧ b = false) ∨
          (added = true ∧ ∃ e', s'.packs = setEntry s.packs e' ∧ e'.id = e.id ∧ e'.src = e.src ∧ e'.offs = offs)) := by
  obtain ⟨cells, packs⟩ := s
  unfold insertoffset at h
  cases packs with
  | nil =>
    left
    simp only [addoffset, bind, Except.bind] at h
    refine ⟨rfl, ?_⟩
    split at h
    all_goals
      cases h
      exact ⟨_, rfl, rfl, rfl, rfl, rfl⟩
  | cons x rest =>
    simp only at h
    cases hg : getid (x :: rest) d.id d.src with
    | none =>
      left
      simp only [hg, addoffset, bind, Except.bind] at h
      split at h
      · cases h
      · cases h
        exact ⟨rfl, _, rfl, rfl, rfl, rfl, rfl⟩
    | some e =>
      right
      simp only [hg, bind, Except.bind] at h
      split at h
      · cases h
      · rename_i r hadd
        obtain ⟨cells', offs', added⟩ := r
        refine ⟨e, rfl, offs', added, ?_⟩
        cases added with
        | false =>
          simp only [Bool.false_eq_true, if_false] at h
          cases h
          exact ⟨hadd, Or.inl ⟨rfl, rfl, rfl⟩⟩
        | true =>
          simp only [if_true] at h
          refine ⟨?_, Or.inr ⟨rfl, ?_⟩⟩
          · split at h <;> cases h <;> exact hadd
          · split at h
            all_goals
              cases h
              exact ⟨_, rfl, rfl, rfl, rfl⟩

/-- One call that returns, in short: a call of `addoffset` on the fragments of the packet's entry (none for a new packet), after
which the packet's entry heads what that call returned and the other entries are those of before. -/
theorem insertoffset_effect {s s' : RecvList} {d : Datagram} {b : Bool} (hsep : s.Separate)
    (h : insertoffset s d = .ok (s', b)) :
    ∃ offs offs' added, addoffset s.cells offs d = .ok (s'.cells, offs', added) ∧
      (offs = none ∨ ∃ e ∈ s.packs, e.isFor d.id d.src = true ∧ e.offs = offs) ∧
      (∀ x ∈ s'.packs, x.isFor d.id d.src = true ∧ x.offs = offs' ∨ x ∈ s.packs ∧ ¬x.isFor d.id d.src) ∧
      (s'.packs.map fun e => (e.id, e.src)).Nodup := by
  rcases insertoffset_cases h with ⟨hnone, e, hp, hid, hsrc, hoffs, hcells⟩ | ⟨e, hg, offs, added, hadd, hcase⟩
  · have hnot := getid_none hnone
    refine ⟨none, some s.cells.length, true, by rw [hcells]; rfl, Or.inl rfl, ?_, ?_⟩
    · intro x hx
      rw [hp] at hx
      rcases List.mem_cons.1 hx with rfl | hx
      · exact Or.inl ⟨isFor_iff.2 ⟨hid, hsrc⟩, hoffs⟩
      · exact Or.inr ⟨hx, hnot x hx⟩
    · rw [hp, List.map_cons, List.nodup_cons]
      refine ⟨?_, hsep.keys⟩
      intro hm
      obtain ⟨x, hx, hkey⟩ := List.mem_map.1 hm
      rw [Prod.mk.injEq, hid, hsrc] at hkey
      exact hnot x hx (isFor_iff.2 hkey)
  · obtain ⟨hmem, hid, hsrc⟩ := getid_some hg
    refine ⟨e.offs, offs, added, hadd, Or.inr ⟨e, hmem, isFor_iff.2 ⟨hid, hsrc⟩, rfl⟩, ?_⟩
    rcases hcase with ⟨rfl, hp, -⟩ | ⟨rfl, e', hp, hid', hsrc', hoffs'⟩
    · rw [hp]
      refine ⟨?_, hsep.keys⟩
      intro x hx
      by_cases hk : x.isFor d.id d.src = true
      · left
        rw [← hid, ← hsrc] at hk
        obtain rfl := eq_of_keys hsep.keys hmem hx hk
        refine ⟨isFor_iff.2 ⟨hid, hsrc⟩, ?_⟩
        rcases addoffset_cases hadd with ⟨-, -, -, h⟩ | ⟨_, _, _, _, h1, h2, -⟩
        · cases h
        · rw [h1, h2]
      · exact Or.inr ⟨hx, hk⟩
    · rw [hp]
      refine ⟨?_, by rw [keys_setEntry]; exact hsep.keys⟩
      intro x hx
      rcases mem_setEntry hsep.keys hx with rfl | ⟨hx, hne⟩
      · exact Or.inl ⟨isFor_iff.2 ⟨hid'.trans hid, hsrc'.trans hsrc⟩, hoffs'⟩
      · rw [hid', hsrc', hid, hsrc] at hne
        exact Or.inr ⟨hx, hne⟩

/-- The entries of the other packets keep their fragments and what is read of them. -/
theorem insertoffset_others {s s' : RecvList} {d : Datagram} {b : Bool} (hsep : s.Separate)
    (h : insertoffset s d = .ok (s', b)) {x : PackLst} (hx : x ∈ s.packs) (hne : ¬x.isFor d.id d.src) :
    (∀ a, Reaches s.cells x.offs a → s'.cells[a]? = s.cells[a]?) ∧
      ∀ n, unroll s'.cells n x.offs = unroll s.cells n x.offs := by
  obtain ⟨offs, offs', added, hadd, hoffs, -⟩ := insertoffset_effect hsep h
  refine addoffset_unroll hadd (hsep.closed x hx) ?_
  intro a hax hao
  rcases hoffs with rfl | ⟨e, he, hk, rfl⟩
  · exact not_reaches_none hao
  · obtain ⟨h1, h2⟩ := isFor_iff.1 hk
    exact hsep.disjoint e he x hx (by rw [h1, h2]; exact hne) a hao hax

/-- Some of the entries of a list whose entries are apart are apart. -/
theorem RecvList.Separate.sublist {s s' : RecvList} (h : s.Separate) (hcells : s'.cells = s.cells)
    (hsub : s'.packs.Sublist s.packs) : s'.Separate where
  keys := h.keys.sublist (hsub.map _)
  closed := fun e he => hcells ▸ h.closed e (hsub.subset he)
  disjoint := by
    intro e he e' he' hne
    rw [hcells]
    exact h.disjoint e (hsub.subset he) e' (hsub.subset he') hne

/-- `getpack` takes the entry out and leaves the fragments where they are. -/
theorem getpack_sublist {s s' : RecvList} {id src : Nat} {r : Option (List (Option Byte) × Nat)}
    (h : getpack s id src = .ok (s', r)) : s'.cells = s.cells ∧ s'.packs.Sublist s.packs := by
  unfold getpack at h
  split at h
  · cases h
    exact ⟨rfl, List.Sublist.refl _⟩
  · rename_i e _
    cases hc : copyFragments s.cells e.totalSize s.cells.length [] e.offs with
    | error f =>
      rw [hc] at h
      cases h
    | ok buf =>
      rw [hc] at h
      cases h
      exact ⟨rfl, List.eraseP_sublist⟩

/-- The entry that `d` went to shares no fragment with the others. -/
theorem insertoffset_apart {s s' : RecvList} {d : Datagram} {b : Bool} (hsep : s.Separate) (h : insertoffset s d = .ok (s', b))
    {x y : PackLst} (hx : x ∈ s'.packs) (hxk : x.isFor d.id d.src = true) (hy : y ∈ s.packs) (hyk : ¬y.isFor d.id d.src)
    {a : Nat} (hya : Reaches s.cells y.offs a) : ¬Reaches s'.cells x.offs a := by
  obtain ⟨offs, offs', added, hadd, hoffs, hpacks, -⟩ := insertoffset_effect hsep h
  obtain ⟨c, hc⟩ := hsep.closed y hy a hya
  intro hxa
  rcases hpacks x hx with ⟨-, hxo⟩ | ⟨-, hne⟩
  · rw [hxo] at hxa
    rcases addoffset_reaches hadd hxa with hr | rfl
    · rcases hoffs with rfl | ⟨e, he, hk, rfl⟩
      · exact not_reaches_none hr
      · obtain ⟨h1, h2⟩ := isFor_iff.1 hk
        exact hsep.disjoint e he y hy (by rw [h1, h2]; exact hyk) a hr hya
    · exact absurd (lt_of_get hc) (lt_irrefl _)
  · exact hne hxk

/-- After a call of `insertoffset` that returns, the entries are apart as before. -/
theorem separate_insertoffset {s s' : RecvList} {d : Datagram} {b : Bool} (hsep : s.Separate)
    (h : insertoffset s d = .ok (s', b)) : s'.Separate := by
  obtain ⟨offs, offs', added, hadd, hoffs, hpacks, hkeys⟩ := insertoffset_effect hsep h
  have hold : ∀ x ∈ s.packs, ¬x.isFor d.id d.src → ∀ a, Reaches s'.cells x.offs a →
      Reaches s.cells x.offs a ∧ s'.cells[a]? = s.cells[a]? := by
    intro x hx hne a ha
    obtain ⟨heq, -⟩ := insertoffset_others hsep h hx hne
    exact ⟨ha.frame heq, heq a (ha.frame heq)⟩
  refine ⟨hkeys, ?_, ?_⟩
  · intro x hx
    rcases hpacks x hx with ⟨-, hxo⟩ | ⟨hx, hk⟩
    · rw [hxo]
      refine addoffset_closed hadd ?_
      rcases hoffs with rfl | ⟨e, he, -, rfl⟩
      · exact fun a ha => absurd ha not_reaches_none
      · exact hsep.closed e he
    · intro a ha
      obtain ⟨hr, heq⟩ := hold x hx hk a ha
      rw [heq]
      exact hsep.closed x hx a hr
  · intro x hx y hy hne a hax hay
    -- each of the two is the entry of the packet or one of the others
    rcases hpacks x hx with ⟨hxk, -⟩ | ⟨hxs, hxk⟩ <;> rcases hpacks y hy with ⟨hyk, -⟩ | ⟨hys, hyk⟩
    · obtain ⟨h1, h2⟩ := isFor_iff.1 hxk
      rw [h1, h2] at hne
      exact hne hyk
    · exact insertoffset_apart hsep h hx hxk hys hyk (hold y hys hyk a hay).1 hax
    · exact insertoffset_apart hsep h hy hyk hxs hxk (hold x hxs hxk a hax).1 hay
    · exact hsep.disjoint x hxs y hys hne a (hold x hxs hxk a hax).1 (hold y hys hyk a hay).1

/-- The lists a node can hold keep the entries apart. -/
theorem separate_step {s s' : RecvList} {op : RecvOp} (h : s.Separate) (hs : s.step op = some s') : s'.Separate := by
  cases op with
  | getpack id src =>
    simp only [RecvList.step] at hs
    cases hg : getpack s id src with
    | error f => simp [hg, Except.toOption] at hs
    | ok r =>
      simp only [hg, Except.toOption, Option.map_some, Option.some.injEq] at hs
      subst hs
      obtain ⟨hcells, hsub⟩ := getpack_sublist hg
      exact h.sublist hcells hsub
  | insertoffset d =>
    simp only [RecvList.step] at hs
    cases hi : insertoffset s d with
    | error f => simp [hi, Except.toOption] at hs
    | ok r =>
      simp only [hi, Except.toOption, Option.map_some, Option.some.injEq] at hs
      subst hs
      exact separate_insertoffset h hi

/-- Every list a node can hold keeps its entries apart. -/
theorem reachable_separate {s : RecvList} (h : s.Reachable) : s.Separate := by
  refine h.invariant ⟨by simp [RecvList.empty], ?_, ?_⟩ fun s op s' hsep _ hs => separate_step hsep hs
  · intro e he
    cases he
  · intro e he
    cases he

/-! ## What a call computes for the packet of the datagram -/

/-- The list that holds the entry of the packet of `d` and no other. -/
def RecvList.alone (s : RecvList) (d : Datagram) : RecvList := ⟨s.cells, (getid s.packs d.id d.src).toList⟩

/-- `d` concerns the entry of its packet alone: the call returns, the entries of the other packets and their fragments stay, and
the result and the entry of the packet are those of a list that holds that entry alone. -/
def Isolated (s : RecvList) (d : Datagram) : Prop :=
  ∃ s' b, insertoffset s d = .ok (s', b) ∧
    s'.packs.filter (fun x => !x.isFor d.id d.src) = s.packs.filter (fun x => !x.isFor d.id d.src) ∧
    (∀ x ∈ s.packs, ¬x.isFor d.id d.src → ∀ n, unroll s'.cells n x.offs = unroll s.cells n x.offs) ∧
    ∃ t, insertoffset (s.alone d) d = .ok (t, b) ∧ getid t.packs d.id d.src = getid s'.packs d.id d.src ∧
      ∀ e ∈ getid t.packs d.id d.src, ∀ n, unroll t.cells n e.offs = unroll s'.cells n e.offs

/-- The lists and datagrams `insertoffset` returns on: no packet is pending, or the datagram opens a packet and is not its last
fragment, or it goes to an entry whose first fragment does not end the walk of `addoffset` and whose fragments do not go round
past it. -/
def Accepts (s : RecvList) (d : Datagram) : Prop :=
  s.packs = [] ∨ (getid s.packs d.id d.src = none ∧ islastfrag d = false) ∨
    ∃ e, getid s.packs d.id d.src = some e ∧ ¬HeadMatch s.cells e.offs d ∧ ¬Circles s.cells e.offs d

/-- A call returns exactly on the lists and datagrams described. -/
theorem insertoffset_returns_iff {s : RecvList} (hsep : s.Separate) (d : Datagram) :
    (∃ r, insertoffset s d = .ok r) ↔ Accepts s d := by
  by_cases hnil : s.packs = []
  · obtain ⟨cells, packs⟩ := s
    obtain rfl : packs = [] := hnil
    exact iff_of_true ⟨_, insertoffset_nil cells d⟩ (Or.inl rfl)
  · cases hg : getid s.packs d.id d.src with
    | none =>
      rw [insertoffset_new hnil hg]
      simp only [Accepts, hnil, hg, true_and, false_or, reduceCtorEq, false_and, exists_false, or_false]
      cases islastfrag d <;> simp
    | some e =>
      obtain ⟨hmem, -, -⟩ := getid_some hg
      have hadd := addoffset_returns_iff (hsep.closed e hmem) d
      rw [insertoffset_known hg]
      simp only [Accepts, hnil, hg, false_or, reduceCtorEq, false_and, Option.some.injEq, exists_eq_left', ← hadd]
      constructor
      · rintro ⟨r, hr⟩
        cases ha : addoffset s.cells e.offs d with
        | error f => simp [ha, Except.bind] at hr
        | ok a => exact ⟨a, rfl⟩
      · rintro ⟨a, ha⟩
        simp only [ha, Except.bind]
        split <;> exact ⟨_, rfl⟩

/-- For every list a node can hold and every datagram that arrives: the datagram concerns the entry of its packet alone exactly
when the list and the datagram are among those described. -/
theorem insertoffset_isolated_iff {s : RecvList} (h : s.Reachable) (d : Datagram) : Isolated s d ↔ Accepts s d := by
  have hsep := reachable_separate h
  rw [← insertoffset_returns_iff hsep d]
  constructor
  · rintro ⟨s', b, hs, -⟩
    exact ⟨_, hs⟩
  · rintro ⟨⟨s', b⟩, hs⟩
    refine ⟨s', b, hs, ?_, fun x hx hne => (insertoffset_others hsep hs hx hne).2, ?_⟩
    · rcases insertoffset_cases hs with ⟨-, e, hp, hid, hsrc, -⟩ | ⟨e, hg, offs, added, -, hcase⟩
      · simp [hp, isFor_iff.2 ⟨hid, hsrc⟩]
      · obtain ⟨-, hid, hsrc⟩ := getid_some hg
        rcases hcase with ⟨-, hp, -⟩ | ⟨-, e', hp, hid', hsrc', -⟩
        · rw [hp]
        · rw [hp, ← hid, ← hsrc, ← hid', ← hsrc']
          exact filter_setEntry s.packs e'
    · cases hg : getid s.packs d.id d.src with
      | none =>
        have halone : s.alone d = ⟨s.cells, []⟩ := by simp [RecvList.alone, hg]
        rw [halone, insertoffset_nil]
        have hfor := freshEntry_isFor s.cells d
        by_cases hnil : s.packs = []
        · obtain ⟨cells, packs⟩ := s
          obtain rfl : packs = [] := hnil
          rw [insertoffset_nil] at hs
          cases hs
          exact ⟨_, rfl, rfl, fun _ _ _ => rfl⟩
        · rw [insertoffset_new hnil hg] at hs
          split at hs
          · cases hs
          · cases hs
            exact ⟨_, rfl, by simp [getid, hfor], fun _ _ _ => rfl⟩
      | some e =>
        obtain ⟨-, hid, hsrc⟩ := getid_some hg
        have hself : getid (s.alone d).packs d.id d.src = some e := by
          simp only [RecvList.alone, hg, Option.toList_some]
          simp [getid, isFor_iff.2 ⟨hid, hsrc⟩]
        have hcells : (s.alone d).cells = s.cells := rfl
        rw [insertoffset_known hself, hcells]
        rw [insertoffset_known hg] at hs
        cases ha : addoffset s.cells e.offs d with
        | error f => simp [ha, Except.bind] at hs
        | ok r =>
          simp only [ha, Except.bind] at hs ⊢
          split at hs
          · rename_i hadded
            cases hs
            obtain ⟨hk1, hk2⟩ := grownEntry_key e r.2.1 d
            rw [if_pos hadded]
            refine ⟨_, rfl, ?_, fun _ _ _ => rfl⟩
            rw [← hid, ← hsrc, ← hk1, ← hk2] at hg hself ⊢
            rw [getid_setEntry hg, getid_setEntry hself]
          · rename_i hadded
            cases hs
            rw [if_neg hadded]
            exact ⟨_, rfl, by rw [hself]; exact hg.symm, fun _ _ _ => rfl⟩

/-- A list that waits for the rest of a packet of host 1, its first fragment held. -/
def pendingList : RecvList :=
  ⟨[⟨{ size := 8, id := 7, frag := 32768, src := 1, data := List.replicate 8 0 }, none⟩],
    [{ id := 7, src := 1, countSize := 8, totalSize := 0, offs := some 0 }]⟩

/-- A whole datagram of host 2. -/
def wholeDatagram : Datagram := { size := 1, id := 0, frag := 0, src := 2, data := [65] }

theorem pendingList_reachable : pendingList.Reachable := by
  have hexec : exec RecvList.step RecvList.empty
      [.insertoffset { size := 8, id := 7, frag := 32768, src := 1, data := List.replicate 8 0 }] = some pendingList := by
    decide
  exact reach_anyStep_of_exec hexec

/-- A whole datagram that arrives while another packet is pending is not reported complete: the call dereferences the null result
of its search. -/
theorem whole_datagram_not_isolated :
    pendingList.Reachable ∧ insertoffset pendingList wholeDatagram = .error .nullDeref ∧
      ¬Isolated pendingList wholeDatagram := by
  refine ⟨pendingList_reachable, by decide, ?_⟩
  rintro ⟨s', b, h, -⟩
  have : insertoffset pendingList wholeDatagram = .error .nullDeref := by decide
  rw [this] at h
  cases h

/-- The last fragment of the pending packet does concern its entry alone. -/
theorem last_fragment_isolated :
    Isolated pendingList { size := 4, id := 7, frag := 8, src := 1, data := [1, 2, 3, 4] } := by
  refine (insertoffset_isolated_iff pendingList_reachable _).2 (Or.inr (Or.inr ⟨_, rfl, ?_, ?_⟩))
  · rintro ⟨head, c, h, hc, hn, -⟩
    cases h
    cases hc
    exact hn rfl
  · rintro ⟨⟨-, h⟩, -⟩
    obtain ⟨c, hc, hn⟩ := h 0 (Reaches.here 0)
    cases hc
    exact hn rfl

end NetworkLayers
