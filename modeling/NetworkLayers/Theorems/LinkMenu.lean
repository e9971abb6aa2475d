import NetworkLayers.Application.LinkMenu

/-!
# Links switched from the menu

`config_link` takes places of the array, and the menu gives it the numbers of the hosts, which are one more: what it writes is the link
between the hosts after the two. The choices of the menu leave the tables consistent exactly when none of them has to change anything.
-/

namespace NetworkLayers

open Transition

namespace LinkMenuAux

variable {n : HostIndex} {links links' : Links} {s s' : LinkMenu} {op : LinkOp}

/-- The node after a choice that left these links. -/
def after (s : LinkMenu) (op : LinkOp) (links' : Links) : LinkMenu :=
  { links := links', router := op.switchRoute s.router, given := Function.update s.given op.host (some op.mtu) }

theorem after_given_self : (after s op links').given op.host = some op.mtu := Function.update_self ..

theorem after_given_of_ne {h : HostIndex} (hne : h ≠ op.host) : (after s op links').given h = s.given h :=
  Function.update_of_ne hne ..

/-- A choice writes at the places that are the numbers of the two hosts. -/
theorem step_eq_some_iff :
    s.step n op = some s' ↔ ∃ x y : HostIndex, hostNum n = x.val ∧ hostNum op.host = y.val ∧
      s' = after s op (Grid.setBoth s.links x y op.mtu) := by
  simp only [LinkMenu.step, configLink, Option.map_eq_some_iff, Grid.writeBoth_eq_some_iff]
  constructor
  · rintro ⟨_, ⟨x, y, hx, hy, rfl⟩, rfl⟩
    exact ⟨x, y, Int.ofNat.inj hx, Int.ofNat.inj hy, rfl⟩
  · rintro ⟨x, y, hx, hy, rfl⟩
    exact ⟨_, ⟨x, y, congrArg _ hx, congrArg _ hy, rfl⟩, rfl⟩

/-- What the condition says of the links. -/
theorem alreadySet_iff :
    s.AlreadySet n op ↔ ∃ x y : HostIndex, hostNum n = x.val ∧ hostNum op.host = y.val ∧
      (s.links n op.host = op.mtu ∧ s.links op.host n = op.mtu) ∧ s.links x y = op.mtu ∧ s.links y x = op.mtu := by
  have hsub : ∀ i : HostIndex, ((hostNum i + 1 : Nat) : Int) - 1 = (hostNum i : Int) := fun i => by omega
  simp only [LinkMenu.AlreadySet, getmtu_hostNum, Option.some.injEq]
  simp only [getmtu, hsub, Grid.read_eq_some_iff]
  constructor
  · rintro ⟨h1, h2, ⟨x, y, hx, hy, h3⟩, y', x', hy', hx', h4⟩
    obtain rfl : y = y' := Fin.ext (Int.ofNat.inj (hy.symm.trans hy'))
    obtain rfl : x = x' := Fin.ext (Int.ofNat.inj (hx.symm.trans hx'))
    exact ⟨x, y, Int.ofNat.inj hx, Int.ofNat.inj hy, ⟨h1, h2⟩, h3, h4⟩
  · rintro ⟨x, y, hx, hy, ⟨h1, h2⟩, h3, h4⟩
    exact ⟨h1, h2, ⟨x, y, congrArg _ hx, congrArg _ hy, h3⟩, y, x, congrArg _ hy, congrArg _ hx, h4⟩

/-! ## One choice -/

theorem neighbors_switchRoute (hop : op.Valid n) (r : Router) : (op.switchRoute r).neighbors op.host = 1 ↔ op.mtu ≠ -1 := by
  cases op with
  | disable host =>
    refine iff_of_false ?_ (not_not_intro rfl)
    simp [LinkOp.switchRoute, LinkOp.host, Router.disableRoute]
  | enable host mtu =>
    have hpos : 0 < mtu := hop.2
    refine iff_of_true ?_ ?_
    · simp [LinkOp.switchRoute, LinkOp.host, Router.enableRoute]
    · show mtu ≠ -1
      omega

theorem neighbors_switchRoute_of_ne (r : Router) {h : HostIndex} (hne : h ≠ op.host) :
    (op.switchRoute r).neighbors h = r.neighbors h := by
  cases op with
  | disable host => exact Function.update_of_ne hne ..
  | enable host mtu => exact Function.update_of_ne hne ..

/-- A pair named before a choice is named after it. -/
theorem Named.after {i j : HostIndex} (h : s.Named n i j) : (after s op links').Named n i j := by
  have hkeep : ∀ x, s.given x ≠ none → (LinkMenuAux.after s op links').given x ≠ none := by
    intro x hx
    by_cases hxo : x = op.host
    · rw [hxo, after_given_self]
      simp
    · rwa [after_given_of_ne hxo]
  exact h.imp (fun h => ⟨h.1, hkeep _ h.2⟩) fun h => ⟨h.1, hkeep _ h.2⟩

/-- A choice that has no link to change keeps the tables consistent. -/
theorem consistent_of_unchanged (h : s.Consistent n links) (hop : op.Valid n) (hthere : s.links n op.host = op.mtu)
    (hback : s.links op.host n = op.mtu) : (after s op s.links).Consistent n links := by
  refine ⟨fun host hgiven => ?_, fun host m hgiven => ?_, fun i j hnamed => h.others i j fun hbefore => hnamed (Named.after hbefore)⟩
  · simp only [getmtu_hostNum, ne_eq, Option.some.injEq]
    by_cases hhost : host = op.host
    · subst hhost
      exact (neighbors_switchRoute hop s.router).trans (hthere ▸ Iff.rfl)
    · rw [after_given_of_ne hhost] at hgiven
      refine (neighbors_switchRoute_of_ne s.router hhost) ▸ ?_
      simpa only [after, getmtu_hostNum, ne_eq, Option.some.injEq] using h.neighbors host hgiven
  · by_cases hhost : host = op.host
    · subst hhost
      rw [after_given_self] at hgiven
      obtain rfl := Option.some.inj hgiven
      simp [after, hthere, hback]
    · rw [after_given_of_ne hhost] at hgiven
      exact h.given host m hgiven

/-- A choice after which the tables are consistent wrote what was there. Where it should write it writes nothing; where it writes is the
link of a pair that has not been named, or of one that was given the same. -/
theorem unchanged_of_consistent {x y : HostIndex} (h : s.Consistent n links) (hop : op.Valid n) (hx : hostNum n = x.val)
    (hy : hostNum op.host = y.val) (h' : (after s op (Grid.setBoth s.links x y op.mtu)).Consistent n links) :
    (s.links n op.host = op.mtu ∧ s.links op.host n = op.mtu) ∧ s.links x y = op.mtu ∧ s.links y x = op.mtu := by
  have hnx : n ≠ x := fun he => by simp [he, hostNum] at hx
  -- the two hosts are not each the one after the other
  have hnot : ¬(n = y ∧ op.host = x) := by
    rintro ⟨hny, hox⟩
    simp only [hostNum, ← hny, ← hox] at hx hy
    omega
  obtain ⟨hxy, hyx⟩ := Grid.setBoth_self (g := s.links) (x := x) (y := y) (a := op.mtu)
  have hgiven := h'.given op.host op.mtu after_given_self
  simp only [after, getmtu_hostNum, Option.some.injEq] at hgiven
  rw [Grid.setBoth_of_ne (fun he => hnx he.1) hnot, Grid.setBoth_of_ne (fun he => hnot he.symm) fun he => hnx he.2] at hgiven
  refine ⟨hgiven, ?_⟩
  by_cases hnamed : y = n ∧ s.given x ≠ none
  · -- the pair is that of the host after the node, which was given its MTU
    obtain ⟨rfl, hsome⟩ := hnamed
    obtain ⟨m, hm⟩ := Option.ne_none_iff_exists'.1 hsome
    have hxo : x ≠ op.host := fun he => hnot ⟨rfl, he.symm⟩
    have hbefore := h.given x m hm
    have hafter := h'.given x m ((after_given_of_ne hxo).trans hm)
    simp only [after, getmtu_hostNum, Option.some.injEq, hxy, hyx] at hbefore hafter
    rw [hafter.1]
    exact hbefore.symm
  · have hxo : y = n → x ≠ op.host := fun hyn he => hnot ⟨hyn.symm, he.symm⟩
    have hafter : ¬(y = n ∧ (after s op (Grid.setBoth s.links x y op.mtu)).given x ≠ none) := by
      rintro ⟨hyn, hsome⟩
      rw [after_given_of_ne (hxo hyn)] at hsome
      exact hnamed ⟨hyn, hsome⟩
    -- not named in either order, as the first of the pair is not the node
    have hunnamed : ∀ t : LinkMenu, ¬(y = n ∧ t.given x ≠ none) → ¬t.Named n x y ∧ ¬t.Named n y x := fun t ht =>
      ⟨not_or.2 ⟨fun he => hnx he.1.symm, ht⟩, not_or.2 ⟨ht, fun he => hnx he.1.symm⟩⟩
    obtain ⟨hb1, hb2⟩ := hunnamed s hnamed
    obtain ⟨ha1, ha2⟩ := hunnamed _ hafter
    have h1 := (h'.others x y ha1).trans (h.others x y hb1).symm
    have h2 := (h'.others y x ha2).trans (h.others y x hb2).symm
    simp only [after, getmtu_hostNum, Option.some.injEq, hxy, hyx] at h1 h2
    exact ⟨h1.symm, h2.symm⟩

/-- A choice stays within the array and leaves the tables consistent exactly when everything it is to set is set already. -/
theorem step_consistent_iff (h : s.Consistent n links) (hop : op.Valid n) :
    (∃ s' ∈ s.step n op, s'.Consistent n links) ↔ s.AlreadySet n op := by
  rw [alreadySet_iff]
  constructor
  · rintro ⟨s', hs', h'⟩
    obtain ⟨x, y, hx, hy, rfl⟩ := step_eq_some_iff.1 hs'
    exact ⟨x, y, hx, hy, unchanged_of_consistent h hop hx hy h'⟩
  · rintro ⟨x, y, hx, hy, hlink, hxy, hyx⟩
    refine ⟨_, step_eq_some_iff.2 ⟨x, y, hx, hy, rfl⟩, ?_⟩
    rw [Grid.setBoth_eq_self hxy hyx]
    exact consistent_of_unchanged h hop hlink.1 hlink.2

theorem consistent_init (n : HostIndex) (links : Links) : (LinkMenu.init n links).Consistent n links := by
  refine ⟨fun h hgiven => absurd rfl hgiven, fun h m hgiven => ?_, fun i j _ => rfl⟩
  cases hgiven

end LinkMenuAux

open LinkMenuAux in
/-- For every topology and every sequence of links switched from the menu: the neighbours and both directions of the MTU are what was
last chosen for each host, and those of the pairs not named are those of the topology, after every choice exactly when each choice finds
set already what it is to set, and what stands one place further in both directions of the array is the same. -/
theorem link_menu_consistent_iff (n : HostIndex) (links : Links) {ops : List LinkOp} (hops : ∀ op ∈ ops, op.Valid n) :
    (∀ pre, pre <+: ops → ∃ s ∈ exec (LinkMenu.step n) (LinkMenu.init n links) pre, s.Consistent n links) ↔
      Along (LinkMenu.step n) (LinkMenu.AlreadySet n) (LinkMenu.init n links) ops := by
  have hstep : ∀ (s : LinkMenu) (op : LinkOp), s.Consistent n links → op.Valid n →
      ((∃ s' ∈ s.step n op, s'.Consistent n links) ↔ s.AlreadySet n op) := fun _ _ h hop => step_consistent_iff h hop
  exact along_iff_exec (consistent_init n links) hstep (along_of_forall hops)

/-- The topology of topology.cnf. -/
def shippedLinks : Links := fun i j =>
  match hostNum i, hostNum j with
  | 1, 2 | 2, 1 | 3, 4 | 4, 3 | 4, 5 | 5, 4 => 2000
  | 2, 3 | 3, 2 => 1500
  | 3, 5 | 5, 3 => 3000
  | _, _ => -1

/-- The fifth host disables a link it does not have. -/
theorem absent_link_consistent :
    ∃ s ∈ exec (LinkMenu.step 4) (LinkMenu.init 4 shippedLinks) [LinkOp.disable 0], s.Consistent 4 shippedLinks :=
  (link_menu_consistent_iff 4 shippedLinks (by decide)).2 (by decide) _ (List.prefix_refl _)

/-- The first host disables its link to the second: the MTU stays, and the second has none any more for its link to the third. -/
theorem wrong_link_disabled :
    ∃ s ∈ LinkMenu.step 0 (LinkMenu.init 0 shippedLinks) (.disable 1),
      s.router.neighbors 1 = 0 ∧ getmtu s.links 1 2 = some 2000 ∧
      getmtu shippedLinks 2 3 = some 1500 ∧ getmtu s.links 2 3 = some (-1) ∧ ¬s.Consistent 0 shippedLinks := by
  refine ⟨_, rfl, by decide, by decide, by decide, by decide, ?_⟩
  intro h
  exact absurd (h.given 1 (-1) rfl).1 (by decide)

end NetworkLayers
