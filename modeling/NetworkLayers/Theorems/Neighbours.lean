import NetworkLayers.Net.RouteNet

/-!
# Routes and disabled links

`disable_route` forgets a link and the routes through it, and the neighbours a node advertises to are those it has links to.
`internalhandleroute` does not look at them: a message of a host whose link was disabled puts a route through that host back.
-/

namespace NetworkLayers

open Transition

/-- The host is a neighbour whose link is enabled. -/
def Router.IsNeighbour (r : Router) (host : Nat) : Prop := ∃ j ∈ hostIndex host, r.neighbors j = 1

instance (r : Router) (host : Nat) : Decidable (r.IsNeighbour host) := inferInstanceAs (Decidable (∃ j ∈ hostIndex host, _))

/-- The next hop towards any other host is a neighbour. -/
def Router.UsesLinks (r : Router) : Prop :=
  ∀ d, hostNum d ≠ r.num → r.hostreachable (hostNum d) ≠ 0 → r.IsNeighbour (r.hostreachable (hostNum d))

/-- The host that a route to `dest` with this gateway goes through. -/
def Router.hopOf (r : Router) (dest gateway : Nat) : Nat := if gateway = r.num then dest else gateway

/-- A message about another host whose route is taken comes from a neighbour. -/
def TakesNeighbour (s : RouteNode) : RouteEvent → Prop
  | .handle msg => ∀ i ∈ hostIndex msg.dest,
      (s.router.routes i).cost = infiniteRoute ∨ msg.cost < (s.router.routes i).cost →
        hostNum i ≠ s.router.num → msg.gateway ≠ infiniteRoute → s.router.IsNeighbour (s.router.hopOf msg.dest msg.gateway)
  | _ => True

instance TakesNeighbour.decidable (s : RouteNode) : ∀ a, Decidable (TakesNeighbour s a)
  | .handle _ => inferInstanceAs (Decidable (∀ i ∈ hostIndex _, _))
  | .start | .enableRoute _ | .disableRoute _ => inferInstanceAs (Decidable True)

namespace NeighbourAux

theorem hostIndex_eq_some_iff {host : Nat} {i : HostIndex} : hostIndex host = some i ↔ host = hostNum i := by
  refine ⟨fun h => ?_, fun h => h ▸ hostIndex_hostNum i⟩
  unfold hostIndex at h
  split at h
  · cases h
    rename_i hrange
    exact (Nat.sub_add_cancel hrange.1).symm
  · cases h

theorem isNeighbour_hostNum_iff {r : Router} {j : HostIndex} : r.IsNeighbour (hostNum j) ↔ r.neighbors j = 1 := by
  simp [Router.IsNeighbour]

/-- What `hostreachable` says of a route. -/
theorem hostreachable_hostNum (r : Router) (d : HostIndex) :
    r.hostreachable (hostNum d) =
      if (r.routes d).gateway ≠ infiniteRoute then r.hopOf (hostNum d) (r.routes d).gateway else 0 := by
  simp only [Router.hostreachable, hostIndex_hostNum, Router.hopOf]

/-- The condition on the entry for `d`. -/
def EntryUsesLink (r : Router) (d : HostIndex) : Prop :=
  hostNum d ≠ r.num → (r.routes d).gateway ≠ infiniteRoute → r.IsNeighbour (r.hopOf (hostNum d) (r.routes d).gateway)

theorem usesLinks_iff {r : Router} : r.UsesLinks ↔ ∀ d, EntryUsesLink r d := by
  refine forall_congr' fun d => forall_congr' fun _ => ?_
  rw [hostreachable_hostNum]
  by_cases hgateway : (r.routes d).gateway ≠ infiniteRoute
  · have hhop : r.hopOf (hostNum d) (r.routes d).gateway ≠ 0 := by
      unfold Router.hopOf
      split
      · exact Nat.ne_of_gt (hostNum_pos d)
      · exact hgateway
    simp only [if_pos hgateway]
    exact ⟨fun h _ => h hhop, fun h _ => h hgateway⟩
  · simp only [if_neg hgateway]
    exact ⟨fun _ h => absurd h hgateway, fun _ h => absurd rfl h⟩

/-- An entry that is untouched stays right when the neighbours it may go through do. -/
theorem EntryUsesLink.congr {r r' : Router} {d : HostIndex} (h : EntryUsesLink r d) (hnum : r'.num = r.num)
    (hroute : r'.routes d = r.routes d)
    (hneighbours : ∀ j, hostNum j = r.hopOf (hostNum d) (r.routes d).gateway → r.neighbors j = 1 → r'.neighbors j = 1) :
    EntryUsesLink r' d := by
  unfold EntryUsesLink Router.hopOf at *
  rw [hnum, hroute]
  intro hne hgateway
  obtain ⟨j, hj, hone⟩ := h hne hgateway
  exact ⟨j, hj, hneighbours j (hostIndex_eq_some_iff.1 hj).symm hone⟩

/-- `internalsendroute` fills in routes to neighbours. -/
theorem usesLinks_startRoutes {r : Router} (h : r.UsesLinks) : r.startRoutes.UsesLinks := by
  rw [usesLinks_iff] at *
  intro d
  by_cases hfill : r.neighbors d = 1 ∨ hostNum d = r.num
  · have hroute : (r.startRoutes.routes d).gateway = r.num := by simp only [Router.startRoutes, if_pos hfill]
    intro hne _
    have hhop : r.startRoutes.hopOf (hostNum d) (r.startRoutes.routes d).gateway = hostNum d := if_pos hroute
    rw [hhop, isNeighbour_hostNum_iff]
    exact hfill.resolve_right hne
  · have hroute : r.startRoutes.routes d = r.routes d := by simp only [Router.startRoutes, if_neg hfill]
    exact (h d).congr rfl hroute fun _ _ hj => hj

/-- `enable_route` puts in a route to the host that becomes a neighbour. -/
theorem usesLinks_enableRoute {r : Router} (h : r.UsesLinks) (host : HostIndex) : (r.enableRoute host).UsesLinks := by
  rw [usesLinks_iff] at *
  have hneighbours : ∀ j, r.neighbors j = 1 → (r.enableRoute host).neighbors j = 1 := by
    intro j hj
    by_cases hjh : j = host
    · simp [Router.enableRoute, hjh]
    · simp [Router.enableRoute, hjh, hj]
  intro d
  by_cases hd : d = host
  · subst hd
    intro _ _
    have hhop : (r.enableRoute d).hopOf (hostNum d) ((r.enableRoute d).routes d).gateway = hostNum d := by
      simp [Router.enableRoute, Router.setRoute, Router.hopOf]
    rw [hhop, isNeighbour_hostNum_iff]
    simp [Router.enableRoute]
  · have hroute : (r.enableRoute host).routes d = r.routes d := by simp [Router.enableRoute, Router.setRoute, hd]
    exact (h d).congr rfl hroute fun j _ hj => hneighbours j hj

/-- `disable_route` leaves no route through the host. -/
theorem usesLinks_disableRoute {r : Router} (h : r.UsesLinks) (host : HostIndex) : (r.disableRoute host).UsesLinks := by
  rw [usesLinks_iff] at *
  intro d hne hgateway
  have hkept : d ≠ host ∧ (r.routes d).gateway ≠ hostNum host := by
    refine ⟨?_, ?_⟩
    · intro hd
      refine hgateway ?_
      simp only [Router.disableRoute, Router.setRoute, hd, Function.update_self]
      split <;> rfl
    · intro hd
      refine hgateway ?_
      by_cases hdh : d = host
      · simp only [Router.disableRoute, Router.setRoute, hdh, Function.update_self]
        split <;> rfl
      · simp only [Router.disableRoute, Router.setRoute, Function.update_of_ne hdh, if_pos hd]
  have hroute : (r.disableRoute host).routes d = r.routes d := by
    simp only [Router.disableRoute, Router.setRoute, Function.update_of_ne hkept.1, if_neg hkept.2]
  suffices hentry : EntryUsesLink (r.disableRoute host) d from hentry hne hgateway
  refine (h d).congr rfl hroute ?_
  intro j hhop hj
  have hjh : j ≠ host := by
    intro hjh
    subst hjh
    unfold Router.hopOf at hhop
    split at hhop
    · exact hkept.1 (hostNum_injective hhop).symm
    · exact hkept.2 hhop.symm
  simpa [Router.disableRoute, Router.setRoute, hjh] using hj

/-- A message that is handled leaves routes to neighbours exactly when it comes from one, or is not taken. -/
theorem usesLinks_handle_iff {s s' : RouteNode} {msg : RouteTable} (h : s.router.UsesLinks)
    (hs : s.step (.handle msg) = some s') : s'.router.UsesLinks ↔ TakesNeighbour s (.handle msg) := by
  obtain ⟨r, hr, rfl⟩ := Option.map_eq_some_iff.1 hs
  obtain ⟨i, hi, rfl⟩ := Option.map_eq_some_iff.1 hr
  have hdest := hostIndex_eq_some_iff.1 hi
  unfold TakesNeighbour
  by_cases hbetter : (s.router.routes i).cost = infiniteRoute ∨ msg.cost < (s.router.routes i).cost
  · have hself : (s.router.setRoute i msg.cost msg.gateway).routes i =
        { s.router.routes i with cost := msg.cost, gateway := msg.gateway } := by simp [Router.setRoute]
    have hother : ∀ d, d ≠ i → (s.router.setRoute i msg.cost msg.gateway).routes d = s.router.routes d := by
      intro d hd
      simp [Router.setRoute, hd]
    simp only [if_pos hbetter, usesLinks_iff]
    rw [usesLinks_iff] at h
    constructor
    · intro hall j hj _ hne hgateway
      obtain rfl : i = j := Option.some.inj (hi.symm.trans hj)
      have hentry := hall i
      unfold EntryUsesLink at hentry
      rw [hself] at hentry
      rw [hdest]
      exact hentry hne hgateway
    · intro hok d
      by_cases hd : d = i
      · subst hd
        have hentry := hok d hi hbetter
        unfold EntryUsesLink
        rw [hself]
        rw [hdest] at hentry
        exact hentry
      · exact (h d).congr rfl (hother d hd) fun _ _ hj => hj
  · rw [if_neg hbetter]
    refine iff_of_true h ?_
    intro j hj htaken
    obtain rfl : i = j := Option.some.inj (hi.symm.trans hj)
    exact absurd htaken hbetter

theorem usesLinks_step_iff {s s' : RouteNode} {a : RouteEvent} (h : s.router.UsesLinks) (hs : s.step a = some s') :
    s'.router.UsesLinks ↔ TakesNeighbour s a := by
  cases a with
  | start =>
    simp only [RouteNode.step] at hs
    split at hs
    · cases hs
    · cases hs
      exact iff_of_true (usesLinks_startRoutes h) trivial
  | enableRoute host =>
    cases hs
    exact iff_of_true (usesLinks_enableRoute h host) trivial
  | disableRoute host =>
    cases hs
    exact iff_of_true (usesLinks_disableRoute h host) trivial
  | handle msg => exact usesLinks_handle_iff h hs

theorem usesLinks_init (n : HostIndex) (way : HostIndex → Int) : (RouteNode.init n way).router.UsesLinks := by
  rw [usesLinks_iff]
  exact fun d _ hgateway => absurd rfl hgateway

end NeighbourAux

open NeighbourAux in
/-- For every node and every run from the start: each next hop is a neighbour whose link is enabled, in every state, exactly when
every route that is taken from a message goes through such a neighbour when it is taken. -/
theorem routes_use_links_iff (n : HostIndex) (way : HostIndex → Int) {as : List RouteEvent} {s : RouteNode}
    (hrun : exec RouteNode.step (RouteNode.init n way) as = some s) :
    (∀ bs, bs <+: as → ∀ t, exec RouteNode.step (RouteNode.init n way) bs = some t → t.router.UsesLinks) ↔
      Along RouteNode.step TakesNeighbour (RouteNode.init n way) as := by
  let good : RouteNode → Prop := fun t => t.router.UsesLinks
  have h0 : good (RouteNode.init n way) := usesLinks_init n way
  have hstep : ∀ s a s', good s → RouteNode.step s a = some s' → (good s' ↔ TakesNeighbour s a) :=
    fun _ _ _ h hs => usesLinks_step_iff h hs
  exact along_iff h0 hstep hrun

/-- Host 1 with a link to host 2. -/
def oneWay : HostIndex → Int := fun i => if i.val = 1 then 576 else -1

/-- Host 2 advertises a route to host 3, and the link is disabled and enabled again. -/
def relinkRun : List RouteEvent := [.start, .handle ⟨3, 2, 2⟩, .disableRoute 1, .enableRoute 1]

theorem relink_uses_links :
    ∃ s, exec RouteNode.step (RouteNode.init 0 oneWay) relinkRun = some s ∧
      ∀ bs, bs <+: relinkRun → ∀ t, exec RouteNode.step (RouteNode.init 0 oneWay) bs = some t → t.router.UsesLinks :=
  ⟨_, rfl, (routes_use_links_iff 0 oneWay rfl).2 (by decide)⟩

/-- The message of host 2 arrives when its link is disabled, and host 3 is then reached through host 2. -/
theorem route_through_disabled_link :
    ∃ s, exec RouteNode.step (RouteNode.init 0 oneWay) [.start, .disableRoute 1, .handle ⟨3, 2, 2⟩] = some s ∧
      s.router.hostreachable 3 = hostNum 1 ∧ s.router.neighbors 1 = 0 ∧ ¬s.router.UsesLinks := by
  refine ⟨_, rfl, by decide, by decide, ?_⟩
  intro h
  exact absurd (h 2 (by decide) (by decide)) (by decide)

end NetworkLayers
