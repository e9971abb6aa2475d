import NetworkLayers.Theorems.Convergence
import NetworkLayers.Theorems.Neighbours
import NetworkLayers.Theorems.Ttl

/-!
# Datagrams on a fixed topology

While no link is switched, costs only go down, and so a datagram has less to go at every node than it had at the one before,
whatever the nodes have learnt in between. No node drops a datagram on its way for want of a route, and `ttl`, which no node looks
at, never comes to 0: the hosts are as many as its initial value.
-/

namespace NetworkLayers

open Transition RoutingAux

/-- The step switches no link. -/
def KeepsLinks : ForwardAction → Prop
  | .disableRoute .. | .enableRoute .. => False
  | _ => True

instance KeepsLinks.decidable : ∀ a, Decidable (KeepsLinks a)
  | .disableRoute .. | .enableRoute .. => inferInstanceAs (Decidable False)
  | .route _ | .netSend .. | .internalsend _ | .internalrecv _ => inferInstanceAs (Decidable True)

namespace FixedLinksAux

variable {way : HostIndex → HostIndex → Int} {s s' : ForwardNet} {r r' : RouteNet}

/-! ## Routes and their gateways -/

/-- A route that is not known has no gateway. -/
def NoGateway (r : RouteNet) : Prop := ∀ n d, r.cost n d = 0 → ((r.routers n).routes d).gateway = infiniteRoute

theorem noGateway_of_router (h : NoGateway r) {n : HostIndex} {router : Router}
    (hrouter : ∀ d, router.routes d = (r.routers n).routes d ∨ (router.routes d).cost ≠ 0) : NoGateway (r.setRouter n router) := by
  intro m d hc
  by_cases hm : m = n
  · subst hm
    rw [ConvergenceAux.cost_setRouter_self] at hc
    rcases hrouter d with heq | hne
    · simp only [RouteNet.setRouter, Function.update_self, heq]
      exact h m d (by rw [RouteNet.cost, ← heq, hc])
    · exact absurd hc hne
  · rw [ConvergenceAux.cost_setRouter_of_ne hm] at hc
    simp only [RouteNet.setRouter, Function.update_of_ne hm]
    exact h m d hc

theorem noGateway_step (hsound : Sound way r) (h : NoGateway r) {a : RouteAction} (hs : r.step a = some r') : NoGateway r' := by
  cases a with
  | start n =>
    simp only [RouteNet.step] at hs
    split at hs
    · cases hs
    · obtain rfl := Option.some.inj hs
      refine noGateway_of_router (r := r) h fun d => ?_
      simp only [Router.startRoutes]
      split
      · exact Or.inr Nat.one_ne_zero
      · exact Or.inl rfl
  | advertise n neighbor dest =>
    simp only [RouteNet.step] at hs
    split at hs
    · obtain ⟨msg, -, rfl⟩ := Option.map_eq_some_iff.1 hs
      exact h
    · cases hs
  | handle n msg =>
    simp only [RouteNet.step] at hs
    split at hs
    · rename_i hmem
      obtain ⟨router, hrouter, rfl⟩ := Option.map_eq_some_iff.1 hs
      obtain ⟨g, d, -, hd, -, h0, hlt, -⟩ := hsound.advert n msg hmem
      simp only [Router.internalhandleroute, hd, hostIndex_hostNum, Option.map_some, Option.some.injEq] at hrouter
      refine noGateway_of_router h fun e => ?_
      subst hrouter
      split
      · by_cases he : e = d
        · subst he
          refine Or.inr ?_
          simp only [Router.setRoute, Function.update_self]
          omega
        · exact Or.inl (Function.update_of_ne he ..)
      · exact Or.inl rfl
    · cases hs

/-- Where `hostreachable` names a next hop, it is the destination or knows a cheaper route. -/
theorem exists_of_hostreachable (hsound : Sound way r) (hgate : NoGateway r) {n : HostIndex} {dest : Nat}
    (h : (r.routers n).hostreachable dest ≠ 0) :
    ∃ d g, dest = hostNum d ∧ (r.routers n).hostreachable dest = hostNum g ∧ r.cost n d ≠ 0 ∧
      (g = d ∨ r.cost g d ≠ 0 ∧ r.cost g d < r.cost n d) := by
  cases hd : hostIndex dest with
  | none => exact absurd (by simp [Router.hostreachable, hd]) h
  | some d =>
    obtain rfl := NeighbourAux.hostIndex_eq_some_iff.1 hd
    rw [NeighbourAux.hostreachable_hostNum] at h ⊢
    by_cases hg : ((r.routers n).routes d).gateway ≠ infiniteRoute
    · have hc : r.cost n d ≠ 0 := fun hc => hg (hgate n d hc)
      rw [if_pos hg, Router.hopOf, hsound.num]
      rcases (hsound.entry n d hc).gateway with ⟨hself, -⟩ | ⟨g, hg', -, h0, hlt⟩
      · exact ⟨d, d, rfl, by rw [if_pos hself], hc, Or.inl rfl⟩
      · have hgn : hostNum g ≠ hostNum n := by
          intro he
          rw [hostNum_injective he] at hlt
          exact absurd hlt (Nat.lt_irrefl _)
        exact ⟨d, g, rfl, by rw [hg', if_neg hgn], hc, Or.inr ⟨h0, hlt⟩⟩
    · rw [if_neg hg] at h
      exact absurd rfl h

/-! ## What is left of the way -/

/-- From `g` on to `d`, after `k` links: `d` is reached or known there, and with what is left there are no more links than hosts. -/
def Ahead (r : RouteNet) (g d : HostIndex) (k : Nat) : Prop :=
  g = d ∧ k ≤ maxHosts ∨ r.cost g d ≠ 0 ∧ k + r.cost g d ≤ maxHosts

theorem Ahead.mono (himp : Improves r r') {g d : HostIndex} {k : Nat} (h : Ahead r g d k) : Ahead r' g d k := by
  rcases h with hhere | ⟨h0, hk⟩
  · exact Or.inl hhere
  · obtain ⟨h0', hle⟩ := himp g d h0
    exact Or.inr ⟨h0', by omega⟩

/-- The next hop has one link less left. -/
theorem Ahead.next {n g d : HostIndex} {k : Nat} (hc : r.cost n d ≠ 0) (hk : k + r.cost n d ≤ maxHosts)
    (hg : g = d ∨ r.cost g d ≠ 0 ∧ r.cost g d < r.cost n d) : Ahead r g d (k + 1) := by
  rcases hg with rfl | ⟨h0, hlt⟩
  · exact Or.inl ⟨rfl, by omega⟩
  · exact Or.inr ⟨h0, by omega⟩

/-- The routes are sound, and every item and every frame goes to a host that is ahead. -/
structure OnTheWay (way : HostIndex → HostIndex → Int) (s : ForwardNet) : Prop where
  sound : Sound way s.routes
  noGateway : NoGateway s.routes
  bounded : TtlBounded s
  queued : ∀ n, ∀ q ∈ s.queues n, ∀ g, hostIndex q.item.firstDestLink = some g →
    ∃ d, q.item.dest = hostNum d ∧ Ahead s.routes g d (q.links + 1)
  sent : ∀ f ∈ s.frames, ∃ d, f.datagram.dest = hostNum d ∧ Ahead s.routes f.dest d f.links

/-- A datagram on its way is somewhere it can go on from, and has `ttl` left. -/
theorem OnTheWay.goesOn (h : OnTheWay way s) {f : Frame} (hf : f ∈ s.frames)
    (hdest : f.datagram.dest ≠ (s.routes.routers f.dest).num) :
    ∃ d, f.datagram.dest = hostNum d ∧ s.routes.cost f.dest d ≠ 0 ∧ f.links + s.routes.cost f.dest d ≤ maxHosts := by
  obtain ⟨d, hd, ⟨rfl, -⟩ | hahead⟩ := h.sent f hf
  · exact absurd (hd.trans (h.sound.num f.dest).symm) hdest
  · exact ⟨d, hd, hahead⟩

theorem OnTheWay.forwardsAlive (h : OnTheWay way s) (a : ForwardAction) (hs : s.step a = some s') : ForwardsAlive s a := by
  cases a with
  | internalrecv f =>
    intro hdest _
    have hmem : f ∈ s.frames := by
      by_contra hmem
      rw [ForwardNet.step, if_neg hmem] at hs
      cases hs
    obtain ⟨d, -, h0, hle⟩ := h.goesOn hmem hdest
    obtain ⟨-, httl, -⟩ := h.bounded.sent f hmem
    unfold maxHosts at hle
    unfold ttlInit at httl
    omega
  | _ => trivial

/-- A new item that goes to a host ahead. -/
theorem OnTheWay.insert (h : OnTheWay way s) {n : HostIndex} {q : Queued} (hs : s.insert n q = some s') (hbounded : TtlBounded s')
    (hq : ∀ g, hostIndex q.item.firstDestLink = some g → ∃ d, q.item.dest = hostNum d ∧ Ahead s.routes g d (q.links + 1)) :
    OnTheWay way s' := by
  unfold ForwardNet.insert at hs
  split at hs
  · obtain rfl := Option.some.inj hs
    refine ⟨h.sound, h.noGateway, hbounded, ?_, h.sent⟩
    intro m p hp
    by_cases hm : m = n
    · subst hm
      simp only [Function.update_self, List.mem_append, List.mem_singleton] at hp
      rcases hp with hp | rfl
      · exact h.queued m p hp
      · exact hq
    · simp only [Function.update_of_ne hm] at hp
      exact h.queued m p hp
  · cases hs

/-- What goes to the next hop of a route goes to a host ahead. -/
theorem OnTheWay.ahead (h : OnTheWay way s) {n : HostIndex} {dest k : Nat} (hreach : (s.routes.routers n).hostreachable dest ≠ 0)
    (hk : ∀ d, dest = hostNum d → k + s.routes.cost n d ≤ maxHosts) :
    ∀ g, hostIndex ((s.routes.routers n).hostreachable dest) = some g → ∃ d, dest = hostNum d ∧ Ahead s.routes g d (k + 1) := by
  intro g hg
  obtain ⟨d, g', hd, hnext, hc, hcheaper⟩ := exists_of_hostreachable h.sound h.noGateway hreach
  rw [hnext, hostIndex_hostNum, Option.some.injEq] at hg
  subst hg
  exact ⟨d, hd, Ahead.next hc (hk d hd) hcheaper⟩

theorem onTheWay_step (hsymm : ∀ i j, Linked way i j → Linked way j i) (h : OnTheWay way s) {a : ForwardAction}
    (hok : KeepsLinks a) (hs : s.step a = some s') : OnTheWay way s' := by
  have hbounded : TtlBounded s' := (ttlBounded_step_iff h.bounded hs).2 (h.forwardsAlive a hs)
  cases a with
  | route a =>
    obtain ⟨routes, hroutes, rfl⟩ := Option.map_eq_some_iff.1 hs
    have himp : Improves s.routes routes := ConvergenceAux.improves_step h.sound hroutes
    refine ⟨?_, noGateway_step h.sound h.noGateway hroutes, hbounded, ?_, ?_⟩
    · cases a with
      | start n => exact sound_start h.sound hroutes
      | advertise n m d => exact sound_advertise h.sound hroutes
      | handle n msg => exact sound_handle hsymm h.sound hroutes
    · intro n q hq g hg
      obtain ⟨d, hd, hahead⟩ := h.queued n q hq g hg
      exact ⟨d, hd, hahead.mono himp⟩
    · intro f hf
      obtain ⟨d, hd, hahead⟩ := h.sent f hf
      exact ⟨d, hd, hahead.mono himp⟩
  | disableRoute n host => exact hok.elim
  | enableRoute n host => exact hok.elim
  | netSend n dest data protocol =>
    simp only [ForwardNet.step] at hs
    split at hs
    · obtain rfl := Option.some.inj hs
      exact h
    · rename_i item hitem
      refine h.insert hs hbounded ?_
      simp only [Router.netSend] at hitem
      by_cases hproto : protocol = 0
      · -- a message for a neighbour goes to it directly
        rw [if_pos hproto] at hitem
        split at hitem
        · obtain rfl := Option.some.inj hitem
          intro g hg
          exact ⟨g, NeighbourAux.hostIndex_eq_some_iff.1 hg, Or.inl ⟨rfl, (by decide : 0 + 1 ≤ maxHosts)⟩⟩
        · cases hitem
      · rw [if_neg hproto] at hitem
        split at hitem
        · rename_i hnode
          obtain rfl := Option.some.inj hitem
          refine h.ahead (k := 0) hnode fun d _ => ?_
          rw [Nat.zero_add]
          exact Nat.le_trans (h.sound.bound n d) (reached_le _ _)
        · cases hitem
  | internalsend n =>
    simp only [ForwardNet.step] at hs
    split at hs
    · cases hs
    · rename_i q queue hqueue
      obtain ⟨⟨ds, c⟩, hsend, rfl⟩ := Option.map_eq_some_iff.1 hs
      have hmem : q ∈ s.queues n := by rw [hqueue]; exact List.mem_cons_self
      refine ⟨h.sound, h.noGateway, hbounded, ?_, ?_⟩
      · intro m p hp
        by_cases hm : m = n
        · subst hm
          simp only [Function.update_self] at hp
          exact h.queued m p (by rw [hqueue]; exact List.mem_cons_of_mem _ hp)
        · simp only [Function.update_of_ne hm] at hp
          exact h.queued m p hp
      · intro f hf
        rcases List.mem_append.1 hf with hf | hf
        · exact h.sent f hf
        · -- a frame of the item goes to the item's first link
          unfold ForwardNet.framesOf at hf
          split at hf
          · cases hf
          · rename_i g hg
            obtain ⟨d, hd, hahead⟩ := h.queued n q hmem g hg
            obtain ⟨x, hx, rfl⟩ := List.mem_map.1 hf
            exact ⟨d, (internalsend_fields hsend x (List.mem_of_mem_filter hx)).2.2.1.trans hd, hahead⟩
  | internalrecv f =>
    simp only [ForwardNet.step] at hs
    split at hs
    · rename_i hmem
      split at hs
      · obtain rfl := Option.some.inj hs
        exact h
      · rename_i hdest
        obtain ⟨d, hd, h0, hle⟩ := h.goesOn hmem hdest
        split at hs
        · obtain rfl := Option.some.inj hs
          exact h
        · rename_i item hitem
          refine h.insert hs hbounded ?_
          simp only [Router.netResend] at hitem
          split at hitem
          · rename_i hreach
            obtain rfl := Option.some.inj hitem
            refine h.ahead hreach fun e he => ?_
            obtain rfl : d = e := hostNum_injective (hd.symm.trans he)
            exact hle
          · cases hitem
    · cases hs

theorem onTheWay_init (way : HostIndex → HostIndex → Int) : OnTheWay way (ForwardNet.init way) where
  sound := sound_init way
  noGateway _ _ _ := rfl
  bounded := ⟨fun _ _ hq => (List.not_mem_nil hq).elim, fun _ hf => (List.not_mem_nil hf).elim⟩
  queued := by intro n q hq; cases hq
  sent := by intro f hf; cases hf

/-- A known route has a next hop. -/
theorem hostreachable_ne_zero (hsound : Sound way r) {n d : HostIndex} (hc : r.cost n d ≠ 0) :
    (r.routers n).hostreachable (hostNum d) ≠ 0 := by
  have hpos : ∀ i : HostIndex, hostNum i ≠ infiniteRoute := fun i => Nat.ne_of_gt (hostNum_pos i)
  rw [NeighbourAux.hostreachable_hostNum, Router.hopOf]
  rcases (hsound.entry n d hc).gateway with ⟨hg, -⟩ | ⟨g, hg, -⟩
  · rw [hg, if_pos (hpos n), hsound.num, if_pos rfl]
    exact hpos d
  · rw [hg, if_pos (hpos g)]
    split
    · exact hpos d
    · exact hpos g

end FixedLinksAux

open FixedLinksAux in
/-- On every fixed symmetric topology, in every run that switches no link, whatever the nodes learn in between: `ttl` counts the links
that are left and never comes to 0, and a node that gets a datagram for another host always has a route for it. -/
theorem transit_never_dropped {way : HostIndex → HostIndex → Int} (hsymm : ∀ i j, Linked way i j → Linked way j i)
    {s : ForwardNet} (h : Reach ForwardNet.step (fun _ a => KeepsLinks a) (ForwardNet.init way) s) :
    TtlBounded s ∧ ∀ f ∈ s.frames, f.datagram.dest ≠ (s.routes.routers f.dest).num →
      (s.routes.routers f.dest).hostreachable f.datagram.dest ≠ 0 ∧ 2 ≤ f.datagram.ttl := by
  have hway : OnTheWay way s := h.invariant (onTheWay_init way) fun _ _ _ hinv hok hs => onTheWay_step hsymm hinv hok hs
  refine ⟨hway.bounded, fun f hf hdest => ?_⟩
  obtain ⟨d, hd, h0, hle⟩ := hway.goesOn hf hdest
  obtain ⟨-, httl, -⟩ := hway.bounded.sent f hf
  refine ⟨by rw [hd]; exact hostreachable_ne_zero hway.sound h0, ?_⟩
  unfold maxHosts at hle
  unfold ttlInit at httl
  omega

/-- A byte of host 1 for host 3 is with host 2, which has a route for it. -/
theorem byte_in_transit_goes_on :
    ∃ s, exec ForwardNet.step (ForwardNet.init threeWay) sendRun = some s ∧ s.frames = [byteFrame 1] ∧
      (s.routes.routers 1).hostreachable 3 ≠ 0 ∧ 2 ≤ (byteFrame 1).datagram.ttl := by
  have hsymm : ∀ i j, Linked threeWay i j → Linked threeWay j i := by
    unfold Linked threeWay
    decide
  obtain ⟨s, hs, hframes, hnum⟩ : ∃ s ∈ exec ForwardNet.step (ForwardNet.init threeWay) sendRun,
      s.frames = [byteFrame 1] ∧ (s.routes.routers 1).num = 2 := by decide
  have hreach : Reach ForwardNet.step (fun _ a => KeepsLinks a) (ForwardNet.init threeWay) s :=
    reach_of_exec (along_of_forall (by decide)) hs
  have hgo := (transit_never_dropped hsymm hreach).2 (byteFrame 1) (by rw [hframes]; exact List.mem_cons_self)
    (by rw [show (byteFrame 1).dest = 1 from rfl, hnum]; decide)
  exact ⟨s, hs, hframes, hgo.1, hgo.2⟩

end NetworkLayers
