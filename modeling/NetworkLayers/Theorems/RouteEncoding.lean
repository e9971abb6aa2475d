import NetworkLayers.Net.RouteSwitch
import Mathlib.Data.List.Forall2

/-!
# The two encodings of no route

An entry says that there is no route by its cost and by its gateway. The updater and the sender look at the cost, `hostreachable` at
the gateway. The two agree as long as no cost runs over: a message about a route that costs 255 carries the cost 0, and what takes it
has a gateway and no cost. Two neighbours that disable and enable the link between them drive a route that is gone up to there.
-/

namespace NetworkLayers

open Transition

namespace RouteEncodingAux

variable {s s' : SwitchNet} {a : SwitchAction}

/-! ## What a step can do -/

/-- What a step can make of the router of a node. -/
inductive Changes (s : SwitchNet) (n : HostIndex) : Router → Prop where
  | start : Changes s n (s.net.routers n).startRoutes
  | enable (host : HostIndex) : Changes s n ((s.net.routers n).enableRoute host)
  | disable (host : HostIndex) : Changes s n ((s.net.routers n).disableRoute host)
  | handle (msg : RouteTable) (r : Router) : (n, msg) ∈ s.net.wire → (s.net.routers n).internalhandleroute msg = some r →
      Changes s n r

/-- A step changes the router of a node, or the neighbour `internalsendroute` is at, or it sends a message. -/
theorem step_cases (hs : s.step a = some s') :
    (∃ n r, Changes s n r ∧ s'.net.routers = Function.update s.net.routers n r ∧ s'.net.wire = s.net.wire ∧
        s'.held = s.held ∧ s.BelowMaxCost a) ∨
      (s'.net = s.net ∧ s'.held = s.held ∧ s.BelowMaxCost a) ∨
      ∃ n d current, a = .advertise n d ∧ (s.route n d).cost ≠ 0 ∧ s'.net.routers = s.net.routers ∧
        s'.net.wire = (current, ⟨(s.route n d).dest, u8 ((s.route n d).cost + 1), (s.net.routers n).num⟩) :: s.net.wire ∧
        s'.held = (s.route n d).cost :: s.held := by
  cases a with
  | start n =>
    obtain ⟨net, hnet, rfl⟩ := Option.map_eq_some_iff.1 hs
    simp only [RouteNet.step] at hnet
    split at hnet
    · cases hnet
    · obtain rfl := Option.some.inj hnet
      exact Or.inl ⟨n, _, .start, rfl, rfl, rfl, trivial⟩
  | neighbor n current =>
    simp only [SwitchNet.step] at hs
    split at hs
    · obtain rfl := Option.some.inj hs
      exact Or.inr (Or.inl ⟨rfl, rfl, trivial⟩)
    · cases hs
  | advertise n d =>
    simp only [SwitchNet.step] at hs
    split at hs
    · cases hs
    · rename_i current _
      obtain ⟨msg, hmsg, rfl⟩ := Option.map_eq_some_iff.1 hs
      unfold Router.advertise at hmsg
      split at hmsg
      · rename_i hcost
        obtain rfl := Option.some.inj hmsg
        exact Or.inr (Or.inr ⟨n, d, current, rfl, hcost, rfl, rfl, rfl⟩)
      · cases hmsg
  | handle n msg =>
    obtain ⟨net, hnet, rfl⟩ := Option.map_eq_some_iff.1 hs
    simp only [RouteNet.step] at hnet
    split at hnet
    · rename_i hmem
      obtain ⟨r, hr, rfl⟩ := Option.map_eq_some_iff.1 hnet
      exact Or.inl ⟨n, r, .handle msg r hmem hr, rfl, rfl, rfl, trivial⟩
    · cases hnet
  | enableRoute n host =>
    obtain rfl := Option.some.inj hs
    exact Or.inl ⟨n, _, .enable host, rfl, rfl, rfl, trivial⟩
  | disableRoute n host =>
    obtain rfl := Option.some.inj hs
    exact Or.inl ⟨n, _, .disable host, rfl, rfl, rfl, trivial⟩

/-- Costs and gateways that an entry may have: those of no route, those of a route to a neighbour, and those of the messages on the
wire. -/
structure Allows (s : SwitchNet) (P : Nat → Nat → Prop) : Prop where
  none : P infiniteRoute infiniteRoute
  neighbour : ∀ gateway, gateway ≠ infiniteRoute → P 1 gateway
  received : ∀ m ∈ s.net.wire, P m.2.cost m.2.gateway

/-- A step leaves the number of the node, and in each entry a cost and a gateway that are allowed. -/
theorem Changes.spec {n : HostIndex} {r : Router} {P : Nat → Nat → Prop} (h : Changes s n r) (hP : Allows s P)
    (hnum : (s.net.routers n).num ≠ infiniteRoute) (hroutes : ∀ d, P (s.route n d).cost (s.route n d).gateway) :
    r.num = (s.net.routers n).num ∧ ∀ d, P (r.routes d).cost (r.routes d).gateway := by
  have hset : ∀ (host d : HostIndex) (cost gateway : Nat), P cost gateway →
      P (((s.net.routers n).setRoute host cost gateway).routes d).cost
        (((s.net.routers n).setRoute host cost gateway).routes d).gateway := by
    intro host d cost gateway hnew
    simp only [Router.setRoute]
    by_cases hd : d = host
    · subst hd
      rw [Function.update_self]
      exact hnew
    · rw [Function.update_of_ne hd]
      exact hroutes d
  cases h with
  | start =>
    refine ⟨rfl, fun d => ?_⟩
    simp only [Router.startRoutes]
    split
    · exact hP.neighbour _ hnum
    · exact hroutes d
  | enable host => exact ⟨rfl, fun d => hset host d 1 (hostNum host) (hP.neighbour _ (Nat.ne_of_gt (hostNum_pos host)))⟩
  | disable host =>
    refine ⟨rfl, fun d => ?_⟩
    simp only [Router.disableRoute]
    split
    · exact hP.none
    · exact hset host d infiniteRoute infiniteRoute hP.none
  | handle msg r hmem hr =>
    unfold Router.internalhandleroute at hr
    obtain ⟨i, -, rfl⟩ := Option.map_eq_some_iff.1 hr
    split
    · exact ⟨rfl, fun d => hset i d msg.cost msg.gateway (hP.received _ hmem)⟩
    · exact ⟨rfl, hroutes⟩

/-- The numbers of the nodes, and the entries of their tables, over a step. -/
theorem routes_step {P : Nat → Nat → Prop} (hP : Allows s P) (hnum : ∀ n, (s.net.routers n).num ≠ infiniteRoute)
    (hroutes : ∀ n d, P (s.route n d).cost (s.route n d).gateway) (hs : s.step a = some s') :
    (∀ n, (s'.net.routers n).num ≠ infiniteRoute) ∧ ∀ n d, P (s'.route n d).cost (s'.route n d).gateway := by
  rcases step_cases hs with ⟨n, r, hr, hrouters, -⟩ | ⟨hnet, -⟩ | ⟨n, d, current, -, -, hrouters, -⟩
  · obtain ⟨hnum', hroutes'⟩ := hr.spec hP (hnum n) (hroutes n)
    refine ⟨fun m => ?_, fun m d => ?_⟩
    · rw [hrouters]
      by_cases hm : m = n
      · subst hm
        rw [Function.update_self, hnum']
        exact hnum m
      · rw [Function.update_of_ne hm]
        exact hnum m
    · unfold SwitchNet.route
      rw [hrouters]
      by_cases hm : m = n
      · subst hm
        rw [Function.update_self]
        exact hroutes' d
      · rw [Function.update_of_ne hm]
        exact hroutes m d
  · unfold SwitchNet.route
    rw [hnet]
    exact ⟨hnum, hroutes⟩
  · unfold SwitchNet.route
    rw [hrouters]
    exact ⟨hnum, hroutes⟩

/-! ## What is true of every run -/

/-- The numbers are within the fields that hold them, and those of hosts are not 0. -/
structure Ranged (s : SwitchNet) : Prop where
  num : ∀ n, (s.net.routers n).num ≠ infiniteRoute
  cost : ∀ n d, (s.route n d).cost ≤ maxCost
  wire : ∀ m ∈ s.net.wire, m.2.cost ≤ maxCost ∧ m.2.gateway ≠ infiniteRoute

theorem ranged_init (way : HostIndex → HostIndex → Int) : Ranged (SwitchNet.init way) where
  num n := Nat.ne_of_gt (hostNum_pos n)
  cost _ _ := Nat.zero_le _
  wire _ hm := by cases hm

theorem ranged_step (h : Ranged s) (hs : s.step a = some s') : Ranged s' := by
  have hP : Allows s fun cost _ => cost ≤ maxCost :=
    ⟨Nat.zero_le _, fun _ _ => (by decide : 1 ≤ maxCost), fun m hm => (h.wire m hm).1⟩
  obtain ⟨hnum, hcost⟩ := routes_step hP h.num h.cost hs
  refine ⟨hnum, hcost, ?_⟩
  rcases step_cases hs with ⟨n, r, -, -, hwire, -⟩ | ⟨hnet, -⟩ | ⟨n, d, current, -, -, -, hwire, -⟩
  · rw [hwire]
    exact h.wire
  · rw [hnet]
    exact h.wire
  · rw [hwire]
    refine List.forall_mem_cons.2 ⟨⟨?_, h.num n⟩, h.wire⟩
    exact Nat.le_of_lt_succ (Nat.mod_lt _ (by decide : 0 < 256))

/-- A message on the wire that stands beside the cost its sender held. -/
theorem cost_ne_of_inFlight {wire : List (HostIndex × RouteTable)} {held : List Nat}
    (h : List.Forall₂ (fun m k => m.2.cost = k + 1 ∧ m.2.cost ≠ infiniteRoute) wire held) :
    ∀ m ∈ wire, m.2.cost ≠ infiniteRoute := by
  induction h with
  | nil => simp
  | cons hfirst _ ih => exact List.forall_mem_cons.2 ⟨hfirst.2, ih⟩

/-- A step keeps the encodings in agreement exactly when it does not advertise a route whose cost is 255. -/
theorem encodingsAgree_step_iff (h : s.EncodingsAgree) (hr : Ranged s) (hs : s.step a = some s') :
    s'.EncodingsAgree ↔ s.BelowMaxCost a := by
  have hP : Allows s fun cost gateway => (RouteTable.mk 0 cost gateway).Consistent := by
    refine ⟨iff_of_true rfl rfl, fun gateway hg => iff_of_false Nat.one_ne_zero hg, fun m hm => ?_⟩
    exact iff_of_false (cost_ne_of_inFlight h.inFlight m hm) (hr.wire m hm).2
  have htables : ∀ n d, (s'.route n d).Consistent := (routes_step hP hr.num h.tables hs).2
  rcases step_cases hs with ⟨n, r, -, -, hwire, hheld, hok⟩ | ⟨hnet, hheld, hok⟩ | ⟨n, d, current, rfl, hcost, -, hwire, hheld⟩
  · refine iff_of_true ⟨htables, ?_⟩ hok
    rw [hwire, hheld]
    exact h.inFlight
  · refine iff_of_true ⟨htables, ?_⟩ hok
    rw [hnet, hheld]
    exact h.inFlight
  · have hmax : maxCost = 255 := rfl
    have hinf : infiniteRoute = 0 := rfl
    have hle := hr.cost n d
    have hu8 : ∀ x, u8 x = x % 256 := fun _ => rfl
    constructor
    · intro h'
      have hfirst := h'.inFlight
      rw [hwire, hheld, List.forall₂_cons] at hfirst
      have hone : u8 ((s.route n d).cost + 1) = (s.route n d).cost + 1 := hfirst.1.1
      rw [hu8] at hone
      show (s.route n d).cost ≠ maxCost
      omega
    · intro hok
      have hbelow : (s.route n d).cost ≠ maxCost := hok
      refine ⟨htables, ?_⟩
      have hone : u8 ((s.route n d).cost + 1) = (s.route n d).cost + 1 := by
        rw [hu8]
        omega
      rw [hwire, hheld, List.forall₂_cons, hone]
      exact ⟨⟨rfl, Nat.succ_ne_zero _⟩, h.inFlight⟩

end RouteEncodingAux

open RouteEncodingAux in
/-- For every network whose nodes advertise and learn routes while links are enabled and disabled, in any order: cost and gateway
agree in every table, and every message in flight carries one more than its sender held, in every state of a run exactly when no step
of the run advertises a route whose cost is 255. -/
theorem encodings_agree_iff (way : HostIndex → HostIndex → Int) {as : List SwitchAction} {s : SwitchNet}
    (hrun : exec SwitchNet.step (SwitchNet.init way) as = some s) :
    (∀ bs, bs <+: as → ∀ t, exec SwitchNet.step (SwitchNet.init way) bs = some t → t.EncodingsAgree) ↔
      Along SwitchNet.step SwitchNet.BelowMaxCost (SwitchNet.init way) as := by
  have h0 : (SwitchNet.init way).EncodingsAgree := ⟨fun _ _ => iff_of_true rfl rfl, List.Forall₂.nil⟩
  have hranged : ∀ bs t, exec SwitchNet.step (SwitchNet.init way) bs = some t → Ranged t := fun bs t ht =>
    (reach_anyStep_of_exec ht).invariant (ranged_init way) fun _ _ _ hr _ hs => ranged_step hr hs
  have hstep : ∀ (t : SwitchNet) (a : SwitchAction) (t' : SwitchNet), t.EncodingsAgree ∧ Ranged t → t.step a = some t' →
      (t'.EncodingsAgree ∧ Ranged t' ↔ t.BelowMaxCost a) := fun t a t' ht hs =>
    (and_iff_left (ranged_step ht.2 hs)).trans (encodingsAgree_step_iff ht.1 ht.2 hs)
  have hiff : (∀ bs, bs <+: as → ∀ t, exec SwitchNet.step (SwitchNet.init way) bs = some t → t.EncodingsAgree ∧ Ranged t) ↔
      Along SwitchNet.step SwitchNet.BelowMaxCost (SwitchNet.init way) as := along_iff ⟨h0, ranged_init way⟩ hstep hrun
  rw [← hiff]
  exact forall₂_congr fun bs _ => forall₂_congr fun t ht => (and_iff_left (hranged bs t ht)).symm

/-- Three hosts: the first is linked to the second and to the third. -/
def hubWay : HostIndex → HostIndex → Int := fun i j =>
  if (i = 0 ∧ (j = 1 ∨ j = 2)) ∨ (j = 0 ∧ (i = 1 ∨ i = 2)) then 1500 else -1

/-- The first host tells the second of the third. -/
def tellRun : List SwitchAction :=
  [.start 0, .start 1, .neighbor 0 1, .advertise 0 2, .handle 1 ⟨3, 2, 1⟩]

/-- What it says costs 2, and so does the route the second host has then. -/
theorem told_route_agrees :
    ∃ s, exec SwitchNet.step (SwitchNet.init hubWay) tellRun = some s ∧
      ∀ bs, bs <+: tellRun → ∀ t, exec SwitchNet.step (SwitchNet.init hubWay) bs = some t → t.EncodingsAgree := by
  obtain ⟨s, hs⟩ : ∃ s, exec SwitchNet.step (SwitchNet.init hubWay) tellRun = some s := Option.isSome_iff_exists.1 (by decide)
  exact ⟨s, hs, (encodings_agree_iff hubWay hs).2 (by decide)⟩

/-! ## A cost that runs over -/

namespace RouteEncodingAux

/-- `x` has a route to `d` through `y` at cost `c`, and `y` has none, or one through `x`. -/
structure Passing (s : SwitchNet) (x y d : HostIndex) (c : Nat) : Prop where
  started : s.net.started x = true ∧ s.net.started y = true
  num : (s.net.routers x).num = hostNum x ∧ (s.net.routers y).num = hostNum y
  linked : (s.net.routers x).neighbors y = 1 ∧ (s.net.routers y).neighbors x = 1
  dest : (s.route x d).dest = hostNum d
  cost : (s.route x d).cost = c
  gateway : (s.route x d).gateway = hostNum y
  back : (s.route y d).dest = hostNum d ∧ ((s.route y d).cost = infiniteRoute ∨ (s.route y d).gateway = hostNum x)

/-- `y` disables its link to `x` and enables it again, so that it forgets the route, `x` advertises its own, and `y` takes it. -/
def passRun (x y d : HostIndex) (c : Nat) : List SwitchAction :=
  [.disableRoute y x, .enableRoute y x, .neighbor x y, .advertise x d, .handle y ⟨hostNum d, u8 (c + 1), hostNum x⟩]

variable {x y d : HostIndex} {c : Nat}

/-- A node that forgets the routes through a neighbour has none to `d`, where it had none or one through that neighbour. -/
theorem forgotten {r : Router} (hdx : d ≠ x) (hback : (r.routes d).cost = infiniteRoute ∨ (r.routes d).gateway = hostNum x) :
    ((((r.disableRoute x).enableRoute x).routes d).cost = infiniteRoute) ∧
      (((r.disableRoute x).enableRoute x).routes d).dest = (r.routes d).dest := by
  simp only [Router.enableRoute, Router.disableRoute, Router.setRoute, Function.update_of_ne hdx]
  split
  · exact ⟨rfl, rfl⟩
  · rename_i hgateway
    exact ⟨hback.resolve_right hgateway, rfl⟩

/-- The network after the run: `y` has the route at a cost of one more, as the 8 bits hold it, through `x`. -/
def passed (s : SwitchNet) (x y d : HostIndex) (c : Nat) : SwitchNet where
  net := {
    routers := Function.update s.net.routers y
      ((((s.net.routers y).disableRoute x).enableRoute x).setRoute d (u8 (c + 1)) (hostNum x))
    started := s.net.started
    wire := (y, ⟨hostNum d, u8 (c + 1), hostNum x⟩) :: s.net.wire }
  current := Function.update s.current x (some y)
  held := c :: s.held

theorem exec_passRun (h : Passing s x y d c) (hxy : x ≠ y) (hdx : d ≠ x) (hc : c ≠ 0) :
    exec SwitchNet.step s (passRun x y d c) = some (passed s x y d c) := by
  obtain ⟨hforgot, -⟩ := forgotten hdx h.back.2
  have hdest : ((s.net.routers x).routes d).dest = hostNum d := h.dest
  have hcost : ((s.net.routers x).routes d).cost = c := h.cost
  have hadvert : (s.net.routers x).advertise d = some ⟨hostNum d, u8 (c + 1), hostNum x⟩ := by
    rw [Router.advertise, hcost, if_pos hc, hdest, h.num.1]
  simp only [passRun, exec, SwitchNet.step, RouteNet.step, RouteNet.setRouter, Function.update_self, Option.bind_some,
    Function.update_of_ne hxy, Function.update_idem, h.started.1, h.linked.1, hadvert, Option.map_some, and_self, if_true,
    List.mem_cons_self, Router.internalhandleroute, hostIndex_hostNum, hforgot, true_or, passed, SwitchNet.route, hcost]

theorem route_passed (s : SwitchNet) (x y d : HostIndex) (c : Nat) :
    (passed s x y d c).route y d =
      { (((s.net.routers y).disableRoute x).enableRoute x).routes d with cost := u8 (c + 1), gateway := hostNum x } := by
  have hy : (passed s x y d c).net.routers y =
      (((s.net.routers y).disableRoute x).enableRoute x).setRoute d (u8 (c + 1)) (hostNum x) := Function.update_self ..
  rw [SwitchNet.route, hy]
  exact Function.update_self ..

/-- Now it is `y` whose route goes through the other. -/
theorem passing_passed (h : Passing s x y d c) (hxy : x ≠ y) (hdx : d ≠ x) (hc : c < maxCost) :
    Passing (passed s x y d c) y x d (c + 1) := by
  obtain ⟨-, hdest⟩ := forgotten hdx h.back.2
  have hx : (passed s x y d c).net.routers x = s.net.routers x := Function.update_of_ne hxy ..
  have hy : (passed s x y d c).net.routers y =
      (((s.net.routers y).disableRoute x).enableRoute x).setRoute d (u8 (c + 1)) (hostNum x) := Function.update_self ..
  have hroute := route_passed s x y d c
  have hrouteX : (passed s x y d c).route x d = s.route x d := by
    rw [SwitchNet.route, hx]
    rfl
  have hmax : maxCost = 255 := rfl
  refine ⟨h.started.symm, ⟨?_, ?_⟩, ⟨?_, ?_⟩, ?_, ?_, ?_, ?_⟩
  · rw [hy]
    exact h.num.2
  · rw [hx]
    exact h.num.1
  · rw [hy]
    exact Function.update_self ..
  · rw [hx]
    exact h.linked.1
  · rw [hroute]
    exact hdest.trans h.back.1
  · rw [hroute]
    exact Nat.mod_eq_of_lt (by omega)
  · rw [hroute]
  · rw [hrouteX]
    exact ⟨h.dest, Or.inr h.gateway⟩

/-- The two pass the route on to each other at any cost up to the largest. -/
theorem exists_passing (h : Passing s x y d c) (hxy : x ≠ y) (hdx : d ≠ x) (hdy : d ≠ y) (hc : c ≠ 0) (k : Nat)
    (hk : c + k ≤ maxCost) :
    ∃ t x' y', Reach SwitchNet.step anyStep s t ∧ Passing t x' y' d (c + k) ∧ x' ≠ y' ∧ d ≠ x' := by
  induction k generalizing s x y c with
  | zero => exact ⟨s, x, y, Reach.refl, h, hxy, hdx⟩
  | succ k ih =>
    have hnext := passing_passed h hxy hdx (by omega)
    obtain ⟨t, x', y', hreach, hpassing, hxy', hdx'⟩ := ih hnext hxy.symm hdy hdx (Nat.succ_ne_zero c) (by omega)
    rw [Nat.add_right_comm] at hpassing
    exact ⟨t, x', y', (reach_anyStep_of_exec (exec_passRun h hxy hdx hc)).trans hreach, hpassing, hxy', hdx'⟩

end RouteEncodingAux

open RouteEncodingAux in
/-- The first host disables its link to the third, and passes the route it had told of back and forth with the second, until one of
them advertises it with the cost 0 and the other takes it: an entry with a gateway and no cost. -/
theorem cost_runs_over :
    ∃ s, Reach SwitchNet.step anyStep (SwitchNet.init hubWay) s ∧
      (∃ n d, (s.route n d).cost = infiniteRoute ∧ (s.route n d).gateway ≠ infiniteRoute) ∧
      (∃ m ∈ s.net.wire, m.2.cost = infiniteRoute) ∧ ¬s.EncodingsAgree := by
  obtain ⟨s, hs, hstarted, hnum, hlinked, hdest, hcost, hgateway, hback⟩ :
      ∃ s ∈ exec SwitchNet.step (SwitchNet.init hubWay) (tellRun ++ [.disableRoute 0 2]),
        (s.net.started 1 = true ∧ s.net.started 0 = true) ∧
        ((s.net.routers 1).num = hostNum 1 ∧ (s.net.routers 0).num = hostNum 0) ∧
        ((s.net.routers 1).neighbors 0 = 1 ∧ (s.net.routers 0).neighbors 1 = 1) ∧
        (s.route 1 2).dest = hostNum 2 ∧ (s.route 1 2).cost = 2 ∧ (s.route 1 2).gateway = hostNum 0 ∧
        (s.route 0 2).dest = hostNum 2 ∧ ((s.route 0 2).cost = infiniteRoute ∨ (s.route 0 2).gateway = hostNum 1) := by
    decide
  have hstart : Passing s 1 0 2 2 := ⟨hstarted, hnum, hlinked, hdest, hcost, hgateway, hback⟩
  obtain ⟨t, x, y, hreach, ht, hxy, hdx⟩ :=
    exists_passing hstart (by decide) (by decide) (by decide) (by decide) 253 (by decide)
  have hlast := exec_passRun ht hxy hdx (by decide)
  have hentry := route_passed t x y 2 (2 + 253)
  have hno : ((passed t x y 2 (2 + 253)).route y 2).cost = infiniteRoute := by rw [hentry]; rfl
  have hyes : ((passed t x y 2 (2 + 253)).route y 2).gateway ≠ infiniteRoute := by
    rw [hentry]
    exact Nat.ne_of_gt (hostNum_pos x)
  refine ⟨_, (reach_anyStep_of_exec hs).trans (hreach.trans (reach_anyStep_of_exec hlast)), ⟨y, 2, hno, hyes⟩,
    ⟨_, List.mem_cons_self, rfl⟩, ?_⟩
  intro h
  exact hyes ((h.tables y 2).1 hno)

end NetworkLayers
