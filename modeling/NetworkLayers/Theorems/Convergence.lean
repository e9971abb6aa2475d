import NetworkLayers.Lib.DistanceVector
import NetworkLayers.Theorems.Routing

/-!
# Routes converge

On a fixed topology the nodes come to the lengths of the shortest ways. Each step leaves every cost as it is or lowers it, a node
that is told of a route takes it or has a better one, and the soundness of the routes bounds the costs from below. From then on the
next hops lead along a shortest way.
-/

namespace NetworkLayers

open Transition Walk DistanceVector RoutingAux

/-- Every node fills in its neighbours, and what a node has to say about a host reaches each of its neighbours again and again:
some message that it sends later is handled there. -/
structure RouteNet.Fair (way : HostIndex → HostIndex → Int) (run : Nat → RouteNet) : Prop where
  starts : ∀ n, ∃ t, (run t).step (.start n) = some (run (t + 1))
  tells : ∀ t n m d, Linked way n m → (run t).cost n d ≠ 0 → ∃ t₁ msg, t ≤ t₁ ∧
    ((run t₁).routers n).advertise d = some msg ∧ ∃ t₂, t₁ ≤ t₂ ∧ (run t₂).step (.handle m msg) = some (run (t₂ + 1))

namespace ConvergenceAux

variable {way : HostIndex → HostIndex → Int} {s s' : RouteNet} {run : Nat → RouteNet}

/-! ## What a step does to the costs -/

theorem cost_setRouter_self (s : RouteNet) (n d : HostIndex) (r : Router) : (s.setRouter n r).cost n d = (r.routes d).cost := by
  simp [RouteNet.cost, RouteNet.setRouter]

theorem cost_setRouter_of_ne {n m : HostIndex} (h : m ≠ n) (s : RouteNet) (d : HostIndex) (r : Router) :
    (s.setRouter n r).cost m d = s.cost m d := by
  simp [RouteNet.cost, RouteNet.setRouter, h]

/-- Where the routes of one node only improve, all do. -/
theorem improves_of_router {n : HostIndex} {r : Router}
    (h : ∀ d, s.cost n d ≠ 0 → (r.routes d).cost ≠ 0 ∧ (r.routes d).cost ≤ s.cost n d) : Improves s (s.setRouter n r) := by
  intro m d hc
  by_cases hm : m = n
  · subst hm
    rw [cost_setRouter_self]
    exact h d hc
  · rw [cost_setRouter_of_ne hm]
    exact ⟨hc, Nat.le_refl _⟩

/-- No step makes a route worse. -/
theorem improves_step (h : Sound way s) {a : RouteAction} (hs : s.step a = some s') : Improves s s' := by
  cases a with
  | start n =>
    simp only [RouteNet.step] at hs
    split at hs
    · cases hs
    · obtain rfl := Option.some.inj hs
      refine improves_of_router (s := s) fun d hc => ?_
      simp only [Router.startRoutes]
      split
      · exact ⟨Nat.one_ne_zero, Nat.pos_of_ne_zero hc⟩
      · exact ⟨hc, Nat.le_refl _⟩
  | advertise n neighbor dest =>
    simp only [RouteNet.step] at hs
    split at hs
    · obtain ⟨msg, -, rfl⟩ := Option.map_eq_some_iff.1 hs
      exact fun m d hc => ⟨hc, Nat.le_refl _⟩
    · cases hs
  | handle n msg =>
    simp only [RouteNet.step] at hs
    split at hs
    · rename_i hmem
      obtain ⟨r, hr, rfl⟩ := Option.map_eq_some_iff.1 hs
      obtain ⟨g, e, -, hdest, -, hg, hlt, -⟩ := h.advert n msg hmem
      rw [Router.internalhandleroute, hdest, hostIndex_hostNum, Option.map_some, Option.some.injEq] at hr
      subst hr
      refine improves_of_router fun d hc => ?_
      split
      · rename_i hbetter
        by_cases hde : d = e
        · subst hde
          simp only [Router.setRoute, Function.update_self]
          exact ⟨by omega, (hbetter.resolve_left hc).le⟩
        · simp only [Router.setRoute, Function.update_of_ne hde]
          exact ⟨hc, Nat.le_refl _⟩
      · exact ⟨hc, Nat.le_refl _⟩
    · cases hs

/-- A node that fills in its neighbours has a cost of 1 to itself and to each of them. -/
theorem cost_start (h : Sound way s) {n d : HostIndex} (hd : n = d ∨ Linked way n d) (hs : s.step (.start n) = some s') :
    s'.cost n d = 1 := by
  simp only [RouteNet.step] at hs
  split at hs
  · cases hs
  · obtain rfl := Option.some.inj hs
    have hif : (s.routers n).neighbors d = 1 ∨ hostNum d = (s.routers n).num := by
      rw [h.num, h.neighbors, neighborsInit_eq_one]
      rcases hd with rfl | hl
      · exact Or.inr rfl
      · exact Or.inl hl
    show ((s.setRouter n (s.routers n).startRoutes).cost n d) = 1
    simp only [cost_setRouter_self, Router.startRoutes, if_pos hif]

/-- What a node says of a host is one more than what it knows. -/
theorem advertise_eq (h : Sound way s) {n d : HostIndex} {msg : RouteTable} (hmsg : (s.routers n).advertise d = some msg) :
    msg = { dest := hostNum d, cost := s.cost n d + 1, gateway := hostNum n } ∧ s.cost n d ≠ 0 := by
  have hb : s.cost n d ≤ maxHosts := (h.bound n d).trans (reached_le s d)
  have hlt : (((s.routers n).routes d).cost + 1) < 256 := Nat.lt_of_le_of_lt (Nat.succ_le_succ hb) (by decide)
  rw [Router.advertise] at hmsg
  split at hmsg
  · rename_i hc
    obtain rfl := Option.some.inj hmsg
    rw [h.dest, h.num, u8, Nat.mod_eq_of_lt hlt]
    exact ⟨rfl, hc⟩
  · cases hmsg

/-- A node that handles a message takes the route or has a better one. -/
theorem knows_of_handle {n d : HostIndex} {msg : RouteTable} (hdest : msg.dest = hostNum d) (h0 : msg.cost ≠ 0)
    (hs : s.step (.handle n msg) = some s') : s'.cost n d ≠ 0 ∧ s'.cost n d ≤ msg.cost := by
  simp only [RouteNet.step] at hs
  split at hs
  · obtain ⟨r, hr, rfl⟩ := Option.map_eq_some_iff.1 hs
    rw [Router.internalhandleroute, hdest, hostIndex_hostNum, Option.map_some, Option.some.injEq] at hr
    rw [cost_setRouter_self, ← hr]
    split
    · simp only [Router.setRoute, Function.update_self]
      exact ⟨h0, Nat.le_refl _⟩
    · rename_i hno
      rw [infiniteRoute] at hno
      omega
  · cases hs

/-! ## A fair run -/

/-- Along a run no route gets worse. -/
theorem improving_run (hsound : ∀ t, Sound way (run t)) (hrun : Run RouteNet.step run) (d : HostIndex) :
    Improving fun t n => (run t).cost n d := by
  intro t n hc
  rcases hrun t with hsame | ⟨a, ha⟩
  · simp only [hsame]
    exact ⟨hc, Nat.le_refl _⟩
  · exact improves_step (hsound t) ha n d hc

/-- The costs of a fair run spread along the links. -/
theorem spreads (hsymm : ∀ i j, Linked way i j → Linked way j i) (hsound : ∀ t, Sound way (run t))
    (hrun : Run RouteNet.step run) (hfair : RouteNet.Fair way run) (d : HostIndex) :
    Spreads (Linked way) d fun t n => (run t).cost n d where
  improving := improving_run hsound hrun d
  starts := by
    intro n hn
    obtain ⟨t, ht⟩ := hfair.starts n
    have hone := cost_start (hsound t) hn ht
    exact ⟨t + 1, ne_of_eq_of_ne hone Nat.one_ne_zero, hone.le⟩
  hears := by
    intro t n m hnm hc
    obtain ⟨t₁, msg, hle, hmsg, t₂, -, hs⟩ := hfair.tells t m n d (hsymm n m hnm) hc
    obtain ⟨rfl, -⟩ := advertise_eq (hsound t₁) hmsg
    obtain ⟨h0, hle'⟩ := knows_of_handle (d := d) rfl (Nat.succ_ne_zero _) hs
    -- the sender's route has only improved since
    have hlater : Knows (fun t n => (run t).cost n d) t₁ m ((run t).cost m d) :=
      Knows.later (improving_run hsound hrun d) ⟨hc, Nat.le_refl _⟩ hle
    exact ⟨t₂ + 1, h0, hle'.trans (Nat.succ_le_succ hlater.2)⟩

/-- Every cost is exact from some time on. -/
theorem eventually_exact (hsymm : ∀ i j, Linked way i j → Linked way j i) (hsound : ∀ t, Sound way (run t))
    (hrun : Run RouteNet.step run) (hfair : RouteNet.Fair way run) :
    ∃ T, ∀ t, T ≤ t → ∀ d n, Exact (Linked way) d ((run t).cost n d) n := by
  have hall : ∀ᶠ t in Filter.atTop, ∀ d n, Exact (Linked way) d ((run t).cost n d) n := by
    refine Filter.eventually_all.2 fun d => Filter.eventually_atTop.2 ?_
    exact (spreads hsymm hsound hrun hfair d).settles fun t n hc => ((hsound t).entry n d hc).within
  exact Filter.eventually_atTop.1 hall

/-! ## A fair run of three hosts -/

instance (way : HostIndex → HostIndex → Int) (i j : HostIndex) : Decidable (Linked way i j) :=
  inferInstanceAs (Decidable (way i j ≠ -1))

/-- Nothing is left to be told: each route of a node is on the wire to each neighbour, which has a route no worse. -/
def AllTold (way : HostIndex → HostIndex → Int) (s : RouteNet) : Prop :=
  ∀ n m d, Linked way n m → s.cost n d ≠ 0 →
    ∃ msg ∈ (s.routers n).advertise d, (m, msg) ∈ s.wire ∧ msg.dest = hostNum d ∧ s.cost m d ≠ 0 ∧ s.cost m d ≤ msg.cost

instance (way : HostIndex → HostIndex → Int) (s : RouteNet) : Decidable (AllTold way s) :=
  inferInstanceAs (Decidable (∀ n m d : HostIndex, _ → _ → ∃ msg ∈ (s.routers n).advertise d, (m, msg) ∈ s.wire ∧ _))

/-- A message about a route that is no better leaves everything as it is. -/
theorem step_handle_of_told {m d : HostIndex} {msg : RouteTable} (hwire : (m, msg) ∈ s.wire) (hdest : msg.dest = hostNum d)
    (h0 : s.cost m d ≠ 0) (hle : s.cost m d ≤ msg.cost) : s.step (.handle m msg) = some s := by
  have hno : ¬(((s.routers m).routes d).cost = infiniteRoute ∨ msg.cost < ((s.routers m).routes d).cost) := by
    rintro (hzero | hlt)
    · exact h0 hzero
    · exact absurd hle (Nat.not_le.2 hlt)
  simp only [RouteNet.step, if_pos hwire, Router.internalhandleroute, hdest, hostIndex_hostNum, Option.map_some, if_neg hno,
    RouteNet.setRouter, Function.update_eq_self]

/-- A run that ends where nothing is left to be told is fair, if every node fills in its neighbours on the way. -/
theorem fair_of_allTold (hsymm : ∀ i j, Linked way i j → Linked way j i) {as : List RouteAction}
    (he : exec RouteNet.step (RouteNet.init way) as = some s) (htold : AllTold way s) (hstarts : ∀ n, .start n ∈ as) :
    RouteNet.Fair way (runThrough RouteNet.step (RouteNet.init way) as) where
  starts := by
    intro n
    obtain ⟨before, after, rfl⟩ := List.append_of_mem (hstarts n)
    exact ⟨before.length, runThrough_step (by rw [he]; rfl)⟩
  tells := by
    intro t n m d hl hc
    have hrun : Run RouteNet.step (runThrough RouteNet.step (RouteNet.init way) as) := run_runThrough _ _
    have hsound : ∀ t, Sound way (runThrough RouteNet.step (RouteNet.init way) as t) := by
      intro t
      have hreach := hrun.reach t
      rw [runThrough_zero] at hreach
      exact reach_sound hsymm hreach
    have hend : ∀ t', as.length ≤ t' → runThrough RouteNet.step (RouteNet.init way) as t' = s := fun t' ht' =>
      runThrough_end he ht'
    obtain ⟨t', htt', ht'⟩ : ∃ t', t ≤ t' ∧ as.length ≤ t' := ⟨max t as.length, le_max_left _ _, le_max_right _ _⟩
    have hc' := (Knows.later (improving_run hsound hrun d) ⟨hc, Nat.le_refl _⟩ htt').1
    simp only [hend t' ht'] at hc'
    obtain ⟨msg, hmsg, hwire, hdest, h0, hle⟩ := htold n m d hl hc'
    refine ⟨t', msg, htt', by rw [hend t' ht']; exact hmsg, t', Nat.le_refl _, ?_⟩
    rw [hend t' ht', hend (t' + 1) (Nat.le_succ_of_le ht')]
    exact step_handle_of_told hwire hdest h0 hle

/-- Hosts 1, 2 and 3 in a line, and the others alone. -/
def threeWay : HostIndex → HostIndex → Int :=
  fun i j => if (i.val + 1 = j.val ∨ j.val + 1 = i.val) ∧ i.val ≤ 2 ∧ j.val ≤ 2 then 1500 else -1

/-- All start, host 2 tells each of its neighbours of the other, and then everything is told once more. -/
def threeRun : List RouteAction :=
  (List.finRange maxHosts).map .start ++
    [.advertise 1 0 2, .advertise 1 2 0, .handle 0 ⟨3, 2, 2⟩, .handle 2 ⟨1, 2, 2⟩] ++
    [0, 1, 2].flatMap fun d => [.advertise 0 1 d, .advertise 1 0 d, .advertise 1 2 d, .advertise 2 1 d]

theorem threeWay_symm : ∀ i j, Linked threeWay i j → Linked threeWay j i := by
  unfold Linked threeWay
  decide

/-- The run they make. -/
def threeStates : Nat → RouteNet := runThrough RouteNet.step (RouteNet.init threeWay) threeRun

theorem threeStates_fair : RouteNet.Fair threeWay threeStates := by
  obtain ⟨s, he, htold⟩ : ∃ s ∈ exec RouteNet.step (RouteNet.init threeWay) threeRun, AllTold threeWay s := by decide +kernel
  exact fair_of_allTold threeWay_symm he htold (by decide)

end ConvergenceAux

open ConvergenceAux in
/-- On every fixed symmetric topology, every fair run comes to a time from which on each cost is exact: the length of a shortest way
to the host, 1 to the node itself, and 0 where there is none. -/
theorem routes_converge {way : HostIndex → HostIndex → Int} (hsymm : ∀ i j, Linked way i j → Linked way j i)
    {run : Nat → RouteNet} (hstart : run 0 = RouteNet.init way) (hrun : Run RouteNet.step run)
    (hfair : RouteNet.Fair way run) :
    ∃ T, ∀ t, T ≤ t → ∀ d n, Exact (Linked way) d ((run t).cost n d) n :=
  eventually_exact hsymm (fun t => reach_sound hsymm (hstart ▸ hrun.reach t)) hrun hfair

open ConvergenceAux in
/-- So it is with three hosts in a line. -/
theorem three_hosts_converge :
    ∃ T, ∀ t, T ≤ t → ∀ d n, Exact (Linked threeWay) d ((threeStates t).cost n d) n :=
  routes_converge threeWay_symm (runThrough_zero _ _) (run_runThrough _ _) threeStates_fair

open ConvergenceAux in
/-- From then on a datagram that follows the next hops comes to every host there is a way to, by a shortest one, and its `ttl` lasts
so long. -/
theorem next_hops_shortest {way : HostIndex → HostIndex → Int} (hsymm : ∀ i j, Linked way i j → Linked way j i)
    {run : Nat → RouteNet} (hstart : run 0 = RouteNet.init way) (hrun : Run RouteNet.step run)
    (hfair : RouteNet.Fair way run) :
    ∃ T, ∀ t, T ≤ t → ∀ n d, n ≠ d → (∃ k, Within (Linked way) d k n) →
      ∃ k, IsLeast {k | Within (Linked way) d k n} k ∧ k ≤ ttlInit ∧ Follows ((run t).NextHop d) d k n := by
  have hsound (t : Nat) : Sound way (run t) := reach_sound hsymm (hstart ▸ hrun.reach t)
  obtain ⟨T, hT⟩ := eventually_exact hsymm hsound hrun hfair
  refine ⟨T, fun t ht n d hnd hway => ?_⟩
  have hexact := hT t ht d
  have hn : IsLeast {k | 0 < k ∧ Within (Linked way) d k n} ((run t).cost n d) := by
    rcases hexact n with ⟨-, hno⟩ | hleast
    · obtain ⟨k, hk⟩ := hway
      exact absurd hk (hno k)
    · exact hleast
  have hc : (run t).cost n d ≠ 0 := Nat.pos_iff_ne_zero.1 hn.1.1
  refine ⟨(run t).cost n d, ⟨hn.1.2, fun k hk => ?_⟩, ((hsound t).bound n d).trans (reached_le _ d), ?_⟩
  · -- no walk of no steps leads to another host
    have hpos : 0 < k := by
      cases hk with
      | here => exact absurd rfl hnd
      | step => exact Nat.succ_pos _
    exact hn.2 ⟨hpos, hk⟩
  · refine follows_of_exact hexact ?_ hnd hc
    intro m hm hcm
    exact (hsound t).nextHop (Ne.symm hm) hcm

open ConvergenceAux in
/-- Host 1 then reaches host 3 by the way over host 2. -/
theorem three_hosts_shortest :
    ∃ T, ∀ t, T ≤ t → ∃ k, IsLeast {k | Within (Linked threeWay) 2 k 0} k ∧ k ≤ ttlInit ∧
      Follows ((threeStates t).NextHop 2) 2 k 0 := by
  obtain ⟨T, hT⟩ := next_hops_shortest threeWay_symm (runThrough_zero _ _) (run_runThrough _ _) threeStates_fair
  refine ⟨T, fun t ht => hT t ht 0 2 (by decide) ⟨2, ?_⟩⟩
  exact Within.step (m := 1) (by decide) (Within.step (by decide) (Within.here 0))

end NetworkLayers
