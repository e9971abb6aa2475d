import NetworkLayers.Net.RouteNet
import NetworkLayers.Lib.Walk
import Mathlib.Data.Fintype.Card
import Mathlib.Data.Fintype.BigOperators
import Mathlib.Data.Finset.Card

/-!
# Distance-vector routing on a fixed topology

Costs only go down once a node knows one, so a message in flight never promises less than its sender can do when it arrives. From
that: the cost of a route bounds the distance, the next hop is a neighbour closer to the destination, and the routes do not loop.
No cost outgrows the number of nodes that know the destination, which keeps the 8-bit cost of a message from wrapping.
-/

namespace NetworkLayers

open Transition Walk

/-- There is a link from `i` to `j`. -/
def Linked (way : HostIndex → HostIndex → Int) (i j : HostIndex) : Prop := way i j ≠ -1

/-- The next hop of `n` towards `d` is `g`. -/
def RouteNet.NextHop (s : RouteNet) (d n g : HostIndex) : Prop :=
  (s.routers n).hostreachable (hostNum d) = hostNum g

namespace RoutingAux

open Classical in
/-- How many nodes know a route to `d`. -/
noncomputable def reached (s : RouteNet) (d : HostIndex) : Nat := (Finset.univ.filter fun n => s.cost n d ≠ 0).card

/-- Costs that are known stay known, and do not go up. -/
def Improves (s s' : RouteNet) : Prop := ∀ n d, s.cost n d ≠ 0 → s'.cost n d ≠ 0 ∧ s'.cost n d ≤ s.cost n d

/-- What holds of a node's route to `d`: its cost bounds the distance, and its gateway is the node itself where `d` is a
neighbour or the node, and else a neighbour that knows a cheaper one. -/
structure EntryOk (way : HostIndex → HostIndex → Int) (s : RouteNet) (n d : HostIndex) : Prop where
  within : Within (Linked way) d (s.cost n d) n
  gateway : (((s.routers n).routes d).gateway = hostNum n ∧ (d = n ∨ Linked way n d)) ∨
    ∃ g, ((s.routers n).routes d).gateway = hostNum g ∧ Linked way n g ∧ s.cost g d ≠ 0 ∧ s.cost g d < s.cost n d

/-- What holds of a message on the wire to `n`: its sender is linked to `n` and can still do better than it says. -/
def AdvertOk (way : HostIndex → HostIndex → Int) (s : RouteNet) (n : HostIndex) (msg : RouteTable) : Prop :=
  ∃ g d, msg.gateway = hostNum g ∧ msg.dest = hostNum d ∧ Linked way g n ∧ s.cost g d ≠ 0 ∧ s.cost g d < msg.cost ∧
    Within (Linked way) d (msg.cost - 1) g ∧ msg.cost ≤ reached s d + 1

/-- The invariant of the network. -/
structure Sound (way : HostIndex → HostIndex → Int) (s : RouteNet) : Prop where
  num : ∀ n, (s.routers n).num = hostNum n
  neighbors : ∀ n, (s.routers n).neighbors = neighborsInit (way n)
  dest : ∀ n d, ((s.routers n).routes d).dest = hostNum d
  entry : ∀ n d, s.cost n d ≠ 0 → EntryOk way s n d
  bound : ∀ n d, s.cost n d ≤ reached s d
  advert : ∀ n msg, (n, msg) ∈ s.wire → AdvertOk way s n msg

variable {way : HostIndex → HostIndex → Int} {s s' : RouteNet}

theorem neighborsInit_eq_one {way : HostIndex → Int} {j : HostIndex} : neighborsInit way j = 1 ↔ way j ≠ -1 := by
  unfold neighborsInit
  split <;> simp_all

/-- No more nodes than there are know a route. -/
theorem reached_le (s : RouteNet) (d : HostIndex) : reached s d ≤ maxHosts := by
  have hle := Finset.card_le_univ (Finset.univ.filter fun n => s.cost n d ≠ 0)
  rw [Fintype.card_fin] at hle
  exact hle

theorem reached_mono (h : Improves s s') (d : HostIndex) : reached s d ≤ reached s' d := by
  refine Finset.card_le_card ?_
  intro n hn
  simp only [Finset.mem_filter, Finset.mem_univ, true_and] at hn ⊢
  exact (h n d hn).1

/-- A node that did not know a route and now does is one more. -/
theorem reached_lt (h : Improves s s') {n d : HostIndex} (h0 : s.cost n d = 0) (h1 : s'.cost n d ≠ 0) :
    reached s d < reached s' d := by
  refine Finset.card_lt_card ⟨?_, ?_⟩
  · intro m hm
    simp only [Finset.mem_filter, Finset.mem_univ, true_and] at hm ⊢
    exact (h m d hm).1
  · intro hsub
    have hmem := hsub (Finset.mem_filter.2 ⟨Finset.mem_univ n, h1⟩)
    exact (Finset.mem_filter.1 hmem).2 h0

theorem reached_pos {n d : HostIndex} (h : s.cost n d ≠ 0) : 0 < reached s d :=
  Finset.card_pos.2 ⟨n, Finset.mem_filter.2 ⟨Finset.mem_univ n, h⟩⟩

/-- What a message promises stays true when the costs improve. -/
theorem AdvertOk.mono (himp : Improves s s') {n : HostIndex} {msg : RouteTable} (h : AdvertOk way s n msg) :
    AdvertOk way s' n msg := by
  obtain ⟨g, d, hg, hd, hl, h0, hlt, hw, hb⟩ := h
  obtain ⟨h0', hle⟩ := himp g d h0
  have hmono := reached_mono himp d
  exact ⟨g, d, hg, hd, hl, h0', by omega, hw, by omega⟩

/-- A route that is not touched stays right when the costs improve. -/
theorem EntryOk.mono (himp : Improves s s') {n d : HostIndex} (heq : (s'.routers n).routes d = (s.routers n).routes d)
    (h : EntryOk way s n d) : EntryOk way s' n d := by
  have hcost : s'.cost n d = s.cost n d := by
    unfold RouteNet.cost
    rw [heq]
  refine ⟨hcost ▸ h.within, ?_⟩
  rw [heq]
  rcases h.gateway with hself | ⟨g, hg, hl, h0, hlt⟩
  · exact Or.inl hself
  · obtain ⟨h0', hle⟩ := himp g d h0
    exact Or.inr ⟨g, hg, hl, h0', by omega⟩

/-- The invariant is kept when the routes of one node change for the better: each is untouched, or right, and no costlier than the
number of nodes that know one. -/
theorem Sound.of_router (h : Sound way s) {n : HostIndex} {r : Router} (hrouters : s'.routers = Function.update s.routers n r)
    (hwire : s'.wire = s.wire) (hnum : r.num = (s.routers n).num) (hneigh : r.neighbors = (s.routers n).neighbors)
    (hdest : ∀ d, (r.routes d).dest = ((s.routers n).routes d).dest)
    (hcost : ∀ d, s.cost n d ≠ 0 → (r.routes d).cost ≠ 0 ∧ (r.routes d).cost ≤ s.cost n d)
    (hentry : Improves s s' → ∀ d, r.routes d = (s.routers n).routes d ∨ EntryOk way s' n d ∧ (r.routes d).cost ≤ reached s' d) :
    Sound way s' := by
  have hself : s'.routers n = r := by rw [hrouters, Function.update_self]
  have hother : ∀ m, m ≠ n → s'.routers m = s.routers m := by
    intro m hm
    rw [hrouters, Function.update_of_ne hm]
  have himp : Improves s s' := by
    intro m d hc
    unfold RouteNet.cost at hc ⊢
    by_cases hm : m = n
    · subst hm
      rw [hself]
      exact hcost d hc
    · rw [hother m hm]
      exact ⟨hc, Nat.le_refl _⟩
  have hroute : ∀ m d, (s'.routers m).routes d = (s.routers m).routes d ∨ EntryOk way s' m d ∧ s'.cost m d ≤ reached s' d := by
    intro m d
    unfold RouteNet.cost
    by_cases hm : m = n
    · subst hm
      rw [hself]
      exact hentry himp d
    · rw [hother m hm]
      exact Or.inl rfl
  refine ⟨?_, ?_, ?_, ?_, ?_, ?_⟩
  · intro m
    by_cases hm : m = n
    · subst hm
      rw [hself, hnum, h.num]
    · rw [hother m hm, h.num]
  · intro m
    by_cases hm : m = n
    · subst hm
      rw [hself, hneigh, h.neighbors]
    · rw [hother m hm, h.neighbors]
  · intro m d
    by_cases hm : m = n
    · subst hm
      rw [hself, hdest, h.dest]
    · rw [hother m hm, h.dest]
  · intro m d hc
    rcases hroute m d with heq | ⟨hok, -⟩
    · have hc' : s.cost m d ≠ 0 := by
        unfold RouteNet.cost at hc ⊢
        rwa [heq] at hc
      exact (h.entry m d hc').mono himp heq
    · exact hok
  · intro m d
    rcases hroute m d with heq | ⟨-, hb⟩
    · have hsame : s'.cost m d = s.cost m d := by
        unfold RouteNet.cost
        rw [heq]
      rw [hsame]
      exact Nat.le_trans (h.bound m d) (reached_mono himp d)
    · exact hb
  · intro m msg hm
    exact (h.advert m msg (hwire ▸ hm)).mono himp

/-! ## Each step -/

/-- A node fills in its neighbours. -/
theorem sound_start (h : Sound way s) {n : HostIndex} (hs : s.step (.start n) = some s') : Sound way s' := by
  simp only [RouteNet.step] at hs
  split at hs
  · cases hs
  · have hs' : s' = _ := (Option.some.inj hs).symm
    have hrouters : s'.routers = Function.update s.routers n (s.routers n).startRoutes := by rw [hs']; rfl
    have hself : s'.routers n = (s.routers n).startRoutes := by rw [hrouters, Function.update_self]
    -- the routes of the node: set to cost 1, or untouched
    have hroute : ∀ d, ((d = n ∨ Linked way n d) ∧
        (s.routers n).startRoutes.routes d = { (s.routers n).routes d with gateway := hostNum n, cost := 1 }) ∨
        (s.routers n).startRoutes.routes d = (s.routers n).routes d := by
      intro d
      simp only [Router.startRoutes, h.num, h.neighbors, neighborsInit_eq_one]
      split
      · rename_i hif
        refine Or.inl ⟨?_, rfl⟩
        rcases hif with hl | he
        · exact Or.inr hl
        · exact Or.inl (hostNum_injective he)
      · exact Or.inr rfl
    refine h.of_router hrouters (by rw [hs']; rfl) rfl rfl ?_ ?_ ?_
    · intro d
      rcases hroute d with ⟨-, heq⟩ | heq <;> rw [heq]
    · intro d hc
      rcases hroute d with ⟨-, heq⟩ | heq
      · rw [heq]
        exact ⟨Nat.one_ne_zero, Nat.pos_of_ne_zero hc⟩
      · rw [heq]
        exact ⟨hc, Nat.le_refl _⟩
    · intro _ d
      rcases hroute d with ⟨hl, heq⟩ | heq
      · have hone : s'.cost n d = 1 := by rw [RouteNet.cost, hself, heq]
        have hgate : ((s'.routers n).routes d).gateway = hostNum n := by rw [hself, heq]
        have hpos : 0 < reached s' d := reached_pos (n := n) (by rw [hone]; exact Nat.one_ne_zero)
        have hwithin : Within (Linked way) d 1 n := by
          rcases hl with rfl | hl
          · exact Within.here 1
          · exact Within.step hl (Within.here 0)
        refine Or.inr ⟨⟨by rw [hone]; exact hwithin, Or.inl ⟨hgate, hl⟩⟩, ?_⟩
        rw [heq]
        exact hpos
      · exact Or.inl heq

/-- A node tells a neighbour of a route. -/
theorem sound_advertise (h : Sound way s) {n m d : HostIndex} (hs : s.step (.advertise n m d) = some s') :
    Sound way s' := by
  simp only [RouteNet.step] at hs
  split at hs
  · rename_i hcond
    obtain ⟨msg, hmsg, hs'⟩ := Option.map_eq_some_iff.1 hs
    subst hs'
    refine ⟨h.num, h.neighbors, h.dest, fun k e hc => ⟨(h.entry k e hc).within, (h.entry k e hc).gateway⟩, h.bound, ?_⟩
    intro k msg' hm
    rcases List.mem_cons.1 hm with heq | hm
    · obtain ⟨rfl, rfl⟩ := Prod.mk.inj heq
      unfold Router.advertise at hmsg
      split at hmsg
      · rename_i hc
        have hc : s.cost n d ≠ 0 := hc
        have hb : s.cost n d ≤ reached s d := h.bound n d
        have hmax : reached s d ≤ 6 := reached_le s d
        have hcost : u8 (s.cost n d + 1) = s.cost n d + 1 := Nat.mod_eq_of_lt (by omega)
        obtain rfl := Option.some.inj hmsg
        refine ⟨n, d, h.num n, h.dest n d, ?_, hc, ?_, ?_, ?_⟩
        · have hn := hcond.2
          rw [h.neighbors] at hn
          exact neighborsInit_eq_one.1 hn
        · show s.cost n d < u8 (s.cost n d + 1)
          omega
        · show Within (Linked way) d (u8 (s.cost n d + 1) - 1) n
          rw [hcost, Nat.add_sub_cancel]
          exact (h.entry n d hc).within
        · show u8 (s.cost n d + 1) ≤ reached s d + 1
          omega
      · cases hmsg
    · exact h.advert k msg' hm
  · cases hs

/-- A node learns the route a neighbour has promised it. -/
theorem sound_learn (hsymm : ∀ i j, Linked way i j → Linked way j i) (h : Sound way s) {n g d : HostIndex} {msg : RouteTable}
    (hg : msg.gateway = hostNum g) (hl : Linked way g n) (h0 : s.cost g d ≠ 0) (hlt : s.cost g d < msg.cost)
    (hw : Within (Linked way) d (msg.cost - 1) g) (hb : msg.cost ≤ reached s d + 1)
    (hbetter : s.cost n d = 0 ∨ msg.cost < s.cost n d) :
    Sound way (s.setRouter n ((s.routers n).setRoute d msg.cost msg.gateway)) := by
  obtain ⟨r, hr⟩ : ∃ r, (s.routers n).setRoute d msg.cost msg.gateway = r := ⟨_, rfl⟩
  rw [hr]
  -- the sender is another node: no node promises itself a better route
  have hgn : g ≠ n := by
    rintro rfl
    omega
  have hnd : r.routes d = { (s.routers n).routes d with cost := msg.cost, gateway := msg.gateway } := by
    rw [← hr]
    exact Function.update_self ..
  have hne : ∀ e, e ≠ d → r.routes e = (s.routers n).routes e := by
    intro e he
    rw [← hr]
    exact Function.update_of_ne he ..
  have hself : (s.setRouter n r).routers n = r := Function.update_self ..
  have hcg : (s.setRouter n r).cost g d = s.cost g d := by
    have hother : (s.setRouter n r).routers g = s.routers g := Function.update_of_ne hgn ..
    unfold RouteNet.cost
    rw [hother]
  have hcn : (s.setRouter n r).cost n d = msg.cost := by
    unfold RouteNet.cost
    rw [hself, hnd]
  refine h.of_router rfl rfl (by rw [← hr]; rfl) (by rw [← hr]; rfl) ?_ ?_ ?_
  · intro e
    by_cases he : e = d
    · rw [he, hnd]
    · rw [hne e he]
  · intro e hc
    by_cases he : e = d
    · subst he
      rw [hnd]
      show msg.cost ≠ 0 ∧ msg.cost ≤ s.cost n e
      omega
    · rw [hne e he]
      exact ⟨hc, Nat.le_refl _⟩
  · intro himp e
    by_cases he : e = d
    · subst he
      have hgate : (((s.setRouter n r).routers n).routes e).gateway = hostNum g := by rw [hself, hnd, hg]
      refine Or.inr ⟨⟨?_, Or.inr ⟨g, hgate, hsymm g n hl, by omega, by omega⟩⟩, ?_⟩
      · rw [hcn]
        obtain ⟨k, hk⟩ : ∃ k, msg.cost = k + 1 := ⟨msg.cost - 1, by omega⟩
        rw [hk] at hw ⊢
        exact Within.step (hsymm g n hl) hw
      · rw [hnd]
        show msg.cost ≤ _
        rcases hbetter with hzero | hless
        · have := reached_lt himp hzero (by omega)
          omega
        · have := reached_mono himp e
          have := h.bound n e
          omega
    · exact Or.inl (hne e he)

/-- A node handles a message. -/
theorem sound_handle (hsymm : ∀ i j, Linked way i j → Linked way j i) (h : Sound way s) {n : HostIndex} {msg : RouteTable}
    (hs : s.step (.handle n msg) = some s') : Sound way s' := by
  simp only [RouteNet.step] at hs
  split at hs
  · rename_i hmem
    obtain ⟨r, hr, rfl⟩ := Option.map_eq_some_iff.1 hs
    obtain ⟨g, d, hg, hd, hl, h0, hlt, hw, hb⟩ := h.advert n msg hmem
    unfold Router.internalhandleroute at hr
    rw [hd, hostIndex_hostNum, Option.map_some, Option.some.injEq] at hr
    split at hr
    · rename_i hbetter
      subst hr
      exact sound_learn hsymm h hg hl h0 hlt hw hb hbetter
    · -- nothing learnt
      subst hr
      have hsame : s.setRouter n (s.routers n) = s := by
        unfold RouteNet.setRouter
        rw [Function.update_eq_self]
      rw [hsame]
      exact h
  · cases hs

/-- No node knows a route at the start. -/
theorem sound_init (way : HostIndex → HostIndex → Int) : Sound way (RouteNet.init way) where
  num _ := rfl
  neighbors _ := rfl
  dest _ _ := rfl
  entry _ _ hc := absurd rfl hc
  bound _ _ := Nat.zero_le _
  advert _ _ hm := by cases hm

/-- The invariant holds of every state reached. -/
theorem reach_sound (hsymm : ∀ i j, Linked way i j → Linked way j i)
    (h : Reach RouteNet.step anyStep (RouteNet.init way) s) : Sound way s := by
  refine h.invariant (sound_init way) ?_
  intro s a s' hsound _ hs
  cases a with
  | start n => exact sound_start hsound hs
  | advertise n m d => exact sound_advertise hsound hs
  | handle n msg => exact sound_handle hsymm hsound hs

/-- The next hop of a route. -/
theorem Sound.nextHop (h : Sound way s) {n d : HostIndex} (hne : d ≠ n) (hc : s.cost n d ≠ 0) :
    ∃ g, s.NextHop d n g ∧ Linked way n g ∧ (g = d ∨ s.cost g d ≠ 0 ∧ s.cost g d < s.cost n d) := by
  unfold RouteNet.NextHop Router.hostreachable
  simp only [hostIndex_hostNum, h.num]
  rcases (h.entry n d hc).gateway with ⟨hg, hl⟩ | ⟨g, hg, hl, h0, hlt⟩
  · refine ⟨d, ?_, hl.resolve_left hne, Or.inl rfl⟩
    have hpos := hostNum_pos n
    rw [if_pos (by unfold infiniteRoute; omega), if_pos hg]
  · refine ⟨g, ?_, hl, Or.inr ⟨h0, hlt⟩⟩
    have hpos := hostNum_pos g
    have hgn : hostNum g ≠ hostNum n := by
      intro he
      rw [hostNum_injective he] at hlt
      exact absurd hlt (Nat.lt_irrefl _)
    rw [if_pos (by unfold infiniteRoute; omega), hg, if_neg hgn]

end RoutingAux

open RoutingAux

/-- On every fixed symmetric topology, after any exchange of routes: the cost of a route bounds the distance, its next hop is a
neighbour that is the destination or knows a cheaper route, and following the next hops comes to the destination within the
cost. -/
theorem routes_sound {way : HostIndex → HostIndex → Int} (hsymm : ∀ i j, Linked way i j → Linked way j i) {s : RouteNet}
    (h : Reach RouteNet.step anyStep (RouteNet.init way) s) {n d : HostIndex} (hne : d ≠ n) (hc : s.cost n d ≠ 0) :
    Within (Linked way) d (s.cost n d) n ∧
      (∃ g, s.NextHop d n g ∧ Linked way n g ∧ (g = d ∨ s.cost g d ≠ 0 ∧ s.cost g d < s.cost n d)) ∧
      ∃ k ≤ s.cost n d, Follows (s.NextHop d) d k n := by
  have hsound := reach_sound hsymm h
  refine ⟨(hsound.entry n d hc).within, hsound.nextHop hne hc, ?_⟩
  refine follows_of_decreasing (fun m => s.cost m d) ?_ hc
  intro m hm hcm
  obtain ⟨g, hg, -, hlt⟩ := hsound.nextHop (Ne.symm hm) hcm
  exact ⟨g, hg, hlt⟩

/-- The six hosts in a line. -/
def lineWay : HostIndex → HostIndex → Int := fun i j => if i.val + 1 = j.val ∨ j.val + 1 = i.val then 576 else -1

/-- Host 2 fills in its neighbours and tells host 1 of host 3. -/
def lineRun : List RouteAction := [.start 1, .advertise 1 0 2, .handle 0 ⟨3, 2, 2⟩]

/-- Host 1 then has a route of cost 2 to host 3, and it leads there. -/
theorem line_route_sound :
    ∃ s, exec RouteNet.step (RouteNet.init lineWay) lineRun = some s ∧ s.cost 0 2 = 2 ∧
      Within (Linked lineWay) 2 (s.cost 0 2) 0 ∧
      (∃ g, s.NextHop 2 0 g ∧ Linked lineWay 0 g ∧ (g = 2 ∨ s.cost g 2 ≠ 0 ∧ s.cost g 2 < s.cost 0 2)) ∧
      ∃ k ≤ s.cost 0 2, Follows (s.NextHop 2) 2 k 0 := by
  have hsymm : ∀ i j, Linked lineWay i j → Linked lineWay j i := by
    unfold Linked lineWay
    decide
  obtain ⟨s, hs⟩ : ∃ s, exec RouteNet.step (RouteNet.init lineWay) lineRun = some s :=
    Option.isSome_iff_exists.1 (by decide)
  have hcost : (exec RouteNet.step (RouteNet.init lineWay) lineRun).map (fun s => s.cost 0 2) = some 2 := by decide
  rw [hs] at hcost
  have hc : s.cost 0 2 = 2 := Option.some.inj hcost
  exact ⟨s, hs, hc, routes_sound hsymm (reach_anyStep_of_exec hs) (by decide) (by rw [hc]; decide)⟩

end NetworkLayers
