import NetworkLayers.Theorems.Stack
import NetworkLayers.Theorems.FixedLinks

/-!
# A packet can always still arrive

While no link is switched, nothing that has happened on the way of other packets keeps a packet from its destination: the send
queues can be emptied, and from hop to hop the routes get cheaper.
-/

namespace NetworkLayers

open Transition RoutingAux StackAux

namespace StackAux

open GarbledLinkAux WholeAux

variable {t : Topology} {s s' s'' : Stack} {r r' : SwitchNet} {n d : HostIndex}

/-! ## The routes stay sound -/

/-- The nodes know sound routes, and `internalsendroute` is at a neighbour. -/
structure SoundSwitch (t : Topology) (r : SwitchNet) : Prop where
  sound : Sound t.links r.net
  current : ∀ n j, r.current n = some j → r.net.started n = true ∧ (r.net.routers n).neighbors j = 1

theorem linked_symm (t : Topology) (i j : HostIndex) (h : Linked t.links i j) : Linked t.links j i := by
  unfold Linked at h ⊢
  rwa [t.symm j i]

/-- The neighbours stay what they are. -/
theorem SoundSwitch.of_net {net : RouteNet} (h : SoundSwitch t r) (hsound : Sound t.links net)
    (hstarted : ∀ n, r.net.started n = true → net.started n = true) {current : HostIndex → Option HostIndex} {held : List Nat}
    (hcurrent : ∀ n j, current n = some j → r.current n = some j ∨ net.started n = true ∧ (net.routers n).neighbors j = 1) :
    SoundSwitch t { net := net, current := current, held := held } := by
  refine ⟨hsound, fun n j hj => ?_⟩
  rcases hcurrent n j hj with hold | hnew
  · obtain ⟨hs, hn⟩ := h.current n j hold
    refine ⟨hstarted n hs, ?_⟩
    rw [hsound.neighbors, ← h.sound.neighbors]
    exact hn
  · exact hnew

theorem soundSwitch_step (h : SoundSwitch t r) {b : SwitchAction} (hb : b.KeepsLinks) (hs : r.step b = some r') :
    SoundSwitch t r' := by
  cases b with
  | start n =>
    obtain ⟨net, hnet, rfl⟩ := Option.map_eq_some_iff.1 hs
    refine h.of_net (sound_start h.sound hnet) ?_ fun m j hj => Or.inl hj
    simp only [RouteNet.step] at hnet
    split at hnet
    · cases hnet
    · obtain rfl := Option.some.inj hnet
      intro m hm
      by_cases hmn : m = n
      · rw [hmn]
        exact Function.update_self ..
      · exact (Function.update_of_ne hmn ..).trans hm
  | neighbor n current =>
    simp only [SwitchNet.step] at hs
    split at hs
    · rename_i hcond
      obtain rfl := Option.some.inj hs
      refine h.of_net h.sound (fun _ hm => hm) fun m j hj => ?_
      by_cases hm : m = n
      · subst hm
        rw [Function.update_self] at hj
        obtain rfl := Option.some.inj hj
        exact Or.inr hcond
      · rw [Function.update_of_ne hm] at hj
        exact Or.inl hj
    · cases hs
  | advertise n numberhost =>
    simp only [SwitchNet.step] at hs
    split at hs
    · cases hs
    · rename_i current hcurrent
      obtain ⟨msg, hmsg, rfl⟩ := Option.map_eq_some_iff.1 hs
      have hnet : r.net.step (.advertise n current numberhost) =
          some { r.net with wire := (current, msg) :: r.net.wire } := by
        simp only [RouteNet.step, if_pos (h.current n current hcurrent), hmsg, Option.map_some]
      exact h.of_net (sound_advertise h.sound hnet) (fun _ hm => hm) fun m j hj => Or.inl hj
  | handle n msg =>
    obtain ⟨net, hnet, rfl⟩ := Option.map_eq_some_iff.1 hs
    refine h.of_net (sound_handle (linked_symm t) h.sound hnet) ?_ fun m j hj => Or.inl hj
    simp only [RouteNet.step] at hnet
    split at hnet
    · obtain ⟨router, -, rfl⟩ := Option.map_eq_some_iff.1 hnet
      exact fun _ hm => hm
    · cases hnet
  | enableRoute n host => exact hb.elim
  | disableRoute n host => exact hb.elim

theorem soundSwitch_init (t : Topology) : SoundSwitch t (SwitchNet.init t.links) :=
  ⟨sound_init t.links, fun _ _ hj => by cases hj⟩

/-- The hosts follow nodes with sound routes. -/
def FollowsSound (t : Topology) (s : Stack) (r : SwitchNet) : Prop := Refines t s r ∧ SoundSwitch t r

/-- While no link is switched, they do. -/
theorem exists_sound {bufRcv : HostIndex → List Byte} (hbuf : ∀ n, (bufRcv n).length = t.getMaxMtu.toNat)
    (h : Reach (Stack.step t) (fun _ a => a.Fits t ∧ a.KeepsLinks) (Stack.init t bufRcv) s) : ∃ r, FollowsSound t s r := by
  have h0 : FollowsSound t (Stack.init t bufRcv) (SwitchNet.init t.links) := ⟨refines_init hbuf, soundSwitch_init t⟩
  have hstep : ∀ s a s' r, FollowsSound t s r → a.Fits t ∧ a.KeepsLinks → s.step t a = some s' →
      FollowsSound t s' r ∨ ∃ b r', SwitchNet.step r b = some r' ∧ FollowsSound t s' r' := by
    intro s a s' r hr hok hs
    rcases refines_step hr.1 hok.1 hs with hsame | ⟨b, r', hb, hr', hkeeps⟩
    · exact Or.inl ⟨hsame, hr.2⟩
    · exact Or.inr ⟨b, r', hb, hr', soundSwitch_step hr.2 (hkeeps hok.2) hb⟩
  obtain ⟨r, -, hr⟩ := h.simulate h0 hstep
  exact ⟨r, hr⟩

/-! ## Sending and receiving alone -/

/-- A round of `internalsend` or `internalrecv`. -/
def Moves : StackAction → Prop
  | .internalsend .. | .internalrecv .. => True
  | _ => False

theorem fits_of_moves {a : StackAction} (h : Moves a) : a.Fits t ∧ a.KeepsLinks := by
  cases a with
  | internalsend n draws | internalrecv n datagram => exact ⟨trivial, trivial⟩
  | _ => exact h.elim

/-- From one state to another by `internalsend` and `internalrecv` alone. -/
structure Goes (t : Topology) (s s' : Stack) : Prop where
  run : ∃ as, exec (Stack.step t) s as = some s' ∧ ∀ a ∈ as, Moves a
  garbler : ∀ n, (s'.hosts n).garbler = (s.hosts n).garbler
  accepted : s'.accepted = s.accepted

theorem Goes.refl (s : Stack) : Goes t s s := ⟨⟨[], rfl, by simp⟩, fun _ => rfl, rfl⟩

theorem Goes.trans (h : Goes t s s') (h' : Goes t s' s'') : Goes t s s'' := by
  obtain ⟨as, has, hok⟩ := h.run
  obtain ⟨bs, hbs, hok'⟩ := h'.run
  refine ⟨⟨as ++ bs, by rw [exec_append, has, Option.bind_some, hbs], ?_⟩, fun n => (h'.garbler n).trans (h.garbler n),
    h'.accepted.trans h.accepted⟩
  intro a ha
  rcases List.mem_append.1 ha with ha | ha
  · exact hok a ha
  · exact hok' a ha

theorem Goes.of_step {a : StackAction} (ha : Moves a) (hs : s.step t a = some s')
    (hgarbler : ∀ n, (s'.hosts n).garbler = (s.hosts n).garbler) (haccepted : s'.accepted = s.accepted) : Goes t s s' :=
  ⟨⟨[a], by simp [exec, hs], by simpa using ha⟩, hgarbler, haccepted⟩

/-- A send queue can be emptied. -/
theorem exists_drained (h : Refines t s r) (n : HostIndex) :
    ∃ s', Goes t s s' ∧ Refines t s' r ∧ (s'.hosts n).waitList = [] ∧ s'.delivered = s.delivered ∧ s.udp ⊆ s'.udp := by
  induction hlen : (s.hosts n).waitList.length generalizing s with
  | zero => exact ⟨s, Goes.refl s, h, List.length_eq_zero_iff.1 hlen, rfl, List.Subset.refl _⟩
  | succ k ih =>
    obtain ⟨item, waitList, hlist⟩ := List.exists_cons_of_length_eq_add_one hlen
    obtain ⟨id, countId, -, -, hs⟩ := internalsend_eq h hlist []
    have h₁ := refines_internalsend h hs
    have hgoes := Goes.of_step (t := t) (a := .internalsend n []) trivial hs (garbler_setHost _ _ _ rfl) rfl
    obtain ⟨s', hgoes', hr', hempty, hdelivered, hudp⟩ := ih h₁ (by
      rw [hlist, List.length_cons, Nat.add_right_cancel_iff] at hlen
      simpa [Stack.setHost] using hlen)
    exact ⟨s', hgoes.trans hgoes', hr', hempty, hdelivered, fun p hp => hudp (List.mem_append_left _ hp)⟩

/-! ## From hop to hop -/

/-- The garbler may let a frame through. -/
def LetsThrough (g : Garbler) : Prop := g.loss + g.corruption < 100

/-- With the largest draw it does. -/
theorem copies_pos {g : Garbler} (hvalid : g.Valid) (hg : LetsThrough g) {frame : List Byte} (hudp : frame.length ≤ maxUdpSize)
    (rnd' : Nat) : 0 < g.copies frame 99 rnd' := by
  have hcorruption := hvalid.corruption
  unfold LetsThrough at hg
  have hdraw : ((99 : Nat) : Int) % 100 = 99 := by decide
  have hlost : ¬(99 : Int) < g.loss := by omega
  have hgarbled : ¬(99 : Int) < g.loss + g.corruption := by omega
  simp only [Garbler.copies, hdraw, if_neg (Nat.not_lt.2 hudp), if_neg hlost, if_neg hgarbled]
  split <;> decide

/-- The first item goes over its link. -/
theorem exists_sent (h : Refines t s r) {item : WaitListItem} {waitList : List WaitListItem}
    (hlist : (s.hosts n).waitList = item :: waitList) {g : HostIndex} (hnode : item.firstDestLink = hostNum g)
    (hlink : t.links n g ≠ -1) (hgarbler : LetsThrough (s.hosts n).garbler) (hudp : item.data.length + 32 ≤ maxUdpSize) :
    ∃ s' id datagram, Goes t s s' ∧ Refines t s' r ∧ s'.delivered = s.delivered ∧ (g, datagram) ∈ s'.udp ∧
      DatagramOk t s'.accepted r.net.wire g (whole item id) ∧
      CarriesData t.getMaxMtu.toNat datagram (some (buildsenddatagram (whole item id))) := by
  have hitem := (h.host n).items item (by rw [hlist]; exact List.mem_cons_self)
  obtain ⟨id, countId, hid, -, hs⟩ := internalsend_eq h hlist [(99, 0)]
  obtain ⟨hlen, hfit⟩ := frame_fits hitem hid hlink
  have hfits := fits_whole hitem hid
  have hlength := length_buildsenddatagram hfits
  have hsize : (whole item id).size = item.data.length := hitem.size
  have hsend : linkSend (t.links n g) (u64 ((whole item id).size + netHeaderSize)) = true := by
    obtain ⟨hmtu, -⟩ := hitem.links.over hlink
    have hrange := (t.range n g).resolve_left hlink
    have hle := hitem.links.le
    rw [hsize, u64_of_lt (by unfold netHeaderSize; omega)]
    unfold linkSend netHeaderSize
    rw [decide_eq_true_iff]
    omega
  have hframe : (buildsendframe (sendFrame (hostNum g) (buildsenddatagram (whole item id)))).length ≤ maxUdpSize := by
    rw [length_frame _ hlen, hlength, hsize]
    unfold netHeaderSize linkHeaderSize checksumSize
    omega
  obtain ⟨datagram, hmem, hcarries⟩ := exists_sendtoGarbled (s.hosts n).garbler (Nat.lt_trans (hostNum_lt g) (by decide)) hlen
    hfit (copies_pos (h.host n).garbler hgarbler hframe 0)
  refine ⟨_, id, datagram, Goes.of_step (a := .internalsend n [(99, 0)]) trivial hs (garbler_setHost _ _ _ rfl) rfl,
    refines_internalsend h hs, rfl, ?_, datagramOk_whole hitem hid hnode, hcarries⟩
  refine List.mem_append_right _ ?_
  simp only [StackHost.linkSends, hnode, hostIndex_hostNum, hsend, if_true]
  exact List.mem_map_of_mem hmem

/-- A datagram that carries a packet is received. -/
theorem exists_received (h : Refines t s r) {g : HostIndex} {datagram : List Byte} (hmem : (g, datagram) ∈ s.udp) {d : Datagram}
    (hcarries : CarriesData t.getMaxMtu.toNat datagram (some (buildsenddatagram d))) :
    ∃ s₁ f, Refines t s₁ r ∧ f.data = buildsenddatagram d ∧ f.size = f.data.length ∧
      s.step t (.internalrecv g datagram) = s₁.netRecv g f ∧ s₁.accepted = s.accepted ∧ s₁.delivered = s.delivered ∧
      (s₁.hosts g).waitList = (s.hosts g).waitList ∧ ∀ m, (s₁.hosts m).garbler = (s.hosts m).garbler := by
  obtain ⟨f, hf, hmap, hsize⟩ := hcarries (s.hosts g).bufRcv (h.host g).buffer
  obtain ⟨f, rfl, hdata⟩ := Option.map_eq_some_iff.1 hmap
  refine ⟨s.setHost g { s.hosts g with bufRcv := (recvfrom (s.hosts g).bufRcv datagram).1 }, f, ?_, hdata, hsize f rfl, ?_, rfl, rfl,
    ?_, garbler_setHost _ _ _ rfl⟩
  · exact h.setHost { h.host g with buffer := (length_recvfrom _ _).trans (h.host g).buffer } ⟨rfl, rfl, rfl⟩
  · simp only [Stack.step, if_pos hmem, hf]
  · simp [Stack.setHost]

/-- At its destination a packet is given to the transport layer. -/
theorem exists_handed_on (h : Refines t s r) {g : HostIndex} {datagram : List Byte} (hmem : (g, datagram) ∈ s.udp) {x : Datagram}
    (hx : DatagramOk t s.accepted r.net.wire g x) (hcarries : CarriesData t.getMaxMtu.toNat datagram (some (buildsenddatagram x)))
    (hown : x.dest = hostNum g) (hproto : x.protocol ≠ 0) :
    ∃ s', Goes t s s' ∧ s'.delivered = s.delivered ++ [⟨g, x.src, x.data.map some⟩] := by
  obtain ⟨s₁, f, h₁, hdata, hsize, hstep, haccepted, hdelivered, -, hgarbler⟩ := exists_received h hmem hcarries
  rcases netRecv_eq h₁ (haccepted ▸ hx) hdata hsize with ⟨hother, -⟩ | ⟨-, list, -, hrecv⟩
  · exact absurd hown hother
  · rw [if_neg hproto] at hrecv
    refine ⟨_, Goes.of_step (a := .internalrecv g datagram) trivial (hstep.trans hrecv) (fun m => ?_) haccepted, ?_⟩
    · exact (garbler_setHost s₁ g { s₁.hosts g with list := list } rfl m).trans (hgarbler m)
    · exact congrArg (· ++ _) hdelivered

/-- At another host that has a route and nothing to send it is queued again. -/
theorem exists_forwarded (h : Refines t s r) {g : HostIndex} {datagram : List Byte} (hmem : (g, datagram) ∈ s.udp) {x : Datagram}
    (hx : DatagramOk t s.accepted r.net.wire g x) (hcarries : CarriesData t.getMaxMtu.toNat datagram (some (buildsenddatagram x)))
    (hempty : (s.hosts g).waitList = []) (hother : x.dest ≠ hostNum g)
    (hreach : (r.net.routers g).hostreachable x.dest ≠ 0) :
    ∃ s', Goes t s s' ∧ Refines t s' r ∧ s'.delivered = s.delivered ∧
      (s'.hosts g).waitList = [resendItem ((r.net.routers g).hostreachable x.dest) (forwarded x)] := by
  obtain ⟨s₁, f, h₁, hdata, hsize, hstep, haccepted, hdelivered, hwait, hgarbler⟩ := exists_received h hmem hcarries
  rcases netRecv_eq h₁ (haccepted ▸ hx) hdata hsize with ⟨-, hrecv⟩ | ⟨hown, -⟩
  · have hresend : (s₁.hosts g).router.netResend (forwarded x) =
        some (resendItem ((r.net.routers g).hostreachable x.dest) (forwarded x)) := by
      have hforwarded : (forwarded x).dest = x.dest := rfl
      rw [Router.netResend, (h₁.routing g).1, hforwarded, if_pos hreach]
    generalize resendItem ((r.net.routers g).hostreachable x.dest) (forwarded x) = item at hresend ⊢
    have hroom : (s₁.hosts g).waitList.length < maxSendWaiting := by
      rw [hwait, hempty]
      decide
    simp only [hresend] at hrecv
    rw [Stack.insert, if_pos hroom, hwait, hempty, List.nil_append] at hrecv
    have hs := hstep.trans hrecv
    refine ⟨_, Goes.of_step (a := .internalrecv g datagram) trivial hs (fun m => ?_) haccepted,
      refines_internalrecv h hs, hdelivered, by simp [Stack.setHost]⟩
    exact (garbler_setHost s₁ g { s₁.hosts g with waitList := [item] } rfl m).trans (hgarbler m)
  · exact absurd hown hother

/-- The item of a packet of the transport layer with all it takes to go on from a host that knows a route. -/
structure GoesOn (s : Stack) (r : SwitchNet) (n d : HostIndex) (item : WaitListItem) : Prop where
  dest : item.dest = hostNum d
  other : d ≠ n
  protocol : item.protocol ≠ 0
  route : r.net.cost n d ≠ 0
  first : item.firstDestLink = (r.net.routers n).hostreachable (hostNum d)
  udp : item.data.length + 32 ≤ maxUdpSize
  garbler : ∀ m, LetsThrough (s.hosts m).garbler

/-- A packet that is alone in a send queue comes to its destination: the next hop is that, or the route from there is cheaper. -/
theorem exists_delivered (hsound : SoundSwitch t r) {item : WaitListItem} (h : Refines t s r)
    (hlist : (s.hosts n).waitList = [item]) (hgo : GoesOn s r n d item) :
    ∃ s', Goes t s s' ∧ s'.delivered = s.delivered ++ [⟨d, item.src, item.data.map some⟩] := by
  induction hk : r.net.cost n d using Nat.strong_induction_on generalizing s n item with
  | _ k ih =>
    obtain ⟨g, hnext, hlink, hg⟩ := hsound.sound.nextHop hgo.other hgo.route
    obtain ⟨s₁, id, datagram, hgoes₁, h₁, hdelivered₁, hmem₁, hok₁, hcarries⟩ :=
      exists_sent h hlist (hgo.first.trans hnext) hlink (hgo.garbler n) hgo.udp
    have hdest : (whole item id).dest = hostNum d := hgo.dest
    by_cases hgd : g = d
    · -- the last hop
      subst hgd
      obtain ⟨s₂, hgoes₂, hdelivered₂⟩ := exists_handed_on h₁ hmem₁ hok₁ hcarries hdest hgo.protocol
      exact ⟨s₂, hgoes₁.trans hgoes₂, by rw [hdelivered₂, hdelivered₁]; rfl⟩
    · -- the next hop empties its queue first
      obtain ⟨hc, hlt⟩ := hg.resolve_left hgd
      obtain ⟨s₂, hgoes₂, h₂, hempty, hdelivered₂, hudp₂⟩ := exists_drained h₁ g
      have hreach := FixedLinksAux.hostreachable_ne_zero hsound.sound hc
      obtain ⟨s₃, hgoes₃, h₃, hdelivered₃, hlist₃⟩ := exists_forwarded h₂ (hudp₂ hmem₁) (hgoes₂.accepted ▸ hok₁) hcarries hempty
        (fun hown => hgd (hostNum_injective (hown.symm.trans hdest))) (hdest ▸ hreach)
      have hgo₃ : GoesOn s₃ r g d (resendItem ((r.net.routers g).hostreachable (whole item id).dest) (forwarded (whole item id))) := by
        refine ⟨hdest, fun hdg => hgd hdg.symm, (by decide : ¬2 = 0), hc, ?_, hgo.udp, fun m => ?_⟩
        · rw [hdest]
          rfl
        · rw [hgoes₃.garbler m, hgoes₂.garbler m, hgoes₁.garbler m]
          exact hgo.garbler m
      obtain ⟨s', hgoes', hdelivered'⟩ := ih (r.net.cost g d) (hk ▸ hlt) h₃ hlist₃ hgo₃ rfl
      exact ⟨s', ((hgoes₁.trans hgoes₂).trans hgoes₃).trans hgoes', by rw [hdelivered', hdelivered₃, hdelivered₂, hdelivered₁]; rfl⟩

/-- What a transport layer passes on to an empty send queue goes on from there. -/
theorem exists_passed_on (h : Refines t s r) (hsound : SoundSwitch t r) (hempty : (s.hosts n).waitList = [])
    (hgarbler : ∀ m, LetsThrough (s.hosts m).garbler) (hne : d ≠ n) (hc : r.net.cost n d ≠ 0) {data : List Byte}
    (hudp : data.length + 32 ≤ maxUdpSize) :
    ∃ item s', s.step t (.netSend n (hostNum d) data) = some s' ∧ s'.accepted = s.accepted ++ [⟨n, hostNum d, data⟩] ∧
      s'.delivered = s.delivered ∧ (s'.hosts n).waitList = [item] ∧ GoesOn s' r n d item ∧ item.src = hostNum n ∧
      item.data = data := by
  have hrouter := (h.routing n).1
  have hreach := FixedLinksAux.hostreachable_ne_zero hsound.sound hc
  obtain ⟨item, hitem⟩ : ∃ item, (s.hosts n).router.netSend (hostNum d) data data.length 1 = some item := by
    rw [hrouter]
    simp only [Router.netSend, one_ne_zero, if_false, if_pos hreach]
    exact ⟨_, rfl⟩
  have hstep : s.step t (.netSend n (hostNum d) data) = some { s.setHost n { s.hosts n with waitList := [item] } with
      accepted := s.accepted ++ [⟨n, hostNum d, data⟩] } := by
    simp only [Stack.step, hitem, Stack.insert, hempty]
    rfl
  obtain ⟨hdest, hsrc, hdata, -, -, -, hproto⟩ := netSend_fields hitem
  have hfirst : item.firstDestLink = (r.net.routers n).hostreachable (hostNum d) := by
    rw [hrouter] at hitem
    simp only [Router.netSend, one_ne_zero, if_false, if_pos hreach, Option.some.injEq] at hitem
    rw [← hitem]
  have hsame := garbler_setHost s n { s.hosts n with waitList := [item] } rfl
  refine ⟨item, _, hstep, rfl, rfl, by simp [Stack.setHost], ⟨hdest, hne, by omega, hc, hfirst, hdata ▸ hudp, fun m => ?_⟩,
    hsrc.trans (h.num n), hdata⟩
  exact (hsame m).symm ▸ hgarbler m

end StackAux

open StackAux in
/-- From every state of every run that switches no link and in which every packet fits every link in one piece, whatever has been lost,
damaged, repeated or left lying: where a host knows a route and the garblers let anything through, its transport layer can pass on a
packet that fits every link in one piece and one datagram of UDP, and that of the destination be given it, and nothing else with it. -/
theorem stack_can_deliver {t : Topology} {bufRcv : HostIndex → List Byte} (hbuf : ∀ n, (bufRcv n).length = t.getMaxMtu.toNat)
    {s : Stack} (h : Reach (Stack.step t) (fun _ a => a.Fits t ∧ a.KeepsLinks) (Stack.init t bufRcv) s)
    (hgarbler : ∀ m, (s.hosts m).garbler.loss + (s.hosts m).garbler.corruption < 100) {n d : HostIndex} (hne : d ≠ n)
    (hroute : ((s.hosts n).router.routes d).cost ≠ 0) {data : List Byte} (hfit : FitsLinks t data.length)
    (hudp : data.length + 32 ≤ maxUdpSize) :
    ∃ as s', exec (Stack.step t) s as = some s' ∧ (∀ a ∈ as, a.Fits t ∧ a.KeepsLinks) ∧
      s'.accepted = s.accepted ++ [⟨n, hostNum d, data⟩] ∧
      s'.delivered = s.delivered ++ [⟨d, hostNum n, data.map some⟩] := by
  obtain ⟨r, hr, hsound⟩ := exists_sound hbuf h
  obtain ⟨s₁, hgoes₁, h₁, hempty, hdelivered₁, -⟩ := exists_drained hr n
  have hc : r.net.cost n d ≠ 0 := by
    unfold RouteNet.cost
    rwa [← (hr.routing n).1]
  have hgarbler₁ : ∀ m, LetsThrough (s₁.hosts m).garbler := by
    intro m
    rw [hgoes₁.garbler m]
    exact hgarbler m
  obtain ⟨item, s₂, hstep, haccepted, hdelivered₂, hlist, hgo, hsrc, hdata⟩ :=
    exists_passed_on h₁ hsound hempty hgarbler₁ hne hc hudp
  obtain ⟨s', hgoes', hdelivered'⟩ := exists_delivered hsound (refines_netSend h₁ hfit hstep) hlist hgo
  obtain ⟨as, has, hok⟩ := hgoes₁.run
  obtain ⟨bs, hbs, hok'⟩ := hgoes'.run
  refine ⟨as ++ .netSend n (hostNum d) data :: bs, s', ?_, ?_, ?_, ?_⟩
  · rw [exec_append, has, Option.bind_some, exec, hstep, Option.bind_some, hbs]
  · intro a ha
    rcases List.mem_append.1 ha with ha | ha
    · exact fits_of_moves (hok a ha)
    · rcases List.mem_cons.1 ha with rfl | ha
      · exact ⟨hfit, trivial⟩
      · exact fits_of_moves (hok' a ha)
  · rw [hgoes'.accepted, haccepted, hgoes₁.accepted]
  · rw [hdelivered', hdelivered₂, hdelivered₁, hsrc, hdata]

/-- Host 1 has lost a frame to a garbler that lets one in ten through as it is. -/
def lostFrameRun : List StackAction := [.start 0, .configGarbler 0 60 30 0, .netSend 0 2 [1], .internalsend 0 [(42, 0)]]

/-- Host 2 can still be given three bytes. -/
theorem three_bytes_can_arrive :
    ∃ s, exec (Stack.step shortLink) (Stack.init shortLink fun _ => List.replicate 40 0) lostFrameRun = some s ∧ s.udp = [] ∧
      ∃ as s', exec (Stack.step shortLink) s as = some s' ∧ (∀ a ∈ as, a.Fits shortLink ∧ a.KeepsLinks) ∧
        s'.accepted = s.accepted ++ [⟨0, 2, [7, 8, 9]⟩] ∧ s'.delivered = s.delivered ++ [⟨1, 1, [some 7, some 8, some 9]⟩] := by
  obtain ⟨s, hs⟩ : ∃ s, exec (Stack.step shortLink) (Stack.init shortLink fun _ => List.replicate 40 0) lostFrameRun = some s :=
    Option.isSome_iff_exists.1 (by decide +kernel)
  have hmap : (exec (Stack.step shortLink) (Stack.init shortLink fun _ => List.replicate 40 0) lostFrameRun).map
      (fun s => (s.udp, ((s.hosts 0).router.routes 1).cost,
        decide (∀ m, (s.hosts m).garbler.loss + (s.hosts m).garbler.corruption < 100))) = some ([], 1, true) := by decide +kernel
  rw [hs, Option.map_some, Option.some.injEq, Prod.mk.injEq, Prod.mk.injEq] at hmap
  obtain ⟨hudp, hroute, hgarbler⟩ := hmap
  have hreach : Reach (Stack.step shortLink) (fun _ a => a.Fits shortLink ∧ a.KeepsLinks)
      (Stack.init shortLink fun _ => List.replicate 40 0) s := reach_of_exec (along_of_forall (by decide +kernel)) hs
  have hfit : FitsLinks shortLink ([7, 8, 9] : List Byte).length := by decide +kernel
  exact ⟨s, hs, hudp, stack_can_deliver (n := 0) (d := 1) (fun _ => by rw [List.length_replicate]; decide +kernel) hreach
    (of_decide_eq_true hgarbler) (by decide) (by rw [hroute]; decide) hfit (by decide)⟩

end NetworkLayers
