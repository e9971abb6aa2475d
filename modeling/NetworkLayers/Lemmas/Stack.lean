import NetworkLayers.Lemmas.Whole
import NetworkLayers.Theorems.RouteEncoding
import NetworkLayers.Theorems.Neighbours

/-!
# What holds of the hosts and of all that is between them

Every item of a send queue, every datagram and every packet that is complete carries a route that was sent to the host, or data
that a transport layer has passed on for it. `Refines` says so beside the nodes of `Net.RouteSwitch`, which send routes by word of
mouth; every step of the hosts is one of theirs or none.
-/

namespace NetworkLayers

open Bytes Transition

/-- The condition on a step: what it passes to `net_send` goes over every link in one piece. -/
def StackAction.Fits (t : Topology) : StackAction → Prop
  | .netSend _ _ data => FitsLinks t data.length
  | .advertise _ _ => FitsLinks t 4
  | _ => True

instance StackAction.Fits.decidable (t : Topology) : ∀ a, Decidable (StackAction.Fits t a)
  | .netSend _ _ data => inferInstanceAs (Decidable (FitsLinks t data.length))
  | .advertise _ _ => inferInstanceAs (Decidable (FitsLinks t 4))
  | .configGarbler .. | .start _ | .neighbor .. | .internalsend .. | .internalrecv .. | .internalhandleroute .. | .enableRoute ..
  | .disableRoute .. => inferInstanceAs (Decidable True)

/-- The step switches no link. -/
def StackAction.KeepsLinks : StackAction → Prop
  | .enableRoute .. | .disableRoute .. => False
  | _ => True

instance StackAction.KeepsLinks.decidable : ∀ a, Decidable (StackAction.KeepsLinks a)
  | .enableRoute .. | .disableRoute .. => inferInstanceAs (Decidable False)
  | .configGarbler .. | .start _ | .neighbor .. | .advertise .. | .netSend .. | .internalsend .. | .internalrecv ..
  | .internalhandleroute .. => inferInstanceAs (Decidable True)

/-- A node of `Net.RouteSwitch` switches no link. -/
def SwitchAction.KeepsLinks : SwitchAction → Prop
  | .enableRoute .. | .disableRoute .. => False
  | _ => True

namespace StackAux

open GarbledLinkAux WholeAux

variable {t : Topology} {s s' : Stack} {r r' : SwitchNet} {acc acc' : List Accepted} {wire wire' : List (HostIndex × RouteTable)}
  {n : HostIndex}

/-! ## The numbers in the tables and on the wire -/

/-- The nodes and the entries of their tables have the numbers of their places, and a message on the wire names hosts. -/
structure Numbered (r : SwitchNet) : Prop where
  num : ∀ n, (r.net.routers n).num = hostNum n
  dest : ∀ n d, (r.route n d).dest = hostNum d
  wire : ∀ p ∈ r.net.wire, ∃ d g, p.2.dest = hostNum d ∧ p.2.gateway = hostNum g ∧ p.2.cost < 256

theorem changes_numbers {router : Router} (h : RouteEncodingAux.Changes r n router) :
    router.num = (r.net.routers n).num ∧ ∀ d, (router.routes d).dest = (r.route n d).dest := by
  have hset : ∀ (i : HostIndex) (cost gateway : Nat) (d : HostIndex),
      (((r.net.routers n).setRoute i cost gateway).routes d).dest = (r.route n d).dest := by
    intro i cost gateway d
    by_cases hd : d = i
    · subst hd
      simp [Router.setRoute, SwitchNet.route]
    · simp [Router.setRoute, SwitchNet.route, Function.update_of_ne hd]
  cases h with
  | start =>
    refine ⟨rfl, fun d => ?_⟩
    simp only [Router.startRoutes]
    split <;> rfl
  | enable host => exact ⟨rfl, hset host 1 (hostNum host)⟩
  | disable host =>
    refine ⟨rfl, fun d => ?_⟩
    simp only [Router.disableRoute]
    split <;> exact hset host infiniteRoute infiniteRoute d
  | handle msg router _ hrouter =>
    unfold Router.internalhandleroute at hrouter
    obtain ⟨i, -, rfl⟩ := Option.map_eq_some_iff.1 hrouter
    split
    · exact ⟨rfl, hset i msg.cost msg.gateway⟩
    · exact ⟨rfl, fun _ => rfl⟩

theorem numbered_init (way : HostIndex → HostIndex → Int) : Numbered (SwitchNet.init way) where
  num _ := rfl
  dest _ _ := rfl
  wire _ hp := (List.not_mem_nil hp).elim

theorem numbered_step (h : Numbered r) {b : SwitchAction} (hs : r.step b = some r') : Numbered r' := by
  rcases RouteEncodingAux.step_cases hs with ⟨n, router, hr, hrouters, hwire, -⟩ | ⟨hnet, -⟩ |
      ⟨n, d, current, -, -, hrouters, hwire, -⟩
  · obtain ⟨hnum, hdest⟩ := changes_numbers hr
    refine ⟨fun m => ?_, fun m d => ?_, by rw [hwire]; exact h.wire⟩
    · rw [hrouters]
      by_cases hm : m = n
      · subst hm
        rw [Function.update_self, hnum, h.num]
      · rw [Function.update_of_ne hm, h.num]
    · unfold SwitchNet.route
      rw [hrouters]
      by_cases hm : m = n
      · subst hm
        rw [Function.update_self, hdest, h.dest]
      · rw [Function.update_of_ne hm]
        exact h.dest m d
  · exact ⟨by rw [hnet]; exact h.num, by unfold SwitchNet.route; rw [hnet]; exact h.dest, by rw [hnet]; exact h.wire⟩
  · refine ⟨by rw [hrouters]; exact h.num, by unfold SwitchNet.route; rw [hrouters]; exact h.dest, ?_⟩
    rw [hwire]
    refine List.forall_mem_cons.2 ⟨⟨d, n, h.dest n d, h.num n, ?_⟩, h.wire⟩
    exact Nat.mod_lt _ (by decide)

theorem hostNum_lt (i : HostIndex) : hostNum i < 256 := by
  have := i.isLt
  simp only [maxHosts] at this
  simp only [hostNum]
  omega

/-- A message on the wire is written and read back as it is. -/
theorem Numbered.fits (h : Numbered r) {p : HostIndex × RouteTable} (hp : p ∈ r.net.wire) : FieldsFit p.2.fields := by
  obtain ⟨d, g, hd, hg, hcost⟩ := h.wire p hp
  have hd' := hostNum_lt d
  have hg' := hostNum_lt g
  simp only [FieldsFit, RouteTable.fields, List.forall_mem_cons, List.not_mem_nil, false_implies, implies_true, and_true]
  omega

/-! ## What is on its way -/

/-- Where data come from: a route on the wire to the host, or data accepted for the host. -/
inductive Origin (acc : List Accepted) (wire : List (HostIndex × RouteTable)) (protocol dest src : Nat) (data : List Byte) : Prop where
  | route (m j : HostIndex) (msg : RouteTable) : protocol = 0 → src = hostNum m → dest = hostNum j → data = msg.bytes →
      (j, msg) ∈ wire → Origin acc wire protocol dest src data
  | transport (m d : HostIndex) : protocol = 1 ∨ protocol = 2 → src = hostNum m → dest = hostNum d →
      ⟨m, dest, data⟩ ∈ acc → Origin acc wire protocol dest src data

/-- An item of a send queue is a whole packet; a route goes to its host directly. -/
structure ItemOk (t : Topology) (acc : List Accepted) (wire : List (HostIndex × RouteTable)) (item : WaitListItem) : Prop where
  offset : item.offset = 0
  size : item.size = item.data.length
  links : FitsLinks t item.data.length
  ttl : item.ttl < 256
  id : item.id < 65536
  origin : Origin acc wire item.protocol item.dest item.src item.data
  direct : item.protocol = 0 → item.firstDestLink = item.dest

/-- So is a datagram on its way to the host `j`. -/
structure DatagramOk (t : Topology) (acc : List Accepted) (wire : List (HostIndex × RouteTable)) (j : HostIndex) (d : Datagram) :
    Prop where
  fits : d.Fits
  frag : d.frag = 0
  links : FitsLinks t d.data.length
  origin : Origin acc wire d.protocol d.dest d.src d.data
  direct : d.protocol = 0 → d.dest = hostNum j

/-- What holds of a host between the steps: its fractions are valid, its buffer has the size of the largest frame, no packet is
incomplete, and the threads that wait to handle a route were given one that was sent to the host. -/
structure HostOk (t : Topology) (acc : List Accepted) (wire : List (HostIndex × RouteTable)) (n : HostIndex) (h : StackHost) :
    Prop where
  garbler : h.garbler.Valid
  buffer : h.bufRcv.length = t.getMaxMtu.toNat
  countId : h.countId < 65536
  packs : h.list.packs = []
  items : ∀ item ∈ h.waitList, ItemOk t acc wire item
  threads : ∀ param ∈ h.routeThreads, ∃ msg, param = msg.bytes.map some ∧ (n, msg) ∈ wire

/-- The nodes of `Net.RouteSwitch` that the hosts follow: the same tables, and all that is on its way is on their wire or was
accepted. -/
structure Refines (t : Topology) (s : Stack) (r : SwitchNet) : Prop where
  numbered : Numbered r
  routing : ∀ n, (s.hosts n).router = r.net.routers n ∧ (s.hosts n).started = r.net.started n ∧ (s.hosts n).current = r.current n
  host : ∀ n, HostOk t s.accepted r.net.wire n (s.hosts n)
  udp : ∀ p ∈ s.udp, ∃ o, CarriesData t.getMaxMtu.toNat p.2 o ∧
    ∀ data ∈ o, ∃ d, data = buildsenddatagram d ∧ DatagramOk t s.accepted r.net.wire p.1 d
  delivered : ∀ x ∈ s.delivered, ∃ m data, x.src = hostNum m ∧ x.data = data.map some ∧ ⟨m, hostNum x.host, data⟩ ∈ s.accepted

theorem Origin.mono {protocol dest src : Nat} {data : List Byte} (hacc : acc ⊆ acc') (hwire : wire ⊆ wire')
    (h : Origin acc wire protocol dest src data) : Origin acc' wire' protocol dest src data := by
  cases h with
  | route m j msg hp hsrc hdest hdata hmem => exact .route m j msg hp hsrc hdest hdata (hwire hmem)
  | transport m d hp hsrc hdest hmem => exact .transport m d hp hsrc hdest (hacc hmem)

theorem ItemOk.mono {item : WaitListItem} (hacc : acc ⊆ acc') (hwire : wire ⊆ wire') (h : ItemOk t acc wire item) :
    ItemOk t acc' wire' item :=
  { h with origin := h.origin.mono hacc hwire }

theorem DatagramOk.mono {d : Datagram} (hacc : acc ⊆ acc') (hwire : wire ⊆ wire') (h : DatagramOk t acc wire n d) :
    DatagramOk t acc' wire' n d :=
  { h with origin := h.origin.mono hacc hwire }

theorem HostOk.mono {h : StackHost} (hacc : acc ⊆ acc') (hwire : wire ⊆ wire') (hok : HostOk t acc wire n h) :
    HostOk t acc' wire' n h where
  garbler := hok.garbler
  buffer := hok.buffer
  countId := hok.countId
  packs := hok.packs
  items item hitem := (hok.items item hitem).mono hacc hwire
  threads param hparam := by
    obtain ⟨msg, hmsg, hmem⟩ := hok.threads param hparam
    exact ⟨msg, hmsg, hwire hmem⟩

/-- A packet names the host it comes from and the one it goes to, and its protocol is one of three. -/
theorem Origin.named {protocol dest src : Nat} {data : List Byte} (h : Origin acc wire protocol dest src data) :
    protocol ≤ 2 ∧ (∃ d : HostIndex, dest = hostNum d) ∧ ∃ m : HostIndex, src = hostNum m := by
  cases h with
  | route m j msg hp hsrc hdest _ _ => exact ⟨by omega, ⟨j, hdest⟩, ⟨m, hsrc⟩⟩
  | transport m d hp hsrc hdest _ => exact ⟨by omega, ⟨d, hdest⟩, ⟨m, hsrc⟩⟩

/-! ## Changes that the rest does not see -/

/-- More is accepted and sent by word of mouth. -/
theorem Refines.grow (h : Refines t s r) (acc' : List Accepted) (hacc : s.accepted ⊆ acc') (hnum : Numbered r')
    (hr : r'.net.routers = r.net.routers ∧ r'.net.started = r.net.started ∧ r'.current = r.current)
    (hwire : r.net.wire ⊆ r'.net.wire) : Refines t { s with accepted := acc' } r' where
  numbered := hnum
  routing m := by
    rw [hr.1, hr.2.1, hr.2.2]
    exact h.routing m
  host m := (h.host m).mono hacc hwire
  udp p hp := by
    obtain ⟨o, ho, hdata⟩ := h.udp p hp
    refine ⟨o, ho, fun data hd => ?_⟩
    obtain ⟨d, hbuild, hok⟩ := hdata data hd
    exact ⟨d, hbuild, hok.mono hacc hwire⟩
  delivered x hx := by
    obtain ⟨m, data, hsrc, hdata, hmem⟩ := h.delivered x hx
    exact ⟨m, data, hsrc, hdata, hacc hmem⟩

/-- One host changes, and its node with it. -/
theorem Refines.routed (h : Refines t s r) (hnum : Numbered r') (hwire : r'.net.wire = r.net.wire) {host : StackHost}
    (hok : HostOk t s.accepted r.net.wire n host)
    (hself : host.router = r'.net.routers n ∧ host.started = r'.net.started n ∧ host.current = r'.current n)
    (hother : ∀ m, m ≠ n →
      r'.net.routers m = r.net.routers m ∧ r'.net.started m = r.net.started m ∧ r'.current m = r.current m) :
    Refines t (s.setHost n host) r' where
  numbered := hnum
  routing m := by
    by_cases hm : m = n
    · subst hm
      simp only [Stack.setHost, Function.update_self]
      exact hself
    · simp only [Stack.setHost, Function.update_of_ne hm, hother m hm]
      exact h.routing m
  host m := by
    rw [hwire]
    by_cases hm : m = n
    · subst hm
      simp only [Stack.setHost, Function.update_self]
      exact hok
    · simp only [Stack.setHost, Function.update_of_ne hm]
      exact h.host m
  udp := by
    rw [hwire]
    exact h.udp
  delivered := h.delivered

/-- One host changes, but for its routing. -/
theorem Refines.setHost (h : Refines t s r) {host : StackHost} (hok : HostOk t s.accepted r.net.wire n host)
    (hsame : host.router = (s.hosts n).router ∧ host.started = (s.hosts n).started ∧ host.current = (s.hosts n).current) :
    Refines t (s.setHost n host) r := by
  refine h.routed h.numbered rfl hok ?_ fun _ _ => ⟨rfl, rfl, rfl⟩
  rw [hsame.1, hsame.2.1, hsame.2.2]
  exact h.routing n

theorem Refines.insert (h : Refines t s r) {item : WaitListItem} (hitem : ItemOk t s.accepted r.net.wire item)
    (hs : s.insert n item = some s') : Refines t s' r := by
  unfold Stack.insert at hs
  split at hs
  · obtain rfl := Option.some.inj hs
    refine h.setHost { h.host n with items := ?_ } ⟨rfl, rfl, rfl⟩
    intro x hx
    rcases List.mem_append.1 hx with hx | hx
    · exact (h.host n).items x hx
    · rw [List.mem_singleton.1 hx]
      exact hitem
  · cases hs

theorem Refines.num (h : Refines t s r) (n : HostIndex) : (s.hosts n).router.num = hostNum n := by
  rw [(h.routing n).1, h.numbered.num]

/-! ## Items that are queued -/

/-- What `net_send` queues. -/
theorem itemOk_netSend {router : Router} {dest protocol : Nat} {data : List Byte} {item : WaitListItem}
    (hitem : router.netSend dest data data.length protocol = some item) (hlinks : FitsLinks t data.length)
    (horigin : Origin acc wire protocol dest router.num data) : ItemOk t acc wire item := by
  simp only [Router.netSend] at hitem
  generalize hnode : (if protocol = 0 then dest else router.hostreachable dest) = node at hitem
  split at hitem
  · obtain rfl := Option.some.inj hitem
    exact ⟨rfl, rfl, hlinks, (by decide : ttlInit < 256), (by decide : 0 < 65536), horigin, fun hp => by
      rw [← hnode]
      exact if_pos hp⟩
  · cases hitem

/-- What `net_resend` queues for a datagram of another host. -/
theorem itemOk_netResend {router : Router} {d : Datagram} {j : HostIndex} {item : WaitListItem} (hd : DatagramOk t acc wire j d)
    (hother : d.dest ≠ hostNum j) (hitem : router.netResend (forwarded d) = some item) : ItemOk t acc wire item := by
  simp only [Router.netResend] at hitem
  split at hitem
  · obtain rfl := Option.some.inj hitem
    refine ⟨hd.frag, hd.fits.data.symm, hd.links, Nat.mod_lt _ (by decide), hd.fits.fields (2, d.id) (by simp [Datagram.header]), ?_,
      fun h => absurd h (by decide : ¬2 = 0)⟩
    cases hd.origin with
    | route _ _ _ hp _ _ _ _ => exact absurd (hd.direct hp) hother
    | transport m e _ hsrc hdest hmem => exact .transport m e (Or.inr rfl) hsrc hdest hmem
  · cases hitem

/-- A destination that can be reached is a host. -/
theorem exists_hostNum_of_netSend {router : Router} {dest : Nat} {data : List Byte} {item : WaitListItem}
    (hitem : router.netSend dest data data.length 1 = some item) : ∃ d, dest = hostNum d := by
  simp only [Router.netSend, one_ne_zero, if_false] at hitem
  cases hd : hostIndex dest with
  | some d => exact ⟨d, NeighbourAux.hostIndex_eq_some_iff.1 hd⟩
  | none => simp [Router.hostreachable, hd] at hitem

/-- The transport layer passes data on. -/
theorem refines_netSend (h : Refines t s r) {dest : Nat} {data : List Byte} (hfit : FitsLinks t data.length)
    (hs : s.step t (.netSend n dest data) = some s') : Refines t s' r := by
  simp only [Stack.step] at hs
  split at hs
  · obtain rfl := Option.some.inj hs
    exact h
  · rename_i item hitem
    obtain ⟨s₁, hinsert, rfl⟩ := Option.map_eq_some_iff.1 hs
    obtain ⟨d, rfl⟩ := exists_hostNum_of_netSend hitem
    -- what is accepted can be noted before the item is queued
    have hgrown : Refines t { s with accepted := s.accepted ++ [⟨n, hostNum d, data⟩] } r :=
      h.grow _ (List.subset_append_left _ _) h.numbered ⟨rfl, rfl, rfl⟩ (List.Subset.refl _)
    have hitem' : ItemOk t (s.accepted ++ [⟨n, hostNum d, data⟩]) r.net.wire item :=
      itemOk_netSend hitem hfit (.transport n d (Or.inl rfl) (h.num n) rfl (by simp))
    refine hgrown.insert (n := n) hitem' ?_
    unfold Stack.insert at hinsert ⊢
    split at hinsert
    · rename_i hroom
      obtain rfl := Option.some.inj hinsert
      rw [if_pos hroom]
      rfl
    · cases hinsert

/-- A route is sent to a neighbour. -/
theorem refines_advertise (h : Refines t s r) {numberhost : HostIndex} (hfit : FitsLinks t 4)
    (hs : s.step t (.advertise n numberhost) = some s') :
    ∃ r', r.step (.advertise n numberhost) = some r' ∧ Refines t s' r' := by
  obtain ⟨hrouter, -, hcurrent⟩ := h.routing n
  simp only [Stack.step] at hs
  split at hs
  · cases hs
  · rename_i current hcur
    split at hs
    · cases hs
    · rename_i msg hmsg
      have hstep : r.step (.advertise n numberhost) =
          some { r with net := { r.net with wire := (current, msg) :: r.net.wire }
                        held := (r.route n numberhost).cost :: r.held } := by
        simp only [SwitchNet.step, ← hcurrent, hcur, ← hrouter, hmsg, Option.map_some]
      refine ⟨_, hstep, ?_⟩
      have hgrown := h.grow s.accepted (List.Subset.refl _) (numbered_step h.numbered hstep) ⟨rfl, rfl, rfl⟩
        (List.subset_cons_self _ _)
      split at hs
      · obtain rfl := Option.some.inj hs
        exact hgrown
      · rename_i item hitem
        refine hgrown.insert (n := n) (itemOk_netSend hitem (by rwa [length_routeBytes]) ?_) hs
        exact .route n current msg rfl (h.num n) rfl rfl List.mem_cons_self

/-! ## Sending -/

theorem fits_whole {item : WaitListItem} (hitem : ItemOk t acc wire item) {id : Nat} (hid : id < 65536) : (whole item id).Fits := by
  obtain ⟨hproto, ⟨d, hd⟩, ⟨m, hm⟩⟩ := hitem.origin.named
  have hd' := hostNum_lt d
  have hm' := hostNum_lt m
  have hle := hitem.links.le
  have hsize := hitem.size
  have httl := hitem.ttl
  refine ⟨?_, hsize.symm, ?_⟩
  · simp only [FieldsFit, Datagram.header, whole, List.forall_mem_cons, List.not_mem_nil, false_implies, implies_true, and_true]
    omega
  · show item.size + 20 < 18446744073709551616
    omega

/-- A round of `internalsend` takes the first item, and sends one datagram for it. -/
theorem internalsend_eq (h : Refines t s r) {item : WaitListItem} {waitList : List WaitListItem}
    (hlist : (s.hosts n).waitList = item :: waitList) (draws : List (Nat × Nat)) :
    ∃ id countId, id < 65536 ∧ countId < 65536 ∧ s.step t (.internalsend n draws) =
      some { s.setHost n { s.hosts n with waitList := waitList, countId := countId } with
             udp := s.udp ++ (s.hosts n).linkSends t n item.firstDestLink (whole item id) (draws.getD 0 (0, 0)) } := by
  have hitem := (h.host n).items item (by rw [hlist]; exact List.mem_cons_self)
  have hfit := hitem.links.getmtu n item.firstDestLink
  rw [← hitem.size] at hfit
  have hsend := internalsend_whole hitem.offset hitem.size hitem.origin.named.1 hfit (s.hosts n).countId
  have hcount := (h.host n).countId
  refine ⟨if item.protocol = 2 then item.id else (s.hosts n).countId,
    if item.protocol = 2 then (s.hosts n).countId else u16 ((s.hosts n).countId + 1), ?_, ?_, ?_⟩
  · split
    · exact hitem.id
    · exact hcount
  · split
    · exact hcount
    · exact Nat.mod_lt _ (by decide)
  · simp only [Stack.step, hlist, hsend, StackHost.sends, List.zipIdx_singleton, List.flatMap_singleton]

theorem datagramOk_whole {item : WaitListItem} (hitem : ItemOk t acc wire item) {id : Nat} (hid : id < 65536) {j : HostIndex}
    (hnode : item.firstDestLink = hostNum j) : DatagramOk t acc wire j (whole item id) :=
  ⟨fits_whole hitem hid, rfl, hitem.links, hitem.origin, fun hp => (hitem.direct hp).symm.trans hnode⟩

/-- The frame of a datagram that is sent whole fits the buffers. -/
theorem frame_fits {item : WaitListItem} (hitem : ItemOk t acc wire item) {id : Nat} (hid : id < 65536) {j : HostIndex}
    (hlink : t.links n j ≠ -1) :
    (buildsenddatagram (whole item id)).length + linkHeaderSize < 18446744073709551616 ∧
      (buildsenddatagram (whole item id)).length + linkHeaderSize + checksumSize ≤ t.getMaxMtu.toNat := by
  obtain ⟨-, hmax⟩ := hitem.links.over hlink
  have hle := hitem.links.le
  have hsize : (whole item id).size = item.data.length := hitem.size
  rw [length_buildsenddatagram (fits_whole hitem hid), hsize]
  unfold netHeaderSize linkHeaderSize checksumSize
  omega

/-- What UDP takes of a datagram carries it or nothing, to the host at the other end of the link. -/
theorem linkSends_ok {host : StackHost} {item : WaitListItem} (hitem : ItemOk t acc wire item) {id : Nat} (hid : id < 65536)
    {draw : Nat × Nat} {p : HostIndex × List Byte} (hp : p ∈ host.linkSends t n item.firstDestLink (whole item id) draw) :
    ∃ o, CarriesData t.getMaxMtu.toNat p.2 o ∧ ∀ data ∈ o, ∃ d, data = buildsenddatagram d ∧ DatagramOk t acc wire p.1 d := by
  unfold StackHost.linkSends at hp
  split at hp
  · cases hp
  · rename_i j hj
    split at hp
    · rename_i hsend
      obtain ⟨bytes, hbytes, rfl⟩ := List.mem_map.1 hp
      have hnode := NeighbourAux.hostIndex_eq_some_iff.1 hj
      have hlink := (LinkAux.lt_of_linkSend hsend).1
      obtain ⟨hlen, hfit⟩ := frame_fits (n := n) (j := j) hitem hid (by omega)
      rw [hnode] at hbytes
      obtain ⟨o, ho, hdata⟩ := mem_sendtoGarbled host.garbler (Nat.lt_trans (hostNum_lt j) (by decide)) hlen hfit hbytes
      exact ⟨o, ho, fun data hd => ⟨whole item id, hdata data hd, datagramOk_whole hitem hid hnode⟩⟩
    · cases hp

theorem refines_internalsend (h : Refines t s r) {draws : List (Nat × Nat)} (hs : s.step t (.internalsend n draws) = some s') :
    Refines t s' r := by
  cases hlist : (s.hosts n).waitList with
  | nil => simp [Stack.step, hlist] at hs
  | cons item waitList =>
    have hitems := (h.host n).items
    rw [hlist] at hitems
    obtain ⟨id, countId, hid, hcount, heq⟩ := internalsend_eq h hlist draws
    obtain rfl := Option.some.inj (heq.symm.trans hs)
    have hset : Refines t (s.setHost n { s.hosts n with waitList := waitList, countId := countId }) r :=
      h.setHost { h.host n with
        countId := hcount
        items := fun x hx => hitems x (List.mem_cons_of_mem item hx) } ⟨rfl, rfl, rfl⟩
    refine ⟨hset.numbered, hset.routing, hset.host, ?_, hset.delivered⟩
    intro p hp
    rcases List.mem_append.1 hp with hp | hp
    · exact h.udp p hp
    · exact linkSends_ok (hitems item List.mem_cons_self) hid hp

/-! ## Receiving -/

/-- What `internalrecv` makes of the frame of a datagram: one for another host is queued again where there is a route, and one for
the host is complete at once. -/
theorem netRecv_eq (h : Refines t s r) {d : Datagram} (hd : DatagramOk t s.accepted r.net.wire n d) {f : LinkFrame}
    (hdata : f.data = buildsenddatagram d) (hsize : f.size = f.data.length) :
    (d.dest ≠ hostNum n ∧ s.netRecv n f =
      match (s.hosts n).router.netResend (forwarded d) with
      | none => some s
      | some item => s.insert n item) ∨
    (d.dest = hostNum n ∧ ∃ list, list.packs = [] ∧ s.netRecv n f =
      if d.protocol = 0 then
        some (s.setHost n { s.hosts n with list := list, routeThreads := (s.hosts n).routeThreads ++ [d.data.map some] })
      else
        some { s.setHost n { s.hosts n with list := list } with
               delivered := s.delivered ++ [{ host := n, src := d.src, data := d.data.map some }] }) := by
  have hrcv : rcvDatagram f.data f.size = .ok ({ d with checksum := checksum d.body d.body.length }, 0) := by
    rw [hsize, hdata, length_buildsenddatagram hd.fits]
    exact CodecAux.rcvDatagram_build hd.fits
  by_cases hdest : d.dest = hostNum n
  · refine Or.inr ⟨hdest, ?_⟩
    obtain ⟨list, c, hnet, hpacks⟩ := netInternalrecv_whole (s.hosts n).router.num hd.fits hd.frag (h.host n).packs
      (hdest.trans (h.num n).symm) hdata hsize
    refine ⟨list, hpacks, ?_⟩
    have hown : ¬d.dest ≠ (s.hosts n).router.num := not_not.2 (hdest.trans (h.num n).symm)
    have hset : ∀ host host' : StackHost, (s.setHost n host).setHost n host' = s.setHost n host' := by
      intro host host'
      simp [Stack.setHost]
    have hself : ∀ host : StackHost, (s.setHost n host).hosts n = host := by
      intro host
      simp [Stack.setHost]
    simp only [Stack.netRecv, hrcv, true_and, if_neg hown, hnet, hset, hself]
    split
    · rfl
    · rename_i hproto
      have hforTransport : d.forTransport := by
        cases hd.origin with
        | route _ _ _ hp _ _ _ _ => exact absurd hp hproto
        | transport _ _ hp _ _ _ => exact hp
      rw [if_pos (by exact hforTransport)]
      rfl
  · refine Or.inl ⟨hdest, ?_⟩
    have hother : d.dest ≠ (s.hosts n).router.num := by rwa [h.num n]
    simp only [Stack.netRecv, hrcv, true_and, if_pos hother]
    rfl

theorem refines_netRecv (h : Refines t s r) {d : Datagram} (hd : DatagramOk t s.accepted r.net.wire n d) {f : LinkFrame}
    (hdata : f.data = buildsenddatagram d) (hsize : f.size = f.data.length) (hs : s.netRecv n f = some s') : Refines t s' r := by
  rcases netRecv_eq h hd hdata hsize with ⟨hother, heq⟩ | ⟨hdest, list, hpacks, heq⟩
  · rw [heq] at hs
    split at hs
    · obtain rfl := Option.some.inj hs
      exact h
    · rename_i item hitem
      exact h.insert (itemOk_netResend hd hother hitem) hs
  · rw [heq] at hs
    split at hs
    · -- a route for a thread of its own
      rename_i hproto
      obtain rfl := Option.some.inj hs
      refine h.setHost { h.host n with packs := hpacks, threads := ?_ } ⟨rfl, rfl, rfl⟩
      intro param hparam
      rcases List.mem_append.1 hparam with hold | hnew
      · exact (h.host n).threads param hold
      · cases hd.origin with
        | route _ j msg _ _ hj hmsg hmem =>
          obtain rfl := hostNum_injective (hj.symm.trans hdest)
          exact ⟨msg, (List.mem_singleton.1 hnew).trans (congrArg _ hmsg), hmem⟩
        | transport _ _ hp _ _ _ => omega
    · -- data for the transport layer
      rename_i hproto
      obtain rfl := Option.some.inj hs
      have hset : Refines t (s.setHost n { s.hosts n with list := list }) r :=
        h.setHost { h.host n with packs := hpacks } ⟨rfl, rfl, rfl⟩
      refine ⟨hset.numbered, hset.routing, hset.host, hset.udp, ?_⟩
      intro x hx
      rcases List.mem_append.1 hx with hx | hx
      · exact h.delivered x hx
      · obtain rfl := List.mem_singleton.1 hx
        cases hd.origin with
        | route _ _ _ hp _ _ _ _ => exact absurd hp hproto
        | transport m _ _ hsrc _ hmem => exact ⟨m, d.data, hsrc, rfl, by rwa [hdest] at hmem⟩

/-- What `internalrecv` of the link layer makes of a datagram: it drops it, or hands on the frame of one. -/
theorem internalrecv_eq (h : Refines t s r) {datagram : List Byte} (hmem : (n, datagram) ∈ s.udp) :
    ∃ s₁, s₁ = s.setHost n { s.hosts n with bufRcv := (recvfrom (s.hosts n).bufRcv datagram).1 } ∧ Refines t s₁ r ∧
      (s.step t (.internalrecv n datagram) = some s₁ ∨
        ∃ d f, DatagramOk t s₁.accepted r.net.wire n d ∧ f.data = buildsenddatagram d ∧ f.size = f.data.length ∧
          s.step t (.internalrecv n datagram) = s₁.netRecv n f) := by
  obtain ⟨o, ho, hdata⟩ := h.udp _ hmem
  obtain ⟨f, hf, hmap, hsize⟩ := ho (s.hosts n).bufRcv (h.host n).buffer
  refine ⟨_, rfl, h.setHost { h.host n with buffer := (length_recvfrom _ _).trans (h.host n).buffer } ⟨rfl, rfl, rfl⟩, ?_⟩
  cases f with
  | none => exact Or.inl (by simp only [Stack.step, if_pos hmem, hf])
  | some f =>
    obtain ⟨d, hbuild, hok⟩ := hdata f.data hmap.symm
    exact Or.inr ⟨d, f, hok, hbuild, hsize f rfl, by simp only [Stack.step, if_pos hmem, hf]⟩

theorem refines_internalrecv (h : Refines t s r) {datagram : List Byte} (hs : s.step t (.internalrecv n datagram) = some s') :
    Refines t s' r := by
  have hmem : (n, datagram) ∈ s.udp := by
    by_contra hmem
    simp only [Stack.step, if_neg hmem] at hs
    cases hs
  obtain ⟨s₁, -, h₁, hdrop | ⟨d, f, hd, hdata, hsize, heq⟩⟩ := internalrecv_eq h hmem
  · obtain rfl := Option.some.inj (hdrop.symm.trans hs)
    exact h₁
  · exact refines_netRecv h₁ hd hdata hsize (heq.symm.trans hs)

/-- A thread of `internalhandleroute` reads the route it was given, and its node handles it. -/
theorem refines_handle (h : Refines t s r) {param : List (Option Byte)} (hparam : param ∈ (s.hosts n).routeThreads) :
    ∃ msg s₁ r', s.step t (.internalhandleroute n param) = some s₁ ∧ r.step (.handle n msg) = some r' ∧ Refines t s₁ r' := by
  obtain ⟨msg, rfl, hmem⟩ := (h.host n).threads param hparam
  obtain ⟨hrouter, hstarted, hcurrent⟩ := h.routing n
  obtain ⟨d, -, hdest, -⟩ := h.numbered.wire _ hmem
  have hread := routereceived_bytes (h.numbered.fits hmem)
  obtain ⟨router, hhandle⟩ : ∃ router, (r.net.routers n).internalhandleroute msg = some router := by
    unfold Router.internalhandleroute
    rw [show msg.dest = hostNum d from hdest, hostIndex_hostNum]
    exact ⟨_, rfl⟩
  have hstep : r.step (.handle n msg) = some { r with net := r.net.setRouter n router } := by
    simp only [SwitchNet.step, RouteNet.step, if_pos hmem, hhandle, Option.map_some]
  have hown : s.step t (.internalhandleroute n (msg.bytes.map some)) =
      some (s.setHost n { s.hosts n with
        router := router
        routeThreads := (s.hosts n).routeThreads.erase (msg.bytes.map some) }) := by
    simp only [Stack.step, if_pos hparam, hread, hrouter, hhandle, Option.map_some]
  refine ⟨msg, _, _, hown, hstep, ?_⟩
  refine h.routed (numbered_step h.numbered hstep) rfl { h.host n with threads := ?_ } ⟨?_, hstarted, hcurrent⟩ ?_
  · exact fun x hx => (h.host n).threads x (List.mem_of_mem_erase hx)
  · simp [RouteNet.setRouter]
  · intro m hm
    simp [RouteNet.setRouter, Function.update_of_ne hm]

/-! ## Every step -/

/-- A node changes its own router. -/
theorem refines_router (h : Refines t s r) (router : Router) {host : StackHost} {b : SwitchAction} (hb : r.step b = some r')
    (hnet : r'.net.routers = Function.update r.net.routers n router ∧ r'.net.wire = r.net.wire ∧ r'.current = r.current)
    (hstarted : ∀ m, m ≠ n → r'.net.started m = r.net.started m) (hok : HostOk t s.accepted r.net.wire n host)
    (hhost : host.router = router ∧ host.started = r'.net.started n ∧ host.current = (s.hosts n).current) :
    Refines t (s.setHost n host) r' := by
  refine h.routed (numbered_step h.numbered hb) hnet.2.1 hok ⟨?_, hhost.2.1, ?_⟩ fun m hm => ⟨?_, hstarted m hm, ?_⟩
  · rw [hnet.1, Function.update_self, hhost.1]
  · rw [hnet.2.2, hhost.2.2, (h.routing n).2.2]
  · rw [hnet.1, Function.update_of_ne hm]
  · rw [hnet.2.2]

/-- Every step of the hosts that meets the condition is one of the nodes they follow, or none. -/
theorem refines_step (h : Refines t s r) {a : StackAction} (hok : a.Fits t) (hs : s.step t a = some s') :
    Refines t s' r ∨ ∃ b r', r.step b = some r' ∧ Refines t s' r' ∧ (a.KeepsLinks → b.KeepsLinks) := by
  cases a with
  | configGarbler n l c d =>
    obtain rfl := Option.some.inj hs
    exact Or.inl (h.setHost { h.host n with garbler := valid_setGarbler (h.host n).garbler l c d } ⟨rfl, rfl, rfl⟩)
  | start n =>
    obtain ⟨hrouter, hstarted, -⟩ := h.routing n
    simp only [Stack.step] at hs
    split at hs
    · cases hs
    · rename_i hnot
      obtain rfl := Option.some.inj hs
      have hstep : r.step (.start n) = some { r with
          net := { r.net.setRouter n (r.net.routers n).startRoutes with started := Function.update r.net.started n true } } := by
        simp only [SwitchNet.step, RouteNet.step, ← hstarted, if_neg hnot, Option.map_some]
      refine Or.inr ⟨_, _, hstep, refines_router h (r.net.routers n).startRoutes hstep ⟨rfl, rfl, rfl⟩ ?_
        { h.host n with } ⟨congrArg Router.startRoutes hrouter, ?_, rfl⟩, id⟩
      · intro m hm
        simp [Function.update_of_ne hm]
      · simp
  | neighbor n current =>
    obtain ⟨hrouter, hstarted, -⟩ := h.routing n
    simp only [Stack.step] at hs
    split at hs
    · rename_i hcond
      obtain rfl := Option.some.inj hs
      rw [hrouter, hstarted] at hcond
      have hstep : r.step (.neighbor n current) = some { r with current := Function.update r.current n (some current) } := by
        simp only [SwitchNet.step, if_pos hcond]
      refine Or.inr ⟨_, _, hstep, h.routed (numbered_step h.numbered hstep) rfl { h.host n with } ⟨hrouter, hstarted, ?_⟩ ?_, id⟩
      · simp
      · intro m hm
        simp [Function.update_of_ne hm]
    · cases hs
  | advertise n numberhost =>
    obtain ⟨r', hstep, hr'⟩ := refines_advertise h hok hs
    exact Or.inr ⟨_, r', hstep, hr', id⟩
  | netSend n dest data => exact Or.inl (refines_netSend h hok hs)
  | internalsend n draws => exact Or.inl (refines_internalsend h hs)
  | internalrecv n datagram => exact Or.inl (refines_internalrecv h hs)
  | internalhandleroute n param =>
    have hparam : param ∈ (s.hosts n).routeThreads := by
      by_contra hparam
      simp only [Stack.step, if_neg hparam] at hs
      cases hs
    obtain ⟨msg, s₁, r', hs₁, hstep, hr'⟩ := refines_handle h hparam
    obtain rfl := Option.some.inj (hs₁.symm.trans hs)
    exact Or.inr ⟨_, r', hstep, hr', fun _ => trivial⟩
  | enableRoute n host =>
    obtain ⟨hrouter, hstarted, -⟩ := h.routing n
    obtain rfl := Option.some.inj hs
    have hstep : r.step (.enableRoute n host) =
        some { r with net := r.net.setRouter n ((r.net.routers n).enableRoute host) } := rfl
    refine Or.inr ⟨_, _, hstep, refines_router h ((r.net.routers n).enableRoute host) hstep ⟨rfl, rfl, rfl⟩
      (fun _ _ => rfl) { h.host n with } ⟨?_, hstarted, rfl⟩, id⟩
    rw [hrouter]
  | disableRoute n host =>
    obtain ⟨hrouter, hstarted, -⟩ := h.routing n
    obtain rfl := Option.some.inj hs
    have hstep : r.step (.disableRoute n host) =
        some { r with net := r.net.setRouter n ((r.net.routers n).disableRoute host) } := rfl
    refine Or.inr ⟨_, _, hstep, refines_router h ((r.net.routers n).disableRoute host) hstep ⟨rfl, rfl, rfl⟩
      (fun _ _ => rfl) { h.host n with } ⟨?_, hstarted, rfl⟩, id⟩
    rw [hrouter]

theorem refines_init {bufRcv : HostIndex → List Byte} (hbuf : ∀ n, (bufRcv n).length = t.getMaxMtu.toNat) :
    Refines t (Stack.init t bufRcv) (SwitchNet.init t.links) where
  numbered := numbered_init t.links
  routing _ := ⟨rfl, rfl, rfl⟩
  host n :=
    { garbler := valid_init
      buffer := hbuf n
      countId := (by decide : 0 < 65536)
      packs := rfl
      items := fun _ hitem => (List.not_mem_nil hitem).elim
      threads := fun _ hparam => (List.not_mem_nil hparam).elim }
  udp _ hp := (List.not_mem_nil hp).elim
  delivered _ hx := (List.not_mem_nil hx).elim

/-! ## What a step leaves alone -/

/-- The fractions of the garblers stay, what is accepted stays, and what was delivered before comes first. -/
structure Leaves (s s' : Stack) : Prop where
  garbler : ∀ n, (s'.hosts n).garbler = (s.hosts n).garbler
  accepted : s'.accepted = s.accepted
  delivered : s.delivered <+: s'.delivered

/-- A host that changes keeps its garbler. -/
theorem garbler_setHost (s : Stack) (n : HostIndex) (host : StackHost) (h : host.garbler = (s.hosts n).garbler) (m : HostIndex) :
    ((s.setHost n host).hosts m).garbler = (s.hosts m).garbler := by
  by_cases hm : m = n
  · subst hm
    simp [Stack.setHost, h]
  · simp [Stack.setHost, Function.update_of_ne hm]

theorem leaves_setHost (s : Stack) (n : HostIndex) {host : StackHost} (h : host.garbler = (s.hosts n).garbler) :
    Leaves s (s.setHost n host) :=
  ⟨garbler_setHost s n host h, rfl, List.prefix_refl _⟩

theorem Leaves.trans {s'' : Stack} (h : Leaves s s') (h' : Leaves s' s'') : Leaves s s'' :=
  ⟨fun n => (h'.garbler n).trans (h.garbler n), h'.accepted.trans h.accepted, h.delivered.trans h'.delivered⟩

theorem leaves_insert {item : WaitListItem} (hs : s.insert n item = some s') : Leaves s s' := by
  unfold Stack.insert at hs
  split at hs
  · obtain rfl := Option.some.inj hs
    exact leaves_setHost s n rfl
  · cases hs

theorem leaves_netRecv {f : LinkFrame} (hs : s.netRecv n f = some s') : Leaves s s' := by
  unfold Stack.netRecv at hs
  split at hs
  · cases hs
  · split at hs
    · split at hs
      · obtain rfl := Option.some.inj hs
        exact ⟨fun _ => rfl, rfl, List.prefix_refl _⟩
      · exact leaves_insert hs
    · split at hs
      · cases hs
      · obtain rfl := Option.some.inj hs
        exact leaves_setHost s n rfl
      · rename_i list recv data _ _
        have hlist : Leaves s (s.setHost n { s.hosts n with list := list }) := leaves_setHost s n rfl
        simp only at hs
        split at hs
        · obtain rfl := Option.some.inj hs
          exact hlist.trans (leaves_setHost _ n rfl)
        · split at hs
          · obtain rfl := Option.some.inj hs
            exact ⟨hlist.garbler, hlist.accepted, List.prefix_append _ _⟩
          · obtain rfl := Option.some.inj hs
            exact hlist

/-- The step configures no garbler, and passes nothing on from a transport layer. -/
def Inner : StackAction → Prop
  | .configGarbler .. | .netSend .. => False
  | _ => True

theorem leaves_step {a : StackAction} (ha : Inner a) (hs : s.step t a = some s') : Leaves s s' := by
  cases a with
  | configGarbler n l c d | netSend n dest data => exact ha.elim
  | internalrecv n datagram =>
    simp only [Stack.step] at hs
    split at hs
    · have hbuf : Leaves s (s.setHost n { s.hosts n with bufRcv := (recvfrom (s.hosts n).bufRcv datagram).1 }) :=
        leaves_setHost s n rfl
      split at hs
      · cases hs
      · obtain rfl := Option.some.inj hs
        exact hbuf
      · exact hbuf.trans (leaves_netRecv hs)
    · cases hs
  | advertise n numberhost =>
    simp only [Stack.step] at hs
    split at hs
    · cases hs
    · split at hs
      · cases hs
      · split at hs
        · obtain rfl := Option.some.inj hs
          exact ⟨fun _ => rfl, rfl, List.prefix_refl _⟩
        · exact leaves_insert hs
  | internalsend n draws =>
    simp only [Stack.step] at hs
    split at hs
    · cases hs
    · split at hs
      · cases hs
      · obtain rfl := Option.some.inj hs
        exact ⟨garbler_setHost _ _ _ rfl, rfl, List.prefix_refl _⟩
  | internalhandleroute n param =>
    simp only [Stack.step] at hs
    split at hs
    · split at hs
      · cases hs
      · obtain ⟨_, _, rfl⟩ := Option.map_eq_some_iff.1 hs
        exact leaves_setHost s n rfl
    · cases hs
  | start n =>
    simp only [Stack.step] at hs
    split at hs
    · cases hs
    · obtain rfl := Option.some.inj hs
      exact leaves_setHost s n rfl
  | neighbor n current =>
    simp only [Stack.step] at hs
    split at hs
    · obtain rfl := Option.some.inj hs
      exact leaves_setHost s n rfl
    · cases hs
  | enableRoute n host | disableRoute n host =>
    obtain rfl := Option.some.inj hs
    exact leaves_setHost s n rfl

/-- What a transport layer passes on is accepted, where there is a route. -/
theorem netSend_leaves {dest : Nat} {data : List Byte} (hs : s.step t (.netSend n dest data) = some s') :
    (∀ m, (s'.hosts m).garbler = (s.hosts m).garbler) ∧ s'.delivered = s.delivered ∧
      (s'.accepted = s.accepted ∨ s'.accepted = s.accepted ++ [⟨n, dest, data⟩]) := by
  simp only [Stack.step] at hs
  split at hs
  · obtain rfl := Option.some.inj hs
    exact ⟨fun _ => rfl, rfl, Or.inl rfl⟩
  · obtain ⟨s₁, hs₁, rfl⟩ := Option.map_eq_some_iff.1 hs
    have hleaves := leaves_insert hs₁
    refine ⟨hleaves.garbler, ?_, Or.inr (congrArg (· ++ _) hleaves.accepted)⟩
    unfold Stack.insert at hs₁
    split at hs₁
    · obtain rfl := Option.some.inj hs₁
      rfl
    · cases hs₁

/-- Only a call of `net_send` adds to what is accepted, and what was delivered before comes first. -/
theorem accepted_step {a : StackAction} (hs : s.step t a = some s') :
    s.delivered <+: s'.delivered ∧ (s'.accepted = s.accepted ∨
      ∃ n dest data, a = .netSend n dest data ∧ s'.accepted = s.accepted ++ [⟨n, dest, data⟩]) := by
  by_cases ha : Inner a
  · have hleaves := leaves_step ha hs
    exact ⟨hleaves.delivered, Or.inl hleaves.accepted⟩
  · cases a with
    | netSend n dest data =>
      obtain ⟨-, hdelivered, hsame | hmore⟩ := netSend_leaves hs
      · exact ⟨hdelivered ▸ List.prefix_refl _, Or.inl hsame⟩
      · exact ⟨hdelivered ▸ List.prefix_refl _, Or.inr ⟨n, dest, data, rfl, hmore⟩⟩
    | configGarbler n l c d =>
      obtain rfl := Option.some.inj hs
      exact ⟨List.prefix_refl _, Or.inl rfl⟩
    | _ => exact absurd trivial ha

end StackAux

end NetworkLayers
