import NetworkLayers.Transport.Node
import NetworkLayers.Lemmas.Session

/-!
# The indices of the tables

What the threads of a node use as an index was checked when they were made: the parameter of a thread is a slot, and the segment of a
`seg_send_thread` comes from its service point. What comes from outside is used as it is: the `dest` of a segment, the `dest` of an
advertisement, the host of `enable_route` and `disable_route`, and the value of a call, which may be the one returned when all slots
are taken.
-/

namespace NetworkLayers

open Transition

namespace TableIndicesAux

open SessionAux

variable {s s' : Node} {a : NodeAction} {i : Slot} {point : Nat}

/-- The invariant: the indices that threads and waiting segments keep are those of slots, and what the application was given is one or
the value for an error. -/
structure Sound (s : Node) : Prop where
  threads : ∀ point ∈ s.threads, point < maxServicePoints
  packs : ∀ i p, s.servicePoints i = some p → ∀ k ∈ p.packs, k.segment.src = i.val
  segSends : ∀ t ∈ s.segSends, t.pack.segment.src < maxServicePoints
  waits : ∀ i pkt, s.waitBuff i = some pkt → pkt.segment.dest = i.val
  syncs : ∀ pkt ∈ s.syncs, pkt.segment.dest < maxServicePoints
  given : ∀ point ∈ s.given, point < maxServicePoints ∨ point = errorPoint

theorem sound_init (num : Nat) (way : HostIndex → Int) : Sound (Node.init num way) :=
  ⟨by simp [Node.init], fun i p hp => (by cases hp), by simp [Node.init], fun i pkt hpkt => (by cases hpkt), by simp [Node.init],
    by simp [Node.init]⟩

/-! ## Accesses -/

theorem exists_atPoint {f : Slot → Option Endpoint → Node} : (∃ s', s.atPoint point f = some s') ↔ point < maxServicePoints := by
  unfold Node.atPoint
  split
  · rename_i h
    exact iff_of_true ⟨_, rfl⟩ h
  · rename_i h
    exact iff_of_false (by simp) h

theorem atPoint_eq_some {f : Slot → Option Endpoint → Node} (h : s.atPoint point f = some s') :
    ∃ i : Slot, i.val = point ∧ s' = f i (s.servicePoints i) := by
  unfold Node.atPoint at h
  split at h
  · exact ⟨_, rfl, (Option.some.inj h).symm⟩
  · cases h

/-- What holds of every entry of a table holds when one is replaced. -/
theorem forall_update {α : Type*} {f : Slot → Option α} {P : Slot → α → Prop} (hf : ∀ j x, f j = some x → P j x)
    {v : Option α} (hv : ∀ x ∈ v, P i x) : ∀ j x, Function.update f i v j = some x → P j x := by
  intro j x hx
  by_cases hji : j = i
  · subst hji
    rw [Function.update_self] at hx
    exact hv x hx
  · rw [Function.update_of_ne hji] at hx
    exact hf j x hx

theorem Sound.setPoint (h : Sound s) {p : Option Endpoint} (hp : ∀ q ∈ p, ∀ k ∈ q.packs, k.segment.src = i.val) :
    Sound (s.setPoint i p) :=
  ⟨h.threads, forall_update h.packs hp, h.segSends, h.waits, h.syncs, h.given⟩

theorem Sound.setWait (h : Sound s) {pkt : Option Packet} (hpkt : ∀ x ∈ pkt, x.segment.dest = i.val) :
    Sound { s with waitBuff := Function.update s.waitBuff i pkt } :=
  ⟨h.threads, h.packs, h.segSends, forall_update h.waits hpkt, h.syncs, h.given⟩

/-- The segments of a service point come from its slot, also after an action. -/
theorem packs_act {p p' : Endpoint} (act : PointAction) {out : List Packet} (h : Sound s) (hp : s.servicePoints i = some p)
    (hact : p.act ⟨s.router.num, i⟩ act = some (p', out)) : ∀ k ∈ p'.packs, k.segment.src = i.val := by
  obtain ⟨new, hnew, hsrc⟩ := (act_does hact).packs
  intro k hk
  rw [hnew] at hk
  rcases List.mem_append.1 hk with hk | hk
  · exact h.packs i p hp k hk
  · exact (hsrc k hk).1

/-! ## One step -/

theorem sound_act {act : PointAction} (h : Sound s) (hs : s.act point act = some s') : Sound s' := by
  obtain ⟨i, -, rfl⟩ := atPoint_eq_some hs
  split
  · exact h
  · rename_i p' out hact
    obtain ⟨p, hp, hact⟩ := Option.bind_eq_some_iff.1 hact
    refine h.setPoint ?_
    rintro q ⟨⟩
    exact packs_act act h hp hact

theorem sound_alloc (h : Sound s) : Sound s.allocServicePoint := by
  unfold Node.allocServicePoint
  split
  · refine ⟨h.threads, h.packs, h.segSends, h.waits, h.syncs, ?_⟩
    exact List.forall_mem_append.2 ⟨h.given, by simp⟩
  · rename_i i _
    refine ⟨?_, forall_update h.packs ?_, h.segSends, forall_update h.waits (by simp), h.syncs, ?_⟩
    · exact List.forall_mem_append.2 ⟨h.threads, by simp⟩
    · rintro q ⟨⟩ k hk
      cases hk
    · exact List.forall_mem_append.2 ⟨h.given, by simp⟩

theorem sound_dalloc (h : Sound s) (hs : s.dallocServicePoint point = some s') : Sound s' := by
  obtain ⟨i, -, rfl⟩ := atPoint_eq_some hs
  split
  · exact h
  · rename_i p hp
    refine ⟨fun point hpoint => h.threads point (List.mem_of_mem_erase hpoint), forall_update h.packs (by simp), ?_,
      forall_update h.waits (by simp), h.syncs, h.given⟩
    refine List.forall_mem_append.2 ⟨h.segSends, fun t ht => ?_⟩
    rw [h.packs i p hp t.pack (List.mem_map_of_mem ht)]
    exact i.isLt

theorem sound_internalrecv {pkt : Packet} (h : Sound s) (hs : s.internalrecv pkt = some s') : Sound s' := by
  obtain ⟨i, hi, rfl⟩ := atPoint_eq_some hs
  split
  · refine h.setWait ?_
    rintro x ⟨⟩
    exact hi.symm
  · exact h

theorem sound_recvThread {rnd : Nat} (h : Sound s) (hs : s.recvThread point rnd = some s') : Sound s' := by
  obtain ⟨i, -, rfl⟩ := atPoint_eq_some hs
  split
  · rename_i p pkt hp hpkt
    have hset : Sound { s with waitBuff := Function.update s.waitBuff i none } := h.setWait (by simp)
    split
    · exact h
    · dsimp only
      split
      · -- the thread of a SYN or SYN+ACK keeps the segment of the slot
        refine ⟨h.threads, h.packs, h.segSends, hset.waits, ?_, h.given⟩
        refine List.forall_mem_append.2 ⟨h.syncs, fun x hx => ?_⟩
        obtain rfl := List.mem_singleton.1 hx
        rw [h.waits i x hpkt]
        exact i.isLt
      · split
        · exact hset
        · rename_i p' out hact
          refine hset.setPoint ?_
          rintro q ⟨⟩
          exact packs_act (.recvThread pkt rnd) h hp hact
  · exact h

theorem sound_syncThread {j rnd : Nat} (h : Sound s) (hs : s.syncThread j rnd = some s') : Sound s' := by
  unfold Node.syncThread at hs
  split at hs
  · cases hs
    exact h
  · rename_i pkt _
    obtain ⟨i, -, rfl⟩ := atPoint_eq_some hs
    split
    · exact h
    · rename_i p' out hact
      obtain ⟨p, hp, hact⟩ := Option.bind_eq_some_iff.1 hact
      have hset : Sound (s.setPoint i (some p')) := by
        refine h.setPoint ?_
        rintro q ⟨⟩
        exact packs_act (.recvThread pkt rnd) h hp hact
      exact ⟨h.threads, hset.packs, h.segSends, h.waits, fun x hx => h.syncs x (List.mem_of_mem_eraseIdx hx), h.given⟩

theorem sound_orphanThread {j : Nat} (h : Sound s) (hs : s.orphanThread j = some s') : Sound s' := by
  unfold Node.orphanThread at hs
  split at hs
  · cases hs
    exact h
  · rename_i t ht
    obtain ⟨i, hi, rfl⟩ := atPoint_eq_some hs
    refine ⟨h.threads, h.packs, ?_, h.waits, h.syncs, h.given⟩
    intro t' ht'
    rcases List.mem_or_eq_of_mem_set ht' with hmem | rfl
    · exact h.segSends t' hmem
    · have hpack : (t.orphaned (s.servicePoints i)).pack = t.pack := by
        unfold SegSend.orphaned
        split
        · rfl
        · split
          · rfl
          · split <;> rfl
      rw [hpack, ← hi]
      exact i.isLt

theorem sound_segSendThread {slot : Slot} {j : Nat} (h : Sound s) (hs : s.segSendThread slot j = some s') : Sound s' := by
  unfold Node.segSendThread at hs
  split at hs
  · cases hs
    exact h
  · exact sound_act h hs

theorem Sound.setRouter (h : Sound s) (router : Router) : Sound { s with router := router } :=
  ⟨h.threads, h.packs, h.segSends, h.waits, h.syncs, h.given⟩

theorem sound_switchRoute {host : Nat} {switch : Router → HostIndex → Router} (h : Sound s)
    (hs : s.switchRoute host switch = some s') : Sound s' := by
  obtain ⟨i, -, rfl⟩ := Option.map_eq_some_iff.1 hs
  exact h.setRouter _

/-- A step keeps the invariant. -/
theorem sound_step (h : Sound s) (hs : s.step a = some s') : Sound s' := by
  cases a with
  | allocServicePoint =>
    cases hs
    exact sound_alloc h
  | dallocServicePoint point => exact sound_dalloc h hs
  | connectPoint | closeConn | sendPoint | sendPut | recvPoint => exact sound_act h hs
  | sendThread point =>
    simp only [Node.step] at hs
    split at hs
    · exact sound_act h hs
    · cases hs
      exact h
  | segSendThread slot i => exact sound_segSendThread h hs
  | orphanThread i => exact sound_orphanThread h hs
  | internalrecv pkt => exact sound_internalrecv h hs
  | recvThread point rnd =>
    simp only [Node.step] at hs
    split at hs
    · exact sound_recvThread h hs
    · cases hs
      exact h
  | syncThread i rnd => exact sound_syncThread h hs
  | internalhandleroute msg =>
    obtain ⟨router, -, rfl⟩ := Option.map_eq_some_iff.1 hs
    exact h.setRouter router
  | internalsendroute =>
    cases hs
    exact h.setRouter _
  | enableRoute | disableRoute => exact sound_switchRoute h hs
  | advertise =>
    cases hs
    exact h
  | hostreachable dest =>
    simp only [Node.step, Node.hostreachable] at hs
    split at hs
    · cases hs
      exact h
    · obtain ⟨_, -, rfl⟩ := Option.map_eq_some_iff.1 hs
      exact h

theorem exists_hostIndex {host : Nat} : (∃ i, hostIndex host = some i) ↔ 1 ≤ host ∧ host ≤ maxHosts := by
  unfold hostIndex
  split
  · rename_i h
    exact iff_of_true ⟨_, rfl⟩ h
  · rename_i h
    exact iff_of_false (by simp) h

theorem exists_switchRoute {host : Nat} {switch : Router → HostIndex → Router} :
    (∃ s', s.switchRoute host switch = some s') ↔ 1 ≤ host ∧ host ≤ maxHosts := by
  rw [← exists_hostIndex]
  constructor
  · rintro ⟨_, hs⟩
    obtain ⟨i, hi, -⟩ := Option.map_eq_some_iff.1 hs
    exact ⟨i, hi⟩
  · rintro ⟨i, hi⟩
    exact ⟨_, Option.map_eq_some_iff.2 ⟨i, hi, rfl⟩⟩

/-- The value of a call is the index of a slot unless it is the one for an error. -/
theorem call_inRange_iff (h : Sound s) (hgiven : point ∈ s.given) : point < maxServicePoints ↔ point ≠ errorPoint := by
  constructor
  · rintro hlt rfl
    exact absurd hlt (by decide)
  · exact (h.given point hgiven).resolve_right

/-- A step stays within the tables exactly when what comes from outside does. -/
theorem exists_step_iff (h : Sound s) (hgiven : s.UsesGiven a) : (∃ s', s.step a = some s') ↔ a.InRange := by
  cases a with
  | allocServicePoint | internalsendroute | advertise => exact iff_of_true ⟨_, rfl⟩ trivial
  | enableRoute | disableRoute => exact exists_switchRoute
  | dallocServicePoint p | connectPoint p | closeConn p | sendPoint p | recvPoint p =>
    simp only [Node.step, Node.act, Node.dallocServicePoint, exists_atPoint]
    exact call_inRange_iff h (hgiven p rfl)
  | sendPut slot i =>
    refine iff_of_true ?_ trivial
    simp only [Node.step, Node.act, exists_atPoint]
    exact slot.isLt
  | sendThread p =>
    refine iff_of_true ?_ trivial
    simp only [Node.step]
    split
    · rename_i hmem
      exact exists_atPoint.2 (h.threads p hmem)
    · exact ⟨s, rfl⟩
  | recvThread p rnd =>
    refine iff_of_true ?_ trivial
    simp only [Node.step]
    split
    · rename_i hmem
      exact exists_atPoint.2 (h.threads p hmem)
    · exact ⟨s, rfl⟩
  | segSendThread slot i =>
    refine iff_of_true ?_ trivial
    simp only [Node.step, Node.segSendThread]
    split
    · exact ⟨s, rfl⟩
    · rename_i t ht
      obtain ⟨p, hp, ht⟩ := Option.bind_eq_some_iff.1 ht
      refine exists_atPoint.2 ?_
      rw [h.packs slot p hp t.pack (List.mem_map_of_mem (List.mem_of_getElem? ht))]
      exact slot.isLt
  | orphanThread i =>
    refine iff_of_true ?_ trivial
    simp only [Node.step, Node.orphanThread]
    split
    · exact ⟨s, rfl⟩
    · rename_i t ht
      exact exists_atPoint.2 (h.segSends t (List.mem_of_getElem? ht))
  | syncThread i rnd =>
    refine iff_of_true ?_ trivial
    simp only [Node.step, Node.syncThread]
    split
    · exact ⟨s, rfl⟩
    · rename_i pkt hpkt
      exact exists_atPoint.2 (h.syncs pkt (List.mem_of_getElem? hpkt))
  | internalrecv pkt =>
    simp only [Node.step, Node.internalrecv, exists_atPoint]
    exact Iff.rfl
  | internalhandleroute msg =>
    simp only [Node.step, Router.internalhandleroute, Option.map_map, Option.map_eq_some_iff]
    constructor
    · rintro ⟨_, i, hi, -⟩
      exact exists_hostIndex.1 ⟨i, hi⟩
    · intro hrange
      obtain ⟨i, hi⟩ := exists_hostIndex.2 hrange
      exact ⟨_, i, hi, rfl⟩
  | hostreachable dest =>
    refine iff_of_true ?_ trivial
    simp only [Node.step, Node.hostreachable]
    split
    · exact ⟨s, rfl⟩
    · obtain ⟨i, hi⟩ := exists_hostIndex.2 (by omega : 1 ≤ dest ∧ dest ≤ maxHosts)
      exact ⟨s, by rw [hi]; rfl⟩

end TableIndicesAux

open TableIndicesAux in
/-- For every node and every sequence of calls with values `alloc_service_point` has returned, steps of the threads and anything
received: no access is beyond a table exactly when no call uses the value for an error, every segment is for a slot, and every
advertisement, `enable_route` and `disable_route` is about a host. -/
theorem table_indices_in_range_iff (num : Nat) (way : HostIndex → Int) {as : List NodeAction}
    (hused : Along Node.step Node.UsesGiven (Node.init num way) as) :
    (∃ s, exec Node.step (Node.init num way) as = some s) ↔
      Along Node.step (fun _ a => a.InRange) (Node.init num way) as :=
  exists_exec_iff (sound_init num way) (fun _ _ _ h _ hs => sound_step h hs) (fun _ _ h hgiven => exists_step_iff h hgiven) hused

namespace TableIndicesAux

open SessionAux

/-- A segment for a service point of node 1. -/
def segmentFor (dest : Nat) : Packet :=
  { packet 2 1 .sync 7 0 [115] 0 with segment := { (packet 2 1 .sync 7 0 [115] 0).segment with dest := dest } }

/-- A node without links. -/
def alone : Node := Node.init 1 fun _ => -1

end TableIndicesAux

open TableIndicesAux in
/-- A point is allocated and opens a connection, what arrives is for it, and the link to the last host is switched off. -/
theorem allocated_in_range :
    ∃ s, exec Node.step alone
      [.allocServicePoint, .connectPoint 0 2 0 5 10, .internalrecv (segmentFor 0), .internalhandleroute ⟨6, 1, 2⟩, .disableRoute 6] =
        some s :=
  (table_indices_in_range_iff 1 _ (by decide)).2 (by decide)

open TableIndicesAux in
/-- A segment for slot 16, advertisements about hosts 0 and 7, `disable_route` and `enable_route` for them, and the calls with what the
seventeenth `alloc_service_point` has returned: each is an access beyond a table. -/
theorem table_indices_out_of_range :
    alone.step (.internalrecv (segmentFor 16)) = none ∧ alone.step (.internalhandleroute ⟨0, 1, 2⟩) = none ∧
      alone.step (.internalhandleroute ⟨7, 1, 2⟩) = none ∧
      alone.step (.disableRoute 0) = none ∧ alone.step (.enableRoute 7) = none ∧
      (∃ s ∈ exec Node.step alone (List.replicate 17 .allocServicePoint), s.given.getLast? = some errorPoint ∧
        s.step (.connectPoint errorPoint 2 0 5 10) = none ∧ s.step (.sendPoint errorPoint [1]) = none) ∧
      ¬∀ as, Along Node.step Node.UsesGiven alone as → ∃ s, exec Node.step alone as = some s := by
  refine ⟨by decide, by decide, by decide, by decide, by decide, by decide, fun h => ?_⟩
  have hnone : exec Node.step alone [.internalhandleroute ⟨0, 1, 2⟩] = none := rfl
  obtain ⟨s, hs⟩ := h [.internalhandleroute ⟨0, 1, 2⟩] (by decide)
  rw [hnone] at hs
  cases hs

end NetworkLayers
