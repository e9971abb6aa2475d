import NetworkLayers.Net.Forward
import NetworkLayers.Lemmas.Frag

/-!
# The time to live of a datagram

`internalrecv` takes one off `ttl` for every link a datagram crosses, but neither it nor `net_resend` looks at the result. As long
as no datagram is forwarded whose `ttl` is down to 1, `ttl` counts the links that are left and bounds them; the first one that is
forwarded then leaves with `ttl` 0, and the next node wraps it to 255.
-/

namespace NetworkLayers

open Transition

/-- What `ttl` is for: an item in a queue and a datagram on a link have some left, it is what the links crossed leave of the
initial value, and no datagram crosses more links than that value. -/
structure TtlBounded (s : ForwardNet) : Prop where
  queued : ∀ n, ∀ q ∈ s.queues n, q.item.ttl ≠ 0 ∧ q.item.ttl + q.links = ttlInit
  sent : ∀ f ∈ s.frames, f.datagram.ttl ≠ 0 ∧ f.datagram.ttl + f.links = ttlInit + 1 ∧ f.links ≤ ttlInit

/-- The step does not forward a datagram whose `ttl` is down to 1: it is delivered, no route is known, or there is more left. -/
def ForwardsAlive (s : ForwardNet) : ForwardAction → Prop
  | .internalrecv f => f.datagram.dest ≠ (s.routes.routers f.dest).num →
      (s.routes.routers f.dest).hostreachable f.datagram.dest ≠ 0 → 2 ≤ f.datagram.ttl
  | _ => True

instance ForwardsAlive.decidable (s : ForwardNet) : ∀ a, Decidable (ForwardsAlive s a)
  | .internalrecv _ => inferInstanceAs (Decidable (_ → _ → _))
  | .route _ | .disableRoute _ _ | .enableRoute _ _ | .netSend _ _ _ _ | .internalsend _ => inferInstanceAs (Decidable True)

/-- The bound asks nothing of the routes. -/
theorem TtlBounded.of_routes {s s' : ForwardNet} (h : TtlBounded s) (hq : s'.queues = s.queues) (hf : s'.frames = s.frames) :
    TtlBounded s' where
  queued := by rw [hq]; exact h.queued
  sent := by rw [hf]; exact h.sent

/-- A new item in a queue keeps the bound exactly when it keeps to it. -/
theorem ttlBounded_insert_iff {s s' : ForwardNet} {n : HostIndex} {q : Queued} (h : TtlBounded s)
    (hs : s.insert n q = some s') : TtlBounded s' ↔ q.item.ttl ≠ 0 ∧ q.item.ttl + q.links = ttlInit := by
  unfold ForwardNet.insert at hs
  split at hs
  · obtain rfl := Option.some.inj hs
    constructor
    · intro h'
      exact h'.queued n q (by simp)
    · intro hok
      refine ⟨?_, h.sent⟩
      intro m p hp
      by_cases hm : m = n
      · subst hm
        simp only [Function.update_self, List.mem_append, List.mem_singleton] at hp
        rcases hp with hp | rfl
        · exact h.queued m p hp
        · exact hok
      · simp only [Function.update_of_ne hm] at hp
        exact h.queued m p hp
  · cases hs

/-- What the sending thread puts on the link of an item has its `ttl`, and has crossed one link more. -/
theorem mem_framesOf {s : ForwardNet} {n : HostIndex} {q : Queued} {mtu : Int} {countId c : Nat} {ds : List Datagram}
    (hsend : internalsend mtu countId q.item = some (ds, c)) {f : Frame} (hf : f ∈ s.framesOf n q ds) :
    f.datagram.ttl = q.item.ttl ∧ f.links = q.links + 1 := by
  unfold ForwardNet.framesOf at hf
  split at hf
  · cases hf
  · obtain ⟨d, hd, rfl⟩ := List.mem_map.1 hf
    exact ⟨(internalsend_fields hsend d (List.mem_of_mem_filter hd)).2.1, rfl⟩

/-- The sending thread keeps the bound. -/
theorem ttlBounded_internalsend {s s' : ForwardNet} {n : HostIndex} (h : TtlBounded s)
    (hs : s.step (.internalsend n) = some s') : TtlBounded s' := by
  simp only [ForwardNet.step] at hs
  split at hs
  · cases hs
  · rename_i q queue hqueue
    obtain ⟨⟨ds, c⟩, hsend, rfl⟩ := Option.map_eq_some_iff.1 hs
    obtain ⟨hq0, hqt⟩ := h.queued n q (by rw [hqueue]; exact List.mem_cons_self)
    refine ⟨?_, ?_⟩
    · intro m p hp
      by_cases hm : m = n
      · subst hm
        simp only [Function.update_self] at hp
        exact h.queued m p (by rw [hqueue]; exact List.mem_cons_of_mem _ hp)
      · simp only [Function.update_of_ne hm] at hp
        exact h.queued m p hp
    · intro f hf
      rcases List.mem_append.1 hf with hf | hf
      · exact h.sent f hf
      · obtain ⟨httl, hlinks⟩ := mem_framesOf hsend hf
        rw [httl, hlinks]
        omega

/-- The receiving thread keeps the bound exactly when the datagram it forwards has more left than 1. -/
theorem ttlBounded_internalrecv_iff {s s' : ForwardNet} {f : Frame} (h : TtlBounded s)
    (hs : s.step (.internalrecv f) = some s') : TtlBounded s' ↔ ForwardsAlive s (.internalrecv f) := by
  simp only [ForwardNet.step] at hs
  split at hs
  · rename_i hmem
    obtain ⟨hf0, hft, -⟩ := h.sent f hmem
    split at hs
    · rename_i hdest
      obtain rfl := Option.some.inj hs
      exact iff_of_true h fun hne => absurd hdest hne
    · rename_i hdest
      split at hs
      · rename_i hnone
        obtain rfl := Option.some.inj hs
        refine iff_of_true h ?_
        intro _ hreach
        have hreach : (s.routes.routers f.dest).hostreachable (forwarded f.datagram).dest ≠ 0 := hreach
        simp only [Router.netResend] at hnone
        rw [if_pos hreach] at hnone
        cases hnone
      · rename_i item hitem
        simp only [Router.netResend] at hitem
        split at hitem
        · rename_i hreach
          obtain rfl := Option.some.inj hitem
          rw [ttlBounded_insert_iff h hs]
          -- one less of `ttl`, which is at most 6 here
          have httl : f.datagram.ttl ≤ 7 := by
            have hinit : ttlInit = 6 := rfl
            omega
          have hdec : u8 (f.datagram.ttl + 255) = f.datagram.ttl - 1 := by
            unfold u8
            omega
          show u8 (f.datagram.ttl + 255) ≠ 0 ∧ u8 (f.datagram.ttl + 255) + f.links = ttlInit ↔ _
          rw [hdec]
          constructor
          · rintro ⟨h0, -⟩ - -
            omega
          · intro hok
            have := hok hdest hreach
            omega
        · cases hitem
  · cases hs

/-- A step keeps the bound exactly when it does not forward a datagram whose `ttl` is down to 1. -/
theorem ttlBounded_step_iff {s s' : ForwardNet} {a : ForwardAction} (h : TtlBounded s) (hs : s.step a = some s') :
    TtlBounded s' ↔ ForwardsAlive s a := by
  cases a with
  | route a =>
    obtain ⟨routes, -, rfl⟩ := Option.map_eq_some_iff.1 hs
    exact iff_of_true (h.of_routes rfl rfl) trivial
  | disableRoute n host =>
    obtain rfl := Option.some.inj hs
    exact iff_of_true (h.of_routes rfl rfl) trivial
  | enableRoute n host =>
    obtain rfl := Option.some.inj hs
    exact iff_of_true (h.of_routes rfl rfl) trivial
  | netSend n dest data protocol =>
    simp only [ForwardNet.step] at hs
    split at hs
    · obtain rfl := Option.some.inj hs
      exact iff_of_true h trivial
    · rename_i item hitem
      obtain ⟨-, -, -, -, httl, -⟩ := netSend_fields hitem
      refine iff_of_true ((ttlBounded_insert_iff h hs).2 ⟨?_, ?_⟩) trivial
      · rw [httl]
        decide
      · rw [httl]
        exact Nat.add_zero ttlInit
  | internalsend n => exact iff_of_true (ttlBounded_internalsend h hs) trivial
  | internalrecv f => exact ttlBounded_internalrecv_iff h hs

/-- For every network, whatever its routes do in between: in a run from the start, `ttl` bounds the links a datagram crosses in
every state exactly when no step of the run forwards a datagram whose `ttl` is down to 1. -/
theorem ttl_bounds_links_iff (way : HostIndex → HostIndex → Int) {as : List ForwardAction} {s : ForwardNet}
    (hrun : exec ForwardNet.step (ForwardNet.init way) as = some s) :
    (∀ bs, bs <+: as → ∀ t, exec ForwardNet.step (ForwardNet.init way) bs = some t → TtlBounded t) ↔
      Along ForwardNet.step ForwardsAlive (ForwardNet.init way) as := by
  have h0 : TtlBounded (ForwardNet.init way) := by
    refine ⟨?_, ?_⟩
    · intro n q hq
      cases hq
    · intro f hf
      cases hf
  exact along_iff h0 (fun _ _ _ h hs => ttlBounded_step_iff h hs) hrun

/-- The three hosts in a line. -/
def threeWay : HostIndex → HostIndex → Int := fun i j =>
  if (i.val + 1 = j.val ∨ j.val + 1 = i.val) ∧ i.val < 3 ∧ j.val < 3 then 576 else -1

/-- A byte for host 3 on its link from host 1, or on the `k`-th link it crosses. -/
def byteFrame (k : Nat) : Frame :=
  { dest := if k % 2 = 1 then 1 else 0
    datagram := { size := 1, id := 0, frag := 0, protocol := if k = 1 then 1 else 2, ttl := u8 (263 - k), dest := 3, src := 1,
                  data := [65] }
    links := k }

/-- Host 1 has learnt from host 2 how to reach host 3, and sends it a byte. -/
def sendRun : List ForwardAction :=
  [.route (.start 0), .route (.start 1), .route (.advertise 1 0 2), .route (.handle 0 ⟨3, 2, 2⟩), .netSend 0 3 [65] 1,
    .internalsend 0]

/-- Without a loop the byte is forwarded once. -/
theorem forwarded_once_bounded :
    ∃ s, exec ForwardNet.step (ForwardNet.init threeWay) (sendRun ++ [.internalrecv (byteFrame 1), .internalsend 1]) = some s ∧
      ∀ bs, bs <+: sendRun ++ [.internalrecv (byteFrame 1), .internalsend 1] →
        ∀ t, exec ForwardNet.step (ForwardNet.init threeWay) bs = some t → TtlBounded t := by
  obtain ⟨s, hs⟩ : ∃ s, exec ForwardNet.step (ForwardNet.init threeWay)
      (sendRun ++ [.internalrecv (byteFrame 1), .internalsend 1]) = some s := Option.isSome_iff_exists.1 (by decide)
  exact ⟨s, hs, (ttl_bounds_links_iff threeWay hs).2 (by decide)⟩

/-- Host 2 disables its link to host 3 and learns the route back from host 1, so that the byte goes back and forth. -/
def loopRun : List ForwardAction :=
  sendRun ++ [.route (.advertise 0 1 2), .disableRoute 1 2, .route (.handle 1 ⟨3, 3, 1⟩),
    .internalrecv (byteFrame 1), .internalsend 1, .internalrecv (byteFrame 2), .internalsend 0,
    .internalrecv (byteFrame 3), .internalsend 1, .internalrecv (byteFrame 4), .internalsend 0,
    .internalrecv (byteFrame 5), .internalsend 1, .internalrecv (byteFrame 6), .internalsend 0,
    .internalrecv (byteFrame 7), .internalsend 1]

/-- The byte crosses a seventh link with `ttl` 0 and an eighth with `ttl` 255. -/
theorem looping_byte_not_bounded :
    ∃ s, exec ForwardNet.step (ForwardNet.init threeWay) loopRun = some s ∧
      s.frames.map (fun f => (f.links, f.datagram.ttl)) =
        [(1, 6), (2, 5), (3, 4), (4, 3), (5, 2), (6, 1), (7, 0), (8, 255)] ∧ ¬TtlBounded s := by
  obtain ⟨s, hs, hframes⟩ : ∃ s ∈ exec ForwardNet.step (ForwardNet.init threeWay) loopRun,
      s.frames.map (fun f => (f.links, f.datagram.ttl)) =
        [(1, 6), (2, 5), (3, 4), (4, 3), (5, 2), (6, 1), (7, 0), (8, 255)] := by
    decide
  refine ⟨s, hs, hframes, ?_⟩
  intro h
  have hmem : (7, 0) ∈ s.frames.map (fun f => (f.links, f.datagram.ttl)) := by
    rw [hframes]
    decide
  obtain ⟨f, hf, heq⟩ := List.mem_map.1 hmem
  obtain ⟨-, httl⟩ := Prod.mk.inj heq
  exact (h.sent f hf).1 httl

end NetworkLayers
