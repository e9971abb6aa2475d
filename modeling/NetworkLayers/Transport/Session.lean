import NetworkLayers.Transport.Threads
import NetworkLayers.Lib.Transition
import Mathlib.Logic.Function.Basic

/-!
# Two service points and the network between them

The two points take steps in any order. What they send stays in the network for good, and any packet in it may be handed to the
point it is addressed to at any time, any number of times or never: packets are lost, duplicated, reordered and delayed.
-/

namespace NetworkLayers

/-- The two sides of a connection. -/
inductive Side where
  | a
  | b
  deriving DecidableEq, Repr

/-- The other side. -/
def Side.other : Side → Side
  | .a => .b
  | .b => .a

@[simp] theorem Side.other_other (x : Side) : x.other.other = x := by
  cases x <;> rfl

@[simp] theorem Side.other_ne (x : Side) : x.other ≠ x := by
  cases x <;> decide

@[simp] theorem Side.ne_other (x : Side) : x ≠ x.other := by
  cases x <;> decide

theorem Side.eq_or_eq_other (x y : Side) : y = x ∨ y = x.other := by
  cases x <;> cases y <;> decide

/-- The places of two different service points. -/
structure Places where
  addr : Side → Addr
  distinct : addr .a ≠ addr .b

theorem Places.addr_ne (e : Places) (x : Side) : e.addr x ≠ e.addr x.other := by
  cases x
  · exact e.distinct
  · exact e.distinct.symm

/-- The two service points and the packets sent so far. -/
structure Session where
  point : Side → Endpoint
  packets : List Packet

/-- What a service point can do next: a call of the application or the rest of a `send_point` that waits, a step of one of its
threads, or `recv_thread` with a packet. `rnd` stands for what `rand` returns, and in `recv_thread` for what freed memory holds. -/
inductive PointAction where
  | connectPoint (dest destPoint windowSize rnd : Nat)
  | closeConn
  | sendPoint (buffer : List Byte)
  | sendPut (i : Nat)
  | recvPoint (size : Nat)
  | sendThread
  | segSendThread (i : Nat)
  | recvThread (pkt : Packet) (rnd : Nat)
  deriving DecidableEq, Repr

/-- What an action makes of the service point it is taken at, and the packets it hands to the network. -/
def Endpoint.act (here : Addr) (p : Endpoint) : PointAction → Option (Endpoint × List Packet)
  | .connectPoint dest destPoint windowSize rnd => (p.connectPoint here dest destPoint windowSize rnd).map (·, [])
  | .closeConn => (p.closeConn here).map (·, [])
  | .sendPoint buffer => (p.sendPoint buffer).map (·, [])
  | .sendPut i => (p.sendPut i).map (·, [])
  | .recvPoint size => some (p.recvPoint size, [])
  | .sendThread => (p.sendThreadStep here).map (·, [])
  | .segSendThread i => p.segSendThread here i
  | .recvThread pkt rnd => p.recvThread here pkt rnd

/-- A packet that can reach the service point at `here`: it is in the network and addressed to it. -/
def Session.Arrives (s : Session) (here : Addr) (pkt : Packet) : Prop :=
  pkt ∈ s.packets ∧ pkt.dest = here.node ∧ pkt.segment.dest = here.point

instance (s : Session) (here : Addr) (pkt : Packet) : Decidable (s.Arrives here pkt) :=
  inferInstanceAs (Decidable (_ ∧ _ ∧ _))

/-- The action can be taken at the side: only a packet that can reach it can be received. -/
def Session.Enabled (e : Places) (s : Session) (x : Side) : PointAction → Prop
  | .recvThread pkt _ => s.Arrives (e.addr x) pkt
  | _ => True

instance (e : Places) (s : Session) (x : Side) : ∀ act, Decidable (s.Enabled e x act)
  | .recvThread pkt _ => inferInstanceAs (Decidable (s.Arrives (e.addr x) pkt))
  | .connectPoint .. | .closeConn | .sendPoint _ | .sendPut _ | .recvPoint _ | .sendThread | .segSendThread _ =>
    inferInstanceAs (Decidable True)

/-- A step of the two points: an action at one side. -/
def Session.step (e : Places) (s : Session) (m : Side × PointAction) : Option Session :=
  if s.Enabled e m.1 m.2 then
    ((s.point m.1).act (e.addr m.1) m.2).map fun r =>
      { point := Function.update s.point m.1 r.1, packets := s.packets ++ r.2 }
  else none

/-- What a step is made of. -/
theorem Session.step_cases {e : Places} {s s' : Session} {x : Side} {act : PointAction} (h : s.step e (x, act) = some s') :
    ∃ p out, s.Enabled e x act ∧ (s.point x).act (e.addr x) act = some (p, out) ∧
      s'.point x = p ∧ s'.point x.other = s.point x.other ∧ s'.packets = s.packets ++ out := by
  unfold Session.step at h
  split at h
  · rename_i hen
    obtain ⟨⟨p, out⟩, hact, rfl⟩ := Option.map_eq_some_iff.1 h
    exact ⟨p, out, hen, hact, by simp, by simp, rfl⟩
  · cases h

/-- The other point is the destination of this one. -/
def Session.Faces (e : Places) (s : Session) (x : Side) : Prop :=
  (s.point x).sp.dest = (e.addr x.other).node ∧ (s.point x).sp.destSp = (e.addr x.other).point

instance (e : Places) (s : Session) (x : Side) : Decidable (s.Faces e x) := inferInstanceAs (Decidable (_ ∧ _))

/-- A point that has the other one as its destination does not send to itself. -/
theorem Session.Faces.not_self {e : Places} {s : Session} {x : Side} (h : s.Faces e x) :
    ¬ ((s.point x).sp.dest = (e.addr x).node ∧ (s.point x).sp.destSp = (e.addr x).point) := by
  rintro ⟨hnode, hpoint⟩
  refine e.addr_ne x ?_
  calc e.addr x = ⟨(s.point x).sp.dest, (s.point x).sp.destSp⟩ := by rw [hnode, hpoint]
    _ = e.addr x.other := by rw [h.1, h.2]

/-- Both service points allocated, and nothing sent. -/
def Session.start : Session where
  point := fun _ => allocServicePoint
  packets := []

end NetworkLayers
