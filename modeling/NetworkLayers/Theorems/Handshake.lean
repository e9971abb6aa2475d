import NetworkLayers.Lemmas.Session

/-!
# The handshake

Two points that are in flag_con 2 with each other agree on sequence numbers and window, as long as neither `sync_thread` nor
`sync_ack_thread` is misled by a segment of an earlier connection: `sync_thread` does not look whether the sender of the SYN is
in a connection already, and `sync_ack_thread` takes any SYN+ACK.
-/

namespace NetworkLayers

open Transition

/-- The point is in flag_con 2 with the other one as its destination. -/
def Session.InConnection (e : Places) (s : Session) (x : Side) : Prop :=
  (s.point x).sp.flagCon = .comConexao ∧ s.Faces e x

instance (e : Places) (s : Session) (x : Side) : Decidable (s.InConnection e x) := inferInstanceAs (Decidable (_ ∧ _))

/-- The point is in a connection with the other one and has neither sent nor accepted data in it. -/
def Session.Fresh (e : Places) (s : Session) (x : Side) : Prop :=
  s.InConnection e x ∧ (s.point x).history.touched = false

instance (e : Places) (s : Session) (x : Side) : Decidable (s.Fresh e x) := inferInstanceAs (Decidable (_ ∧ _))

/-- Both points in a connection with each other and neither has sent or accepted data in it: the number each sends next is the one
the other awaits, and their windows are the same. -/
def Session.Agreed (e : Places) (s : Session) : Prop :=
  (∀ x, s.Fresh e x) →
    ∀ x, (s.point x).sp.seqNumS = (s.point x.other).sp.seqNumR ∧ (s.point x).sp.windowSize = (s.point x.other).sp.windowSize

/-- The SYN that `sync_thread` takes does not come from the other point while that one is in a fresh connection with this one. -/
def Session.SyncInOrder (e : Places) (s : Session) (x : Side) (syn : Packet) : Prop :=
  syn.segment.flags = .sync → (s.point x).sp.flagCon = .semConexao →
    syn.src = (e.addr x.other).node → syn.segment.src = (e.addr x.other).point → ¬ s.Fresh e x.other

/-- The SYN+ACK that `sync_ack_thread` takes, when the other point is its destination and in a fresh connection with it, was
built by that point in that connection, acknowledges this point's SYN and has this point's window. -/
def Session.SyncAckInOrder (e : Places) (s : Session) (x : Side) (syn : Packet) : Prop :=
  syn.segment.flags = .syncAck → (s.point x).sp.flagCon = .estabelecendo → s.Faces e x → s.Fresh e x.other →
    syn.src = (e.addr x.other).node ∧ syn.segment.src = (e.addr x.other).point ∧
      syn.epoch = (s.point x.other).history.epoch ∧ syn.segment.ackNum = (s.point x).sp.seqNumS ∧
      syn.segment.windowSize = (s.point x).sp.windowSize

/-- The step does not mislead the handshake. -/
def HandshakeInOrder (e : Places) (s : Session) (m : Side × PointAction) : Prop :=
  match m.2 with
  | .recvThread pkt _ => s.SyncInOrder e m.1 pkt ∧ s.SyncAckInOrder e m.1 pkt
  | _ => True

instance (e : Places) (s : Session) (x : Side) (syn : Packet) : Decidable (s.SyncInOrder e x syn) :=
  inferInstanceAs (Decidable (_ → _ → _ → _ → _))

instance (e : Places) (s : Session) (x : Side) (syn : Packet) : Decidable (s.SyncAckInOrder e x syn) :=
  inferInstanceAs (Decidable (_ → _ → _ → _ → _))

instance HandshakeInOrder.decidable (e : Places) (s : Session) : ∀ m, Decidable (HandshakeInOrder e s m)
  | (_, .recvThread _ _) => inferInstanceAs (Decidable (_ ∧ _))
  | (_, .connectPoint ..) | (_, .closeConn) | (_, .sendPoint _) | (_, .sendPut _) | (_, .recvPoint _) | (_, .sendThread)
  | (_, .segSendThread _) => inferInstanceAs (Decidable True)

namespace HandshakeAux

/-- The step leaves what the handshake is about as it was. -/
structure SameConnection (p p' : Endpoint) : Prop where
  packs : p'.packs = p.packs
  epoch : p'.history.epoch = p.history.epoch
  touched : p'.history.touched = p.history.touched
  flagCon : p'.sp.flagCon = p.sp.flagCon
  dest : p'.sp.dest = p.sp.dest
  destSp : p'.sp.destSp = p.sp.destSp
  seqNumS : p'.sp.seqNumS = p.sp.seqNumS
  seqNumR : p'.sp.seqNumR = p.sp.seqNumR
  windowSize : p'.sp.windowSize = p.sp.windowSize

/-- After the step the point is outside a connection or has sent or accepted data, and no SYN+ACK is new. -/
structure Leaves (p p' : Endpoint) : Prop where
  epoch : p'.history.epoch = p.history.epoch
  left : p'.history.touched = true ∨ p'.sp.flagCon ≠ .comConexao
  packs : ∀ k ∈ p'.packs, k.segment.flags = .syncAck → k ∈ p.packs

/-- A new pack with other flags is not the one looked at. -/
theorem mem_packs_of_spawn {p : Endpoint} {segment : Segment} {size : Nat} {k : SendSegment}
    (hk : k ∈ (p.spawn segment size).packs) (hflags : k.segment.flags ≠ segment.flags) : k ∈ p.packs := by
  rcases mem_packs_spawn.1 hk with hk | rfl
  · exact hk
  · exact absurd rfl hflags

/-- What a step does to the handshake. -/
theorem does_handshake {here : Addr} {p p' : Endpoint} {act : PointAction} {out : List Packet} (h : p.Does here act p' out) :
    SameConnection p p' ∨ Leaves p p' ∨
      (∃ pkt rnd, act = .recvThread pkt rnd ∧ pkt.segment.flags = .sync ∧ p.sp.flagCon = .semConexao ∧
        p' = p.acceptSync here pkt rnd) ∨
      ∃ pkt rnd, act = .recvThread pkt rnd ∧ pkt.segment.flags = .syncAck ∧ p.sp.flagCon = .estabelecendo ∧
        p' = p.acceptSyncAck pkt := by
  cases h with
  | acceptSync pkt rnd hflags _ hf => exact Or.inr (Or.inr (Or.inl ⟨pkt, rnd, rfl, hflags, hf, rfl⟩))
  | acceptSyncAck pkt rnd hflags _ hf => exact Or.inr (Or.inr (Or.inr ⟨pkt, rnd, rfl, hflags, hf, rfl⟩))
  | sync =>
    refine Or.inr (Or.inl ⟨rfl, Or.inr (by simp [Endpoint.sendSync, Endpoint.spawn]), ?_⟩)
    intro k hk hflags
    exact mem_packs_of_spawn hk (by simp [hflags])
  | close | finInConnection =>
    refine Or.inr (Or.inl ⟨rfl, Or.inr (by simp [Endpoint.sendFin, Endpoint.spawn]), ?_⟩)
    intro k hk hflags
    exact mem_packs_of_spawn hk (by simp [hflags])
  | segment =>
    refine Or.inr (Or.inl ⟨rfl, Or.inl rfl, ?_⟩)
    intro k hk hflags
    exact mem_packs_of_spawn hk (by simp [hflags])
  | add => exact Or.inr (Or.inl ⟨rfl, Or.inl rfl, fun k hk _ => hk⟩)
  | finWhileClosing => exact Or.inr (Or.inl ⟨rfl, Or.inr (by simp), fun k hk _ => hk⟩)
  | firstSend i t ht | acked i t ht => exact Or.inl ⟨packs_set ht rfl, rfl, rfl, rfl, rfl, rfl, rfl, rfl, rfl⟩
  | _ => exact Or.inl ⟨rfl, rfl, rfl, rfl, rfl, rfl, rfl, rfl, rfl⟩

/-- The SYN+ACK a point built in its present connection states where that connection starts. -/
def StatesStart (p : Endpoint) : Prop :=
  ∀ k ∈ p.packs, k.segment.flags = .syncAck →
    k.epoch ≤ p.history.epoch ∧
    (k.epoch = p.history.epoch → p.sp.flagCon = .comConexao → p.history.touched = false →
      nextSeqNum k.segment.seqNum 1 = p.sp.seqNumS ∧ k.segment.ackNum = p.sp.seqNumR ∧
        k.segment.windowSize = p.sp.windowSize)

theorem statesStart_step {here : Addr} {p p' : Endpoint} {act : PointAction} {out : List Packet} (hp : StatesStart p)
    (h : p.Does here act p' out) : StatesStart p' := by
  intro k hk hflags
  rcases does_handshake h with hsame | hleft | ⟨pkt, rnd, -, -, -, rfl⟩ | ⟨pkt, rnd, -, -, -, rfl⟩
  · rw [hsame.packs] at hk
    rw [hsame.epoch, hsame.touched, hsame.flagCon, hsame.seqNumS, hsame.seqNumR, hsame.windowSize]
    exact hp k hk hflags
  · refine ⟨?_, ?_⟩
    · rw [hleft.epoch]
      exact (hp k (hleft.packs k hk hflags) hflags).1
    · intro _ hf ht
      rcases hleft.left with h1 | h1
      · rw [ht] at h1
        cases h1
      · exact absurd hf h1
  · rcases mem_packs_spawn.1 hk with hold | rfl
    · -- an earlier SYN+ACK belongs to an earlier connection
      have hle := (hp k hold hflags).1
      have hepoch : (p.acceptSync here pkt rnd).history.epoch = p.history.epoch + 1 := rfl
      refine ⟨by omega, ?_⟩
      intro heq
      omega
    · exact ⟨Nat.le_refl _, fun _ _ _ => ⟨rfl, rfl, rfl⟩⟩
  · have hle := (hp k hk hflags).1
    have hepoch : (p.acceptSyncAck pkt).history.epoch = p.history.epoch + 1 := rfl
    refine ⟨by omega, ?_⟩
    intro heq
    omega

/-- What holds all along a run: where packets come from, what a SYN+ACK states, and the agreement. -/
structure Inv (e : Places) (s : Session) : Prop where
  traced : s.Traced e
  statesStart : ∀ x, StatesStart (s.point x)
  agreed : s.Agreed e

theorem inv_start (e : Places) : Inv e Session.start where
  traced := traced_start e
  statesStart := by intro x k hk; cases hk
  agreed := by intro hfresh; cases (hfresh .a).1.1

/-- A SYN+ACK of the other point's present connection that acknowledges this point's SYN makes the two agree. -/
theorem agreed_acceptSyncAck {e : Places} {s : Session} {x : Side} {syn : Packet} (h : Inv e s)
    (harr : s.Arrives (e.addr x) syn) (hflags : syn.segment.flags = .syncAck)
    (hf : (s.point x).sp.flagCon = .estabelecendo) (hok : s.SyncAckInOrder e x syn) (hfaces : s.Faces e x)
    (hfresh : s.Fresh e x.other) :
    (s.point x.other).sp.seqNumS = nextSeqNum syn.segment.seqNum 1 ∧ (s.point x.other).sp.seqNumR = (s.point x).sp.seqNumS ∧
      (s.point x.other).sp.windowSize = (s.point x).sp.windowSize := by
  obtain ⟨hsrc, hpoint, hepoch, hack, hwindow⟩ := hok hflags hf hfaces hfresh
  obtain ⟨y, k, hk, hsrc', hsegment, -, hepoch'⟩ := h.traced.packets syn harr.1 (by rw [hflags]; decide)
  obtain rfl : y = x.other := by
    rcases Side.eq_or_eq_other x y with rfl | rfl
    · -- the two places differ, so the pack is not this point's own
      have hown := h.traced.src y k hk
      refine absurd ?_ (e.addr_ne y)
      calc e.addr y = ⟨syn.src, syn.segment.src⟩ := by rw [hsrc', hsegment, hown]
        _ = e.addr y.other := by rw [hsrc, hpoint]
    · rfl
  rw [hsegment] at hflags hack hwindow ⊢
  have hstates := (h.statesStart x.other k hk hflags).2 (by rw [← hepoch', hepoch]) hfresh.1.1 hfresh.2
  obtain ⟨hs, hr, hw⟩ := hstates
  exact ⟨hs.symm, by rw [← hr, hack], by rw [← hw, hwindow]⟩

theorem agreed_step {e : Places} {s s' : Session} {x : Side} {act : PointAction} (h : Inv e s)
    (hok : HandshakeInOrder e s (x, act)) (hs : s.step e (x, act) = some s') : s'.Agreed e := by
  intro hfresh'
  obtain ⟨p, out, hen, hact, hx, hother, -⟩ := Session.step_cases hs
  have hfreshOther : s.Fresh e x.other := by
    have := hfresh' x.other
    unfold Session.Fresh Session.InConnection Session.Faces at this ⊢
    rwa [hother] at this
  have hfreshX := hfresh' x
  unfold Session.Fresh Session.InConnection Session.Faces at hfreshX
  rw [hx] at hfreshX
  -- it is enough to look at the side that took the step
  suffices hagree : p.sp.seqNumS = (s.point x.other).sp.seqNumR ∧ (s.point x.other).sp.seqNumS = p.sp.seqNumR ∧
      p.sp.windowSize = (s.point x.other).sp.windowSize by
    obtain ⟨h1, h2, h3⟩ := hagree
    intro y
    rcases Side.eq_or_eq_other x y with rfl | rfl
    · rw [hx, hother]
      exact ⟨h1, h3⟩
    · rw [Side.other_other, hx, hother]
      exact ⟨h2, h3.symm⟩
  obtain ⟨⟨hf', hfaces'⟩, ht'⟩ := hfreshX
  rcases does_handshake (act_does hact) with hsame | hleft | ⟨pkt, rnd, rfl, hflags, hf, rfl⟩ | ⟨pkt, rnd, rfl, hflags, hf, rfl⟩
  · rw [hsame.dest, hsame.destSp] at hfaces'
    rw [hsame.flagCon] at hf'
    rw [hsame.touched] at ht'
    have hfresh : ∀ y, s.Fresh e y := by
      intro y
      rcases Side.eq_or_eq_other x y with rfl | rfl
      · exact ⟨⟨hf', hfaces'⟩, ht'⟩
      · exact hfreshOther
    have h1 := h.agreed hfresh x
    have h2 := h.agreed hfresh x.other
    rw [Side.other_other] at h2
    rw [hsame.seqNumS, hsame.seqNumR, hsame.windowSize]
    exact ⟨h1.1, h2.1, h1.2⟩
  · rcases hleft.left with h1 | h1
    · rw [ht'] at h1
      cases h1
    · exact absurd hf' h1
  · exact absurd hfreshOther (hok.1 hflags hf hfaces'.1 hfaces'.2)
  · obtain ⟨h1, h2, h3⟩ := agreed_acceptSyncAck h hen hflags hf hok.2 hfaces' hfreshOther
    exact ⟨h2.symm, h1, h3.symm⟩

theorem inv_step {e : Places} {s s' : Session} {m : Side × PointAction} (h : Inv e s) (hok : HandshakeInOrder e s m)
    (hs : s.step e m = some s') : Inv e s' where
  traced := h.traced.step hs
  statesStart := by
    intro y
    obtain ⟨x, act⟩ := m
    obtain ⟨p, out, -, hact, hx, hother, -⟩ := Session.step_cases hs
    rcases Side.eq_or_eq_other x y with rfl | rfl
    · rw [hx]
      exact statesStart_step (h.statesStart _) (act_does hact)
    · rw [hother]
      exact h.statesStart _
  agreed := agreed_step h hok hs

end HandshakeAux

/-- In every state of a run from two fresh service points whose steps do not mislead the handshake, two points in a connection
with each other agree as long as neither has sent or accepted data. -/
theorem handshake_agrees {e : Places} {s : Session}
    (h : Reach (Session.step e) (HandshakeInOrder e) Session.start s) : s.Agreed e :=
  (h.invariant (HandshakeAux.inv_start e) fun _ _ _ hi hok hs => HandshakeAux.inv_step hi hok hs).agreed

namespace HandshakeAux

/-- The first point closes the connection and connects again, and takes the SYN+ACK of the first connection once more. -/
def reconnect : List (Side × PointAction) :=
  SessionAux.handshake ++
  [(.a, .closeConn), (.a, .segSendThread 1), (.b, .recvThread (SessionAux.packet 1 2 .fin 16 0 [102] 1) 0), (.b, .segSendThread 1),
    (.a, .recvThread (SessionAux.packet 2 1 .fin 106 0 [102] 1) 0),
    (.a, .connectPoint 2 0 5 20), (.a, .segSendThread 2), (.b, .recvThread (SessionAux.packet 1 2 .sync 25 0 [115] 1) 200),
    (.a, .recvThread SessionAux.syncAck 0)]

end HandshakeAux

/-- The handshake of two fresh points in the order it is meant to have: both are in the connection with each other, and neither has sent
or accepted data. -/
theorem handshake_agrees_handshake :
    ∃ s, exec (Session.step SessionAux.places) Session.start SessionAux.handshake = some s ∧
      s.Fresh SessionAux.places .a ∧ s.Fresh SessionAux.places .b ∧ s.Agreed SessionAux.places := by
  obtain ⟨s, hs, ha, hb⟩ : ∃ s ∈ exec (Session.step SessionAux.places) Session.start SessionAux.handshake,
      s.Fresh SessionAux.places .a ∧ s.Fresh SessionAux.places .b := by
    decide
  have hok : Along (Session.step SessionAux.places) (HandshakeInOrder SessionAux.places) Session.start
      SessionAux.handshake := by decide
  exact ⟨s, hs, ha, hb, handshake_agrees (reach_of_exec hok hs)⟩

/-- After the second handshake with the SYN+ACK of the first, the first point awaits 106 and the second sends 206 next. -/
theorem handshake_disagrees_after_reconnect :
    ∃ s, Reach (Session.step SessionAux.places) anyStep Session.start s ∧ ¬ s.Agreed SessionAux.places := by
  obtain ⟨s, hs, ha, hb, hne⟩ : ∃ s ∈ exec (Session.step SessionAux.places) Session.start HandshakeAux.reconnect,
      s.Fresh SessionAux.places .a ∧ s.Fresh SessionAux.places .b ∧ (s.point .b).sp.seqNumS ≠ (s.point .a).sp.seqNumR := by
    decide
  refine ⟨s, reach_anyStep_of_exec hs, ?_⟩
  intro hagree
  have hfresh : ∀ x, s.Fresh SessionAux.places x := by
    intro x
    cases x
    · exact ha
    · exact hb
  exact hne (hagree hfresh .b).1

end NetworkLayers
