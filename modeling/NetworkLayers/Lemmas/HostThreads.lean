import NetworkLayers.Transport.HostThreads

/-!
# The threads of a host take what they wait for in order

A rank for each mutex and semaphore of a host, and that every call and every loop takes them in the order of the ranks and gives back
what it takes; with it, how many operations a message can lead to.
-/

namespace NetworkLayers

open Workers

/-- The order in which the threads take what they wait for. -/
def Resource.rank : Resource → Nat
  | .recvFrame => 0
  | .recvDatagram => 1
  | .waitBuff _ | .sendBuff _ => 2
  | .mutex _ .con => 3
  | .mutex _ .s | .mutex _ .r => 4
  | .mutex _ .seg | .mutex _ .ack => 5
  | .routeTable => 6
  | .waitList => 7
  | .prodInsert => 8
  | .sendFrame => 9

/-- A bound on the operations that a message leads to. -/
def Resource.cost (k : Nat) : Resource → Nat
  | .sendFrame => 2
  | .waitList => 4 * k + 2
  | .sendBuff _ => 4 * k + 2
  | .waitBuff _ => 4 * k + 20
  | .recvDatagram => 4 * k + 30
  | .recvFrame => 4 * k + 40
  | .mutex .. | .routeTable | .prodInsert => 0

namespace HostThreadsAux

variable {n k l : Nat}

/-- The resources with a loop that serves them. -/
def Served (n : Nat) (r : Resource) : Prop := (r.worker n).isSome

/-! ## The programs are written in the order of the ranks -/

theorem nested_pair {r : Resource} (hl : l ≤ r.rank) (hcredit : 0 < r.credit) :
    Nested Resource.rank Resource.credit (Served n) l [.take r, .give r] :=
  .give r hl hcredit (.nil _)

theorem nested_post {r : Resource} (hl : l ≤ r.rank) (hcredit : 0 < r.credit) (hserved : Served n r) :
    Nested Resource.rank Resource.credit (Served n) l [.take r, .post r] :=
  .post r hl hcredit hserved (.nil _)

theorem nested_routeTableOps (hl : l ≤ 6) : Nested Resource.rank Resource.credit (Served n) l routeTableOps :=
  nested_pair hl Nat.one_pos

theorem nested_hostreachableOps (hl : l ≤ 6) (dest : Nat) :
    Nested Resource.rank Resource.credit (Served n) l (hostreachableOps dest) := by
  unfold hostreachableOps
  split
  · exact .nil l
  · exact nested_routeTableOps hl

theorem nested_insertForOps (hl : l ≤ 7) (node : Nat) :
    Nested Resource.rank Resource.credit (Served n) l (insertForOps node) := by
  unfold insertForOps
  split
  · exact .post Resource.waitList hl (by decide : 0 < 100) (rfl : Served n .waitList)
      (nested_pair (r := .prodInsert) (Nat.le_refl 8) Nat.one_pos)
  · exact .nil l

theorem nested_netResendOps (hl : l ≤ 6) (dest node : Nat) :
    Nested Resource.rank Resource.credit (Served n) l (netResendOps dest node) :=
  .append (nested_hostreachableOps hl dest) (nested_insertForOps (hl.trans (by decide)) node)

theorem nested_netSendOps (hl : l ≤ 6) (dest protocol node : Nat) :
    Nested Resource.rank Resource.credit (Served n) l (netSendOps dest protocol node) := by
  unfold netSendOps
  split
  · exact nested_insertForOps (hl.trans (by decide)) dest
  · exact nested_netResendOps hl dest node

/-- One mutex of a service point inside another. -/
theorem nested_within (slot : Slot) (m : Mutex) {p : List HostOp} (hl : l ≤ (Resource.mutex slot m).rank)
    (hp : Nested Resource.rank Resource.credit (Served n) ((Resource.mutex slot m).rank + 1) p) :
    Nested Resource.rank Resource.credit (Served n) l (.take (.mutex slot m) :: p ++ [.give (.mutex slot m)]) :=
  .give (Resource.mutex slot m) hl Nat.one_pos hp

theorem nested_lockPair (slot : Slot) (m : Mutex) (hl : l ≤ (Resource.mutex slot m).rank) :
    Nested Resource.rank Resource.credit (Served n) l (lockOps slot [.lock m, .unlock m]) :=
  nested_pair hl Nat.one_pos

theorem nested_seqNumLocks (slot : Slot) (hl : l ≤ 4) :
    Nested Resource.rank Resource.credit (Served n) l (lockOps slot seqNumLocks) :=
  nested_within slot .s hl (nested_lockPair slot .ack (Nat.le_refl 5))

theorem lockOps_append (slot : Slot) (ops ops' : List LockOp) : lockOps slot (ops ++ ops') = lockOps slot ops ++ lockOps slot ops' :=
  List.map_append

/-- Either branch of the comparisons gives `mutex_r` back. -/
theorem dadosLocks_cases (sp : ServicePoint) (seqNum : Nat) :
    sp.dadosLocks seqNum = [.unlock .r] ∨ sp.dadosLocks seqNum = addDadosLocks := by
  unfold ServicePoint.dadosLocks
  split_ifs <;> simp

theorem nested_dados (slot : Slot) (sp : ServicePoint) (seqNum : Nat) (hl : l ≤ 3) :
    Nested Resource.rank Resource.credit (Served n) l
      (lockOps slot ([.lock .con, .unlock .con, .lock .r] ++ sp.dadosLocks seqNum)) := by
  have hcon := nested_lockPair (n := n) slot .con hl
  rcases dadosLocks_cases sp seqNum with h | h <;> rw [h]
  · exact .append hcon (nested_lockPair slot .r (hl.trans (by decide : 3 ≤ 4)))
  · exact .append hcon (nested_within slot .r (hl.trans (by decide : 3 ≤ 4)) (nested_lockPair slot .seg (Nat.le_refl 5)))

theorem nested_closeConnAuxOps (sp : ServicePoint) (slot : Slot) (node : Nat) (hl : l ≤ 4) :
    Nested Resource.rank Resource.credit (Served n) l (sp.closeConnAuxOps slot node) := by
  have hsend := nested_netSendOps (n := n) (hl.trans (by decide : 4 ≤ 6)) sp.dest 1 node
  unfold ServicePoint.closeConnAuxOps
  split
  · exact .append hsend (nested_seqNumLocks slot hl)
  · exact hsend
  · exact .nil l
  · exact .nil l

/-- The `switch` of `recv_thread` gives back what it takes, but for data outside a connection. -/
theorem nested_switchOps (sp : ServicePoint) (slot : Slot) (segment : Segment) (node : Nat)
    (hok : segment.flags = .dados → sp.flagCon = .comConexao) (hl : l ≤ 3) :
    Nested Resource.rank Resource.credit (Served n) l (sp.switchOps slot segment node) := by
  unfold ServicePoint.switchOps
  cases hflags : segment.flags with
  | dados =>
    simp only [if_pos (hok hflags)]
    refine .append (nested_dados slot sp segment.seqNum hl) ?_
    split
    · exact nested_netSendOps (hl.trans (by decide)) sp.dest 1 node
    · exact .nil l
  | sync | syncAck => exact .nil l
  | ack => exact nested_lockPair slot .ack (hl.trans (by decide : 3 ≤ 5))
  | fin => exact nested_within slot .con hl (nested_closeConnAuxOps sp slot node (Nat.le_refl 4))

theorem nested_call (c : HostCall) : Nested Resource.rank Resource.credit (Served n) 0 c.ops := by
  have hcon := fun slot => nested_lockPair (n := n) (l := 0) slot .con (Nat.zero_le _)
  cases c with
  | connectPoint slot sp =>
    simp only [HostCall.ops, ServicePoint.connectPointLocks]
    split
    · exact nested_within slot .con (Nat.zero_le _) (nested_lockPair slot .ack (by decide : 4 ≤ 5))
    · exact hcon slot
  | closeConn slot sp =>
    simp only [HostCall.ops, ServicePoint.closeConnLocks]
    split
    · exact nested_within slot .con (Nat.zero_le _) (nested_seqNumLocks slot (Nat.le_refl 4))
    · exact hcon slot
  | sendPoint slot sp =>
    refine .append (hcon slot) ?_
    split
    · exact nested_post (Nat.zero_le _) Nat.one_pos rfl
    · exact .nil 0
  | recvPoint slot => exact nested_lockPair slot .seg (Nat.zero_le _)
  | segSendThread slot started acked dest node =>
    simp only [HostCall.ops, segSendThreadOps]
    refine .append ?_ ?_
    · split
      · exact nested_lockPair slot .ack (Nat.zero_le _)
      · exact .nil 0
    · split
      · exact .nil 0
      · exact nested_netSendOps (Nat.zero_le _) dest 1 node
  | syncThread slot sp =>
    simp only [HostCall.ops, ServicePoint.syncThreadLocks]
    split
    · exact nested_within slot .con (Nat.zero_le _)
        (.append (nested_lockPair slot .ack (by decide : 4 ≤ 5)) (nested_lockPair slot .s (Nat.le_refl 4)))
    · exact hcon slot
  | syncAckThread slot sp node =>
    refine nested_within slot .con (Nat.zero_le _) ?_
    split
    · exact nested_netSendOps (by decide : 4 ≤ 6) sp.dest 1 node
    · exact .nil _
  | routeTable => exact nested_routeTableOps (Nat.zero_le _)
  | sendRoute neighbour cost =>
    refine .append (nested_routeTableOps (Nat.zero_le _)) ?_
    split
    · exact nested_netSendOps (Nat.zero_le _) neighbour 0 0
    · exact .nil 0

theorem nested_waitBuff (slot : Slot) (sp : ServicePoint) (segment : Segment) (node : Nat)
    (hok : segment.flags = .dados → sp.flagCon = .comConexao) :
    Nested Resource.rank Resource.credit (Served n) 3 (sp.switchOps slot segment node) :=
  nested_switchOps sp slot segment node hok (Nat.le_refl 3)

/-- The rounds of `send_thread` for a buffer. -/
theorem nested_rounds (slot : Slot) (polls : List Nat) :
    Nested Resource.rank Resource.credit (Served n) 3
      (polls.flatMap fun k => lockOps slot (seqNumLocks ++ (List.replicate k [.lock .ack, .unlock .ack]).flatten)) := by
  have hpolls : ∀ k, Nested Resource.rank Resource.credit (Served n) 3
      (lockOps slot (List.replicate k [.lock .ack, .unlock .ack]).flatten) := by
    intro k
    induction k with
    | zero => exact .nil 3
    | succ k ih => exact .append (nested_lockPair slot .ack (by decide : 3 ≤ 5)) ih
  induction polls with
  | nil => exact .nil 3
  | cons k polls ih =>
    rw [List.flatMap_cons, lockOps_append]
    exact .append (.append (nested_seqNumLocks slot (by decide)) (hpolls k)) ih

theorem nested_frames (accepted : List Bool) :
    Nested Resource.rank Resource.credit (Served n) 8 (accepted.flatMap linkSendOps) := by
  induction accepted with
  | nil => exact .nil 8
  | cons b accepted ih =>
    refine .append ?_ ih
    cases b with
    | false => exact .nil 8
    | true => exact nested_post (r := .sendFrame) (by decide) Nat.one_pos rfl

/-- What a loop runs for a message gives its place back, and takes in order what is ranked above it. -/
theorem nested_serves {r : Resource} {p : List HostOp} (h : HostServes k r p) : ∃ p₁ p₂, p = p₁ ++ .give r :: p₂ ∧
    Nested Resource.rank Resource.credit (Served n) (r.rank + 1) p₁ ∧
    Nested Resource.rank Resource.credit (Served n) (r.rank + 1) p₂ := by
  cases h with
  | recvFrame pass =>
    cases pass with
    | nothing => exact ⟨[], [], rfl, .nil _, .nil _⟩
    | resend dest node => exact ⟨[], netResendOps dest node, rfl, .nil _, nested_netResendOps (by decide) dest node⟩
    | transport => exact ⟨[], _, rfl, .nil _, nested_post (r := .recvDatagram) (by decide) Nat.one_pos rfl⟩
  | recvDatagram o =>
    cases o with
    | none => exact ⟨[], [], rfl, .nil _, .nil _⟩
    | some slot => exact ⟨[], _, rfl, .nil _, nested_post (r := .waitBuff slot) (Nat.le_refl 2) Nat.one_pos rfl⟩
  | waitBuff slot sp segment node hok => exact ⟨[], _, rfl, .nil _, nested_waitBuff slot sp segment node hok⟩
  | sendBuff slot polls _ => exact ⟨_, [], rfl, nested_rounds slot polls, .nil _⟩
  | waitList accepted _ => exact ⟨[], _, rfl, .nil _, nested_frames accepted⟩
  | sendFrame => exact ⟨[], [], rfl, .nil _, .nil _⟩

/-! ## What they cost -/

theorem size_hostreachableOps (dest : Nat) : size (Resource.cost k) (hostreachableOps dest) ≤ 2 := by
  unfold hostreachableOps
  split <;> simp [routeTableOps, Op.cost]

theorem size_insertForOps (node : Nat) : size (Resource.cost k) (insertForOps node) ≤ 4 * k + 6 := by
  unfold insertForOps
  split
  · simp only [waitListInsertOps, size_cons, size_nil, Op.cost, Resource.cost]
    omega
  · simp

theorem size_netResendOps (dest node : Nat) : size (Resource.cost k) (netResendOps dest node) ≤ 4 * k + 8 := by
  have h₁ := size_hostreachableOps (k := k) dest
  have h₂ := size_insertForOps (k := k) node
  rw [netResendOps, size_append]
  omega

theorem size_netSendOps (dest protocol node : Nat) : size (Resource.cost k) (netSendOps dest protocol node) ≤ 4 * k + 8 := by
  unfold netSendOps
  split
  · exact (size_insertForOps dest).trans (by omega)
  · exact size_netResendOps dest node

/-- A mutex of a service point costs one operation. -/
theorem size_lockOps (slot : Slot) (ops : List LockOp) : size (Resource.cost k) (lockOps slot ops) = ops.length := by
  induction ops with
  | nil => rfl
  | cons op ops ih =>
    rw [lockOps, List.map_cons, size_cons, List.length_cons, ← ih]
    cases op <;> simp [LockOp.hostOp, Op.cost, lockOps, Nat.add_comm]

theorem size_switchOps (sp : ServicePoint) (slot : Slot) (segment : Segment) (node : Nat) :
    size (Resource.cost k) (sp.switchOps slot segment node) ≤ 4 * k + 14 := by
  have hsend := size_netSendOps (k := k) sp.dest 1 node
  unfold ServicePoint.switchOps
  cases segment.flags with
  | dados =>
    have hdados : (sp.dadosLocks segment.seqNum).length ≤ 3 := by
      rcases dadosLocks_cases sp segment.seqNum with h | h <;> rw [h] <;> decide
    simp only
    split
    · rw [size_append, size_lockOps, List.length_append]
      split <;> simp <;> omega
    · rw [size_lockOps]
      simp
  | sync | syncAck => simp
  | ack =>
    rw [size_lockOps]
    simp
  | fin =>
    have haux : size (Resource.cost k) (sp.closeConnAuxOps slot node) ≤ 4 * k + 12 := by
      unfold ServicePoint.closeConnAuxOps
      split
      · rw [size_append, size_lockOps]
        simp [seqNumLocks]
        omega
      · omega
      · simp
      · simp
    simp only [size_cons, size_append, size_nil, Op.cost]
    omega

theorem size_rounds (slot : Slot) (polls : List Nat) :
    size (Resource.cost k)
        (polls.flatMap fun k => lockOps slot (seqNumLocks ++ (List.replicate k [.lock .ack, .unlock .ack]).flatten)) ≤
      4 * (polls.map (· + 1)).sum := by
  induction polls with
  | nil => simp
  | cons j polls ih =>
    have hround : (seqNumLocks ++ (List.replicate j [LockOp.lock .ack, .unlock .ack]).flatten).length = 4 + j * 2 := by
      simp [seqNumLocks]
      omega
    rw [List.flatMap_cons, size_append, size_lockOps, List.map_cons, List.sum_cons, hround]
    omega

theorem size_frames (accepted : List Bool) : size (Resource.cost k) (accepted.flatMap linkSendOps) ≤ 4 * accepted.length := by
  induction accepted with
  | nil => simp
  | cons b accepted ih =>
    rw [List.flatMap_cons, size_append, List.length_cons]
    cases b <;> simp [linkSendOps, Op.cost, Resource.cost] <;> omega

theorem size_serves {r : Resource} {p : List HostOp} (h : HostServes k r p) : size (Resource.cost k) p < r.cost k := by
  cases h with
  | recvFrame pass =>
    cases pass with
    | nothing =>
      simp only [netRecvOps, size_cons, size_nil, Op.cost, Resource.cost]
      omega
    | resend dest node =>
      have hsend := size_netResendOps (k := k) dest node
      simp only [netRecvOps, size_cons, Op.cost, Resource.cost]
      omega
    | transport =>
      simp only [netRecvOps, size_cons, size_nil, Op.cost, Resource.cost]
      omega
  | recvDatagram o =>
    cases o <;> simp only [transpInternalrecvOps, size_cons, size_nil, Op.cost, Resource.cost] <;> omega
  | waitBuff slot sp segment node _ =>
    have hswitch := size_switchOps (k := k) sp slot segment node
    simp only [ServicePoint.recvThreadOps, size_cons, Op.cost, Resource.cost]
    omega
  | sendBuff slot polls hk =>
    have hrounds := size_rounds (k := k) slot polls
    simp only [sendThreadOps, size_append, size_cons, size_nil, Op.cost, Resource.cost]
    omega
  | waitList accepted hk =>
    have hframes := size_frames (k := k) accepted
    simp only [netInternalsendOps, size_cons, Op.cost, Resource.cost]
    omega
  | sendFrame => simp [linkInternalsendOps, Op.cost, Resource.cost]

theorem exists_serves {r : Resource} (h : Served n r) : ∃ p, HostServes k r p := by
  cases r with
  | recvFrame => exact ⟨_, .recvFrame .nothing⟩
  | recvDatagram => exact ⟨_, .recvDatagram none⟩
  | waitBuff slot =>
    exact ⟨_, .waitBuff slot allocServicePoint.sp
      { src := 0, dest := 0, seqNum := 0, ackNum := 0, flags := .ack, windowSize := 0, data := [] } 0 (by simp)⟩
  | sendBuff slot => exact ⟨_, .sendBuff slot [] (Nat.zero_le k)⟩
  | waitList => exact ⟨_, .waitList [] (Nat.zero_le k)⟩
  | sendFrame => exact ⟨_, .sendFrame⟩
  | mutex slot m => cases h
  | routeTable => cases h
  | prodInsert => cases h

end HostThreadsAux

end NetworkLayers
