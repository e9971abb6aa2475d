import NetworkLayers.Link.Garbler
import NetworkLayers.Lib.FaultyChannel
import NetworkLayers.Theorems.Link
import Mathlib.Data.List.ReduceOption

/-!
# A link with the garbler in it

The checksum of a frame turns a byte overwritten into a frame lost, so that the garbler, whatever its fractions and its draws, makes
the link a channel that keeps the order, loses some of the data and repeats some once. How often each of them arrives is what the
draw says.
-/

namespace NetworkLayers

open Bytes Transition FaultyChannel

/-- The fractions add up to no more than the whole. -/
structure Garbler.Valid (g : Garbler) : Prop where
  loss : 0 ≤ g.loss
  corruption : 0 ≤ g.corruption
  duplication : 0 ≤ g.duplication
  sum : g.loss + g.corruption + g.duplication ≤ 100

/-- How often a frame arrives undamaged: twice at most, and once when the byte written is the one that stood there. -/
def Garbler.copies (g : Garbler) (frame : List Byte) (rnd rnd' : Nat) : Nat :=
  let randomvalue : Int := rnd % 100
  if maxUdpSize < frame.length then 0
  else if randomvalue < g.loss then 0
  else if randomvalue < g.loss + g.corruption then
    if frame[rnd' % frame.length]? = some (UInt8.ofNat (rnd' % 256)) then 1 else 0
  else if randomvalue < g.loss + g.corruption + g.duplication then 2
  else 1

/-- The condition on a step: the frame of the data, with its header and its checksum, fits the largest MTU. -/
def FitsMaxMtu (t : Topology) : LinkAction → Prop
  | .linkSend data _ _ => data.length + linkHeaderSize + checksumSize ≤ t.getMaxMtu.toNat
  | _ => True

instance FitsMaxMtu.decidable (t : Topology) : ∀ act, Decidable (FitsMaxMtu t act)
  | .linkSend data _ _ => inferInstanceAs (Decidable (data.length + linkHeaderSize + checksumSize ≤ t.getMaxMtu.toNat))
  | .configGarbler .. | .lose _ | .internalrecv => inferInstanceAs (Decidable True)

/-- What an action lets through: the data, as often as the draw says. -/
def LinkStream.through (t : Topology) (a b : HostIndex) (s : LinkStream) : LinkAction → List (List Byte)
  | .linkSend data rnd rnd' =>
    if linkSend (t.links a b) data.length then
      List.replicate (s.garbler.copies (buildsendframe (sendFrame (hostNum b) data)) rnd rnd') data
    else []
  | _ => []

/-- What the actions of a list let through. -/
def LinkStream.allThrough (t : Topology) (a b : HostIndex) : LinkStream → List LinkAction → List (List Byte)
  | _, [] => []
  | s, act :: as => s.through t a b act ++ (((s.step t a b act).map fun s' => s'.allThrough t a b as).getD [])

namespace GarbledLinkAux

open LinkAux

variable {t : Topology} {a b : HostIndex} {s s' : LinkStream} {max : Nat} {datagram : List Byte}

/-! ## One byte overwritten -/

/-- Of bytes that pass the comparison, those with a byte overwritten by another do not. -/
theorem set_eq_of_rcvChecksum {l : List Byte} (hlen : checksumSize ≤ l.length) (hmax : l.length ≤ maxUdpSize) {i : Nat}
    {v : Byte} (h : rcvChecksum l l.length = 0) (h' : rcvChecksum (l.set i v) l.length = 0) : l.set i v = l := by
  rw [rcvChecksum_eq_zero_iff] at h h'
  obtain ⟨n, hn⟩ : ∃ n, l.length = n + checksumSize := ⟨l.length - checksumSize, by omega⟩
  have htake : (l.take n).length = n := by rw [List.length_take]; omega
  rw [hn, Nat.add_sub_cancel] at h h'
  rw [storedChecksum, Nat.add_sub_cancel] at h h'
  rcases Nat.lt_or_ge i n with hi | hi
  · -- a byte that the checksum covers: the stored one is the same
    have hstored : (l.set i v).drop n = l.drop n := List.drop_set_of_lt hi
    have hsum : ∀ l' : List Byte, checksum l' n = checksum (l'.take n) n := fun l' => by
      rw [checksum, checksum, List.take_take, Nat.min_self]
    rw [hstored, ← h, hsum, hsum l, List.take_set] at h'
    have hin : i < (l.take n).length := by omega
    have hv : v = (l.take n)[i] := by
      by_contra hv
      refine checksum_set_ne (by rw [htake]; unfold maxUdpSize at hmax; omega) (by omega) hv ?_
      rw [htake]
      exact h'
    rw [hv, List.getElem_take]
    exact List.set_getElem_self _
  · -- a byte of the checksum: the one computed is the same
    have htwo : ∀ l' : List Byte, l'.length = n + checksumSize → (l'.drop n).take checksumSize = l'.drop n := by
      intro l' hl'
      rw [List.take_of_length_le]
      rw [List.length_drop, hl']
      omega
    have hsum : checksum (l.set i v) n = checksum l n := by
      rw [checksum, checksum, List.take_set_of_le hi]
    rw [hsum, h, htwo _ hn, htwo _ (by rw [List.length_set, hn])] at h'
    have hdrop := ofLe_injective (by simp) h'
    calc l.set i v = (l.set i v).take n ++ (l.set i v).drop n := (List.take_append_drop n _).symm
      _ = l.take n ++ l.drop n := by rw [List.take_set_of_le hi, ← hdrop]
      _ = l := List.take_append_drop n l

/-- What stands in the buffer behind the bytes received does not count. -/
theorem rcvChecksum_left {l : List Byte} (hlen : checksumSize ≤ l.length) (rest : List Byte) :
    rcvChecksum (l ++ rest) l.length = 0 ↔ rcvChecksum l l.length = 0 := by
  rw [rcvChecksum_eq_zero_iff, ← rcvChecksum_take hlen, List.take_left]

/-! ## What a datagram carries -/

/-- Into a buffer of the size, `internalrecv` takes the data out of a datagram, or drops it. -/
def CarriesData (max : Nat) (datagram : List Byte) (o : Option (List Byte)) : Prop :=
  ∀ bufRcv : List Byte, bufRcv.length = max → ∃ f : Option LinkFrame, linkRecv bufRcv datagram = .ok f ∧
    f.map LinkFrame.data = o ∧ ∀ g ∈ f, g.size = g.data.length

/-- A frame that fits carries its data. -/
theorem carries_frame {dest : Nat} {data : List Byte} (hdest : dest < 65536)
    (hlen : data.length + linkHeaderSize < 18446744073709551616)
    (hfit : data.length + linkHeaderSize + checksumSize ≤ max) : CarriesData max (buildsendframe (sendFrame dest data)) (some data) := by
  intro bufRcv hbuf
  obtain ⟨f, hf, -, hsize, hdata⟩ := linkDelivers_of_le hdest hlen (hbuf ▸ hfit)
  refine ⟨some f, hf, congrArg some hdata, fun g hg => ?_⟩
  obtain rfl := Option.some.inj hg
  rw [hsize, hdata]

theorem length_frame (dest : Nat) {data : List Byte} (hlen : data.length + linkHeaderSize < 18446744073709551616) :
    (buildsendframe (sendFrame dest data)).length = data.length + linkHeaderSize + checksumSize := by
  rw [buildsendframe_eq dest hlen, List.length_append, length_leBytes, length_body, checksumSize]

/-- A frame passes the comparison. -/
theorem rcvChecksum_frame (dest : Nat) {data : List Byte} (hlen : data.length + linkHeaderSize < 18446744073709551616) :
    rcvChecksum (buildsendframe (sendFrame dest data)) (buildsendframe (sendFrame dest data)).length = 0 := by
  rw [buildsendframe_eq dest hlen, List.length_append, length_leBytes]
  have hzero := (rcvChecksum_append (length_leBytes 2 _) []).2 (ofLe_checksum (sendFrame dest data).body
    (sendFrame dest data).body.length).symm
  rwa [List.append_nil] at hzero

/-- With a byte overwritten by another it carries nothing. -/
theorem carries_garbled (max dest : Nat) {data : List Byte} (hlen : data.length + linkHeaderSize < 18446744073709551616)
    (hudp : (buildsendframe (sendFrame dest data)).length ≤ maxUdpSize)
    (hfit : data.length + linkHeaderSize + checksumSize ≤ max) {i : Nat} {v : Byte}
    (hne : (buildsendframe (sendFrame dest data))[i]? ≠ some v) (hi : i < (buildsendframe (sendFrame dest data)).length) :
    CarriesData max (garbled (buildsendframe (sendFrame dest data)) i v) none := by
  have hlength := length_frame dest hlen
  have hzero := rcvChecksum_frame dest hlen
  generalize buildsendframe (sendFrame dest data) = frame at hudp hne hi hlength hzero ⊢
  intro bufRcv hbuf
  have htwo : checksumSize ≤ frame.length := by omega
  have hset : (frame.set i v).length = frame.length := List.length_set
  have hrecv : recvfrom bufRcv (frame.set i v) = (frame.set i v ++ bufRcv.drop frame.length, frame.length) := by
    rw [recvfrom, hset, Nat.min_eq_left (by omega), List.take_of_length_le (by omega)]
  have hcaught : rcvChecksum (frame.set i v ++ bufRcv.drop frame.length) frame.length ≠ 0 := by
    rw [← hset, Ne, rcvChecksum_left (by omega), hset]
    intro h
    apply hne
    rw [← set_eq_of_rcvChecksum htwo hudp hzero h, List.getElem?_set_self hi]
  refine ⟨none, ?_, rfl, by simp⟩
  simp only [garbled, linkRecv, hrecv, Nat.not_lt.2 htwo, if_false, hcaught]

/-- What `sendto_garbled` gives to UDP carries the data as often as the draw says, and nothing else. -/
theorem carries_sendtoGarbled (g : Garbler) {dest : Nat} {data : List Byte} (hdest : dest < 65536)
    (hlen : data.length + linkHeaderSize < 18446744073709551616)
    (hfit : data.length + linkHeaderSize + checksumSize ≤ max) (rnd rnd' : Nat) :
    ∃ os, List.Forall₂ (CarriesData max) (g.sendtoGarbled (buildsendframe (sendFrame dest data)) rnd rnd') os ∧
      os.reduceOption = List.replicate (g.copies (buildsendframe (sendFrame dest data)) rnd rnd') data := by
  have hframe : CarriesData max (buildsendframe (sendFrame dest data)) (some data) := carries_frame hdest hlen hfit
  have hgarbled := carries_garbled max dest hlen
  have hpos : 0 < (buildsendframe (sendFrame dest data)).length := by
    rw [length_frame dest hlen, checksumSize]
    omega
  generalize buildsendframe (sendFrame dest data) = frame at hframe hgarbled hpos ⊢
  rcases Nat.lt_or_ge maxUdpSize frame.length with hlong | hudp
  · -- UDP takes no datagram of that length
    refine ⟨[], ?_, by simp [Garbler.copies, hlong]⟩
    have hnone : ∀ msg : List Byte, msg.length = frame.length → sendto msg = [] := fun msg hmsg =>
      if_neg (by rw [hmsg]; exact Nat.not_le.2 hlong)
    simp [Garbler.sendtoGarbled, hnone frame rfl, hnone (garbled frame _ _) List.length_set]
  · have hone : ∀ msg : List Byte, msg.length = frame.length → sendto msg = [msg] := fun msg hmsg =>
      if_pos (by rw [hmsg]; exact hudp)
    simp only [Garbler.sendtoGarbled, Garbler.copies, Nat.not_lt.2 hudp, if_false, hone frame rfl,
      hone (garbled frame _ _) List.length_set]
    split
    · exact ⟨[], List.Forall₂.nil, rfl⟩
    · split
      · split
        · -- the byte written is the one that stood there
          rename_i hsame
          obtain ⟨hi, hget⟩ := List.getElem?_eq_some_iff.1 hsame
          have hset : garbled frame (rnd' % frame.length) (UInt8.ofNat (rnd' % 256)) = frame := by
            rw [garbled, ← hget]
            exact List.set_getElem_self hi
          rw [hset]
          exact ⟨[some data], List.Forall₂.cons hframe List.Forall₂.nil, rfl⟩
        · rename_i hne
          exact ⟨[none], List.Forall₂.cons (hgarbled hudp hfit hne (Nat.mod_lt _ hpos)) List.Forall₂.nil, rfl⟩
      · split
        · exact ⟨[some data, some data], List.Forall₂.cons hframe (List.Forall₂.cons hframe List.Forall₂.nil), rfl⟩
        · exact ⟨[some data], List.Forall₂.cons hframe List.Forall₂.nil, rfl⟩

/-! ## The steps -/

theorem valid_init : Garbler.init.Valid := ⟨by decide, by decide, by decide, by decide⟩

theorem valid_setGarbler {g : Garbler} (hg : g.Valid) (l c d : Int) : (g.setGarbler l c d).1.Valid := by
  unfold Garbler.setGarbler
  split
  · exact hg
  · split
    · exact hg
    · split
      · exact hg
      · split
        · exact hg
        · exact ⟨by simp only; omega, by simp only; omega, by simp only; omega, by simp only; omega⟩

theorem copies_le (g : Garbler) (frame : List Byte) (rnd rnd' : Nat) : g.copies frame rnd rnd' ≤ 2 := by
  unfold Garbler.copies
  dsimp only
  repeat' split
  all_goals decide

/-- The datagrams on their way and what they carry: the fractions are valid, and the buffer is of its size. -/
structure Carrying (t : Topology) (s : LinkStream) (os : List (Option (List Byte))) : Prop where
  valid : s.garbler.Valid
  buffer : s.bufRcv.length = t.getMaxMtu.toNat
  carries : List.Forall₂ (CarriesData t.getMaxMtu.toNat) s.udp os

theorem carrying_init {bufRcv : List Byte} (hbuf : bufRcv.length = t.getMaxMtu.toNat) :
    Carrying t (LinkStream.init bufRcv) [] :=
  ⟨valid_init, hbuf, List.Forall₂.nil⟩

theorem length_recvfrom (bufRcv sent : List Byte) : (recvfrom bufRcv sent).1.length = bufRcv.length := by
  simp only [recvfrom, List.length_append, List.length_take, List.length_drop]
  omega

/-- A datagram that is on its way is taken. -/
theorem exists_internalrecv {os : List (Option (List Byte))} (h : Carrying t s os) (hudp : s.udp ≠ []) :
    ∃ s', s.step t a b .internalrecv = some s' := by
  have hcarries := h.carries
  cases hu : s.udp with
  | nil => exact absurd hu hudp
  | cons datagram udp =>
    rw [hu] at hcarries
    obtain ⟨o, os, hc, -, rfl⟩ := List.forall₂_cons_left_iff.1 hcarries
    obtain ⟨f, hf, -, -⟩ := hc s.bufRcv h.buffer
    simp only [LinkStream.step, hu, hf]
    exact ⟨_, rfl⟩

/-- What a step does to what is sent, what is received and what is carried. -/
theorem carrying_step {os : List (Option (List Byte))} {act : LinkAction} (h : Carrying t s os) (hok : FitsMaxMtu t act)
    (hs : s.step t a b act = some s') :
    ∃ os', Carrying t s' os' ∧
      ((∃ data rnd rnd', act = .linkSend data rnd rnd' ∧ s'.received = s.received ∧
          ((linkSend (t.links a b) data.length ∧ s'.sent = s.sent ++ [data] ∧
              os'.reduceOption = os.reduceOption ++
                List.replicate (s.garbler.copies (buildsendframe (sendFrame (hostNum b) data)) rnd rnd') data) ∨
            (¬linkSend (t.links a b) data.length ∧ s'.sent = s.sent ∧ os' = os))) ∨
        ((∃ i, act = .lose i) ∧ s'.sent = s.sent ∧ s'.received = s.received ∧ os'.reduceOption.Sublist os.reduceOption) ∨
        ((∀ data rnd rnd', act ≠ .linkSend data rnd rnd') ∧ (∀ i, act ≠ .lose i) ∧ s'.sent = s.sent ∧
          s'.received ++ os'.reduceOption = s.received ++ os.reduceOption)) := by
  obtain ⟨hvalid, hbuf, hcarries⟩ := h
  cases act with
  | configGarbler l c d =>
    cases hs
    exact ⟨os, ⟨valid_setGarbler hvalid l c d, hbuf, hcarries⟩, Or.inr (Or.inr ⟨by simp, by simp, rfl, rfl⟩)⟩
  | linkSend data rnd rnd' =>
    simp only [LinkStream.step] at hs
    split at hs
    · rename_i hsend
      cases hs
      have hdest : hostNum b < 65536 := by
        have := b.isLt
        simp only [maxHosts] at this
        simp only [hostNum]
        omega
      obtain ⟨hlt, hmax⟩ := lt_of_linkSend hsend
      have hlen : data.length + linkHeaderSize < 18446744073709551616 := by
        rw [linkHeaderSize]
        omega
      obtain ⟨os₁, hcarries₁, hos₁⟩ := carries_sendtoGarbled s.garbler hdest hlen hok rnd rnd'
      refine ⟨os ++ os₁, ⟨hvalid, hbuf, List.rel_append hcarries hcarries₁⟩, Or.inl ⟨data, rnd, rnd', rfl, rfl, Or.inl ?_⟩⟩
      exact ⟨hsend, rfl, by rw [List.reduceOption_append, hos₁]⟩
    · rename_i hsend
      cases hs
      exact ⟨os, ⟨hvalid, hbuf, hcarries⟩, Or.inl ⟨data, rnd, rnd', rfl, rfl, Or.inr ⟨hsend, rfl, rfl⟩⟩⟩
  | lose i =>
    simp only [LinkStream.step] at hs
    split at hs
    · cases hs
      refine ⟨os.eraseIdx i, ⟨hvalid, hbuf, ?_⟩, Or.inr (Or.inl ⟨⟨i, rfl⟩, rfl, rfl, ?_⟩)⟩
      · rw [List.eraseIdx_eq_take_drop_succ, List.eraseIdx_eq_take_drop_succ]
        exact List.rel_append (List.forall₂_take i hcarries) (List.forall₂_drop (i + 1) hcarries)
      · exact (List.eraseIdx_sublist os i).filterMap _
    · cases hs
  | internalrecv =>
    cases hu : s.udp with
    | nil => simp [LinkStream.step, hu] at hs
    | cons datagram udp =>
      rw [hu] at hcarries
      obtain ⟨o, os, hc, hrest, rfl⟩ := List.forall₂_cons_left_iff.1 hcarries
      obtain ⟨f, hf, hdata, -⟩ := hc s.bufRcv hbuf
      simp only [LinkStream.step, hu, hf, Option.some.injEq] at hs
      subst hs
      refine ⟨os, ⟨hvalid, (length_recvfrom _ _).trans hbuf, hrest⟩, Or.inr (Or.inr ⟨by simp, by simp, rfl, ?_⟩)⟩
      have hcons : (o :: os).reduceOption = o.toList ++ os.reduceOption := by
        rw [← List.reduceOption_singleton, ← List.reduceOption_append, List.singleton_append]
      simp only [hdata, hcons, List.append_assoc]

/-- What is on its way can be taken to the last. -/
theorem exists_drained {n : Nat} {os : List (Option (List Byte))} (h : Carrying t s os) (hn : s.udp.length = n) :
    ∃ s', exec (LinkStream.step t a b) s (List.replicate n .internalrecv) = some s' ∧ s'.udp = [] := by
  induction n generalizing s os with
  | zero => exact ⟨s, rfl, List.length_eq_zero_iff.1 hn⟩
  | succ n ih =>
    cases hu : s.udp with
    | nil => simp [hu] at hn
    | cons datagram udp =>
      obtain ⟨s₁, hs₁⟩ := exists_internalrecv (a := a) (b := b) h (by simp [hu])
      have hfits : FitsMaxMtu t .internalrecv := trivial
      obtain ⟨os₁, hcarrying, -⟩ := carrying_step h hfits hs₁
      have hlen : s₁.udp.length = n := by
        simp only [LinkStream.step, hu] at hs₁
        split at hs₁
        · cases hs₁
        · cases hs₁
          simpa [hu] using hn
      obtain ⟨s', he, hudp⟩ := ih hcarrying hlen
      exact ⟨s', by simp [List.replicate_succ, exec, hs₁, he], hudp⟩

/-- Over a run in which UDP loses nothing, what is received and what is still carried is what the draws let through. -/
theorem exact_of_exec {as : List LinkAction} {os : List (Option (List Byte))} (h : Carrying t s os)
    (hok : Along (LinkStream.step t a b) (fun _ act => FitsMaxMtu t act) s as) (hlose : ∀ i, LinkAction.lose i ∉ as)
    (he : exec (LinkStream.step t a b) s as = some s') :
    ∃ os', Carrying t s' os' ∧
      s'.received ++ os'.reduceOption = s.received ++ os.reduceOption ++ s.allThrough t a b as := by
  induction as generalizing s os with
  | nil =>
    cases he
    exact ⟨os, h, by rw [LinkStream.allThrough, List.append_nil]⟩
  | cons act as ih =>
    simp only [exec, Option.bind_eq_some_iff] at he
    obtain ⟨s₁, hs₁, he⟩ := he
    obtain ⟨os₁, hcarrying, hcases⟩ := carrying_step h hok.1 hs₁
    obtain ⟨os', hcarrying', heq⟩ := ih hcarrying (hok.2 s₁ hs₁) (fun i hi => hlose i (List.mem_cons_of_mem act hi)) he
    refine ⟨os', hcarrying', ?_⟩
    have hone : s₁.received ++ os₁.reduceOption = s.received ++ os.reduceOption ++ s.through t a b act := by
      rcases hcases with ⟨data, rnd, rnd', rfl, hrcv, hsent⟩ | ⟨⟨i, rfl⟩, -⟩ | ⟨hnot, -, -, hrcv⟩
      · rcases hsent with ⟨hsend, -, hos⟩ | ⟨hsend, -, rfl⟩
        · rw [hrcv, hos, LinkStream.through, if_pos hsend, List.append_assoc]
        · rw [hrcv, LinkStream.through, if_neg hsend, List.append_nil]
      · exact absurd List.mem_cons_self (hlose i)
      · have hnil : s.through t a b act = [] := by
          cases act with
          | linkSend data rnd rnd' => exact absurd rfl (hnot data rnd rnd')
          | _ => rfl
        rw [hrcv, hnil, List.append_nil]
    rw [heq, hone, LinkStream.allThrough, hs₁, List.append_assoc _ (s.through t a b act)]
    rfl

/-- What was received and what is carried are copies of what was sent. -/
def CopiesSent (t : Topology) (s : LinkStream) : Prop :=
  ∃ os, Carrying t s os ∧ Copies 2 s.sent (s.received ++ os.reduceOption)

theorem copiesSent_step {act : LinkAction} (h : CopiesSent t s) (hok : FitsMaxMtu t act) (hs : s.step t a b act = some s') :
    CopiesSent t s' := by
  obtain ⟨os, hcarrying, hcopies⟩ := h
  obtain ⟨os', hcarrying', hcases⟩ := carrying_step hcarrying hok hs
  refine ⟨os', hcarrying', ?_⟩
  rcases hcases with ⟨data, rnd, rnd', rfl, hrcv, hsent⟩ | ⟨-, hsent, hrcv, hsub⟩ | ⟨-, -, hsent, hrcv⟩
  · rcases hsent with ⟨-, hsent, hos⟩ | ⟨-, hsent, rfl⟩
    · rw [hsent, hrcv, hos, ← List.append_assoc]
      exact hcopies.concat data (copies_le _ _ _ _)
    · rwa [hsent, hrcv]
  · rw [hsent, hrcv]
    exact hcopies.of_sublist ((List.Sublist.refl _).append hsub)
  · rwa [hsent, hrcv]

end GarbledLinkAux

open GarbledLinkAux in
/-- Whatever the fractions and the draws, and whatever UDP loses: the fractions stay valid, what is handed to the network layer is
what `link_send` accepted, in its order, with some of it left out and some repeated once, and no datagram makes `internalrecv` leave
its buffer. -/
theorem garbled_link_exact {t : Topology} {a b : HostIndex} {bufRcv : List Byte} (hbuf : bufRcv.length = t.getMaxMtu.toNat)
    {s : LinkStream} (h : Reach (LinkStream.step t a b) (fun _ act => FitsMaxMtu t act) (LinkStream.init bufRcv) s) :
    s.garbler.Valid ∧ Copies 2 s.sent s.received ∧ (s.udp ≠ [] → ∃ s', s.step t a b .internalrecv = some s') := by
  have h0 : CopiesSent t (LinkStream.init bufRcv) := ⟨[], carrying_init hbuf, Copies.nil⟩
  obtain ⟨os, hcarrying, hcopies⟩ := h.invariant h0 fun _ _ _ hinv hok hs => copiesSent_step hinv hok hs
  exact ⟨hcarrying.valid, hcopies.of_sublist (List.sublist_append_left _ _), exists_internalrecv hcarrying⟩

/-- A link of MTU 40 between the first two hosts. -/
def shortLink : Topology where
  links i j := if (i = 0 ∧ j = 1) ∨ (i = 1 ∧ j = 0) then 40 else -1
  symm := by decide
  range := by decide

/-- Four frames: one lost, one with a byte overwritten, one sent twice, and one sent as it is. -/
def fourFrames : List LinkAction :=
  [.configGarbler 20 30 40, .linkSend [7, 8, 9] 5 0, .linkSend [7, 8, 9] 130 11, .linkSend [7, 8] 60 0, .linkSend [9] 95 0]

/-- UDP loses the third of the datagrams. -/
theorem four_frames_exact :
    ∃ s, Reach (LinkStream.step shortLink 0 1) (fun _ act => FitsMaxMtu shortLink act) (LinkStream.init (List.replicate 40 0)) s ∧
      s.udp.length = 3 ∧ s.garbler.Valid ∧ Copies 2 s.sent s.received ∧
      (s.udp ≠ [] → ∃ s', s.step shortLink 0 1 .internalrecv = some s') := by
  obtain ⟨s, he⟩ : ∃ s, exec (LinkStream.step shortLink 0 1) (LinkStream.init (List.replicate 40 0)) (fourFrames ++ [.lose 2]) =
      some s := Option.isSome_iff_exists.1 (by decide +kernel)
  have hlen : (exec (LinkStream.step shortLink 0 1) (LinkStream.init (List.replicate 40 0)) (fourFrames ++ [.lose 2])).map
      (fun s => s.udp.length) = some 3 := by decide +kernel
  rw [he] at hlen
  have hreach : Reach (LinkStream.step shortLink 0 1) (fun _ act => FitsMaxMtu shortLink act) (LinkStream.init (List.replicate 40 0)) s :=
    reach_of_exec (by decide +kernel) he
  exact ⟨s, hreach, Option.some.inj hlen, garbled_link_exact (by rw [List.length_replicate]; decide +kernel) hreach⟩

open GarbledLinkAux in
/-- Where every frame fits the largest MTU, so that the receive buffer cuts none off: when UDP loses nothing and has delivered what it
has, the network layer has got what the draws let through: nothing of a frame lost or damaged, twice the data of a frame doubled, and
once those of every other. -/
theorem garbled_link_counts {t : Topology} {a b : HostIndex} {bufRcv : List Byte} (hbuf : bufRcv.length = t.getMaxMtu.toNat)
    {as : List LinkAction} {s : LinkStream}
    (hok : Along (LinkStream.step t a b) (fun _ act => FitsMaxMtu t act) (LinkStream.init bufRcv) as)
    (hlose : ∀ i, LinkAction.lose i ∉ as) (he : exec (LinkStream.step t a b) (LinkStream.init bufRcv) as = some s)
    (hudp : s.udp = []) : s.received = (LinkStream.init bufRcv).allThrough t a b as := by
  obtain ⟨os, hcarrying, heq⟩ := exact_of_exec (carrying_init hbuf) hok hlose he
  have hcarries := hcarrying.carries
  rw [hudp, List.forall₂_nil_left_iff] at hcarries
  rw [hcarries] at heq
  simpa [LinkStream.init] using heq

open GarbledLinkAux in
/-- Of the four frames, the data of the third arrive twice and those of the fourth once. -/
theorem four_frames_counts :
    ∃ s, exec (LinkStream.step shortLink 0 1) (LinkStream.init (List.replicate 40 0)) (fourFrames ++ List.replicate 4 .internalrecv) =
      some s ∧ s.received = [[7, 8], [7, 8], [9]] := by
  have hbuf : (List.replicate 40 (0 : Byte)).length = shortLink.getMaxMtu.toNat := by
    rw [List.length_replicate]
    decide +kernel
  obtain ⟨s₁, hs₁⟩ : ∃ s, exec (LinkStream.step shortLink 0 1) (LinkStream.init (List.replicate 40 0)) fourFrames = some s :=
    Option.isSome_iff_exists.1 (by decide +kernel)
  have hudp : (exec (LinkStream.step shortLink 0 1) (LinkStream.init (List.replicate 40 0)) fourFrames).map
      (fun s => s.udp.length) = some 4 := by decide +kernel
  have hfits : ∀ act ∈ fourFrames ++ List.replicate 4 .internalrecv, FitsMaxMtu shortLink act := by decide +kernel
  rw [hs₁] at hudp
  obtain ⟨os, hcarrying, -⟩ := exact_of_exec (t := shortLink) (a := 0) (b := 1) (carrying_init hbuf)
    (along_of_forall fun act hact => hfits act (List.mem_append_left _ hact)) (by simp [fourFrames]) hs₁
  obtain ⟨s, hdrained, hnil⟩ := exists_drained (a := 0) (b := 1) hcarrying (Option.some.inj hudp)
  have he : exec (LinkStream.step shortLink 0 1) (LinkStream.init (List.replicate 40 0))
      (fourFrames ++ List.replicate 4 .internalrecv) = some s := by rw [exec_append, hs₁, Option.bind_some, hdrained]
  refine ⟨s, he, ?_⟩
  rw [garbled_link_counts hbuf (along_of_forall hfits) (by simp [fourFrames]) he hnil]
  decide +kernel

end NetworkLayers
