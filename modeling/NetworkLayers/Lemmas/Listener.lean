import NetworkLayers.Application.Listener
import NetworkLayers.Lemmas.Transfer

/-!
# Steps of one side

What a step of a side can be, and how a program goes on after a `send_ips` or a `recv_ips`, whatever has come.
-/

namespace NetworkLayers

open Bytes

/-- How a program goes on: it sends something, begins a `recv_ips`, returns, or has gone beyond a buffer. -/
inductive Call.Next : Call → Prop where
  | sendIps {m : List Byte} : m ≠ [] → Next (.sendIps m)
  | recvIps : Next (.recvIps .start)
  | returned : Next .returned
  | fault : Next .fault

theorem frame_ne_nil (body : List Byte) : Framing.frame intSize body ≠ [] :=
  List.ne_nil_of_length_pos (by rw [Framing.length_frame]; unfold intSize; omega)

theorem Download.next_resume (d : Download) (recvbuf : Buffer) : (d.resume recvbuf).1.Next := by
  have hloop (fileSize : Int) (file : List Byte) : (d.loop fileSize file).1.Next := by
    unfold Download.loop
    split
    · exact .recvIps
    · exact .returned
  unfold Download.resume
  split
  · exact .recvIps
  · dsimp only
    split
    · exact .returned
    · exact hloop _ _
  · dsimp only
    split
    · exact .fault
    · exact hloop _ _
  · exact .returned

theorem Upload.next_resume (u : Upload) (recvbuf : Buffer) : (u.resume recvbuf).1.Next := by
  have hloop (fileSize : Int) (left : List Byte) : (u.loop fileSize left).1.Next := by
    unfold Upload.loop
    split
    · exact .sendIps (frame_ne_nil _)
    · exact .returned
  unfold Upload.resume
  split
  · dsimp only
    split
    · exact .fault
    · split
      · exact .fault
      · exact .sendIps (frame_ne_nil _)
  · split
    · exact .returned
    · exact hloop _ _
  · exact hloop _ _
  · exact .returned

/-- `upload` receives once. -/
theorem Upload.resume_ne_recvIps (u : Upload) (recvbuf : Buffer) (r : RecvIps) : (u.resume recvbuf).1 ≠ .recvIps r := by
  have hloop (fileSize : Int) (left : List Byte) : (u.loop fileSize left).1 ≠ .recvIps r := by
    unfold Upload.loop
    split <;> exact nofun
  unfold Upload.resume
  split
  · dsimp only
    split
    · exact nofun
    · split <;> exact nofun
  · split
    · exact nofun
    · exact hloop _ _
  · exact hloop _ _
  · exact nofun

theorem Peer.next_resume (p : Peer) : p.resume.call.Next := by
  unfold Peer.resume
  cases p.program with
  | download d => exact d.next_resume p.recvbuf
  | upload u => exact u.next_resume p.recvbuf

/-- A `recv_ips` begins with the length. -/
theorem Peer.start_of_resume {p : Peer} {r : RecvIps} (hcall : p.resume.call = .recvIps r) : r = .start := by
  have hnext : (Call.recvIps r).Next := hcall ▸ p.next_resume
  cases hnext
  rfl

/-- What a step is made of: a `send_ips` goes on or returns, a `recv_ips` goes on, has the length, returns or runs beyond `recvbuf`. -/
inductive Listener.Stepped (x : Listener) (n : Nat) : Listener → Prop where
  | send {rest : List Byte} : x.peer.call = .sendIps rest → n < rest.length →
      Stepped x n { x with peer := { x.peer with call := .sendIps (rest.drop n) } }
  | sent {rest : List Byte} : x.peer.call = .sendIps rest → rest.length = n → Stepped x n { x with peer := x.peer.resume }
  | beyond {r : RecvIps} : x.peer.call = .recvIps r → n ≤ r.buflen → n ≤ x.stream.length → maxBufLength < r.ptr + n →
      Stepped x n { peer := { x.peer with call := .fault }, stream := x.stream.drop n }
  | more {r : RecvIps} {buf : Buffer} : x.peer.call = .recvIps r → n < r.buflen → n ≤ x.stream.length →
      x.peer.recvbuf.write r.ptr (x.stream.take n) = some buf →
      Stepped x n
        { peer := { x.peer with recvbuf := buf, call := .recvIps { r with ptr := r.ptr + n, buflen := r.buflen - n } }
          stream := x.stream.drop n }
  | length {r : RecvIps} {buf : Buffer} : x.peer.call = .recvIps r → r.buflen = n → n ≤ x.stream.length → r.tail = false →
      x.peer.recvbuf.write r.ptr (x.stream.take n) = some buf →
      Stepped x n
        { peer := { x.peer with
            recvbuf := buf
            call := .recvIps { ptr := r.ptr + n, buflen := u32 (ofLe (buf.read 0 intSize) + (4294967296 - intSize)), tail := true } }
          stream := x.stream.drop n }
  | message {r : RecvIps} {buf : Buffer} : x.peer.call = .recvIps r → r.buflen = n → n ≤ x.stream.length → r.tail = true →
      x.peer.recvbuf.write r.ptr (x.stream.take n) = some buf →
      Stepped x n
        { peer := { x.peer with recvbuf := buf, read := x.peer.read ++ [buf.read 0 (r.ptr + n)] }.resume
          stream := x.stream.drop n }

/-- A write beyond the buffer. -/
theorem Buffer.write_eq_none_iff {b : Buffer} {pos : Nat} {bs : List Byte} :
    b.write pos bs = none ↔ maxBufLength < pos + bs.length := by
  unfold Buffer.write
  split
  · rename_i hle
    exact iff_of_false (Option.some_ne_none _) (Nat.not_lt.2 hle)
  · rename_i hlt
    exact iff_of_true rfl (Nat.lt_of_not_le hlt)

theorem Buffer.le_of_write {b b' : Buffer} {pos : Nat} {bs : List Byte} (h : b.write pos bs = some b') :
    pos + bs.length ≤ maxBufLength := by
  by_contra hlt
  rw [Buffer.write_eq_none_iff.2 (Nat.lt_of_not_le hlt)] at h
  cases h

/-- Nothing is written. -/
theorem Buffer.write_nil (b : Buffer) {pos : Nat} (h : pos ≤ maxBufLength) : b.write pos [] = some b := by
  obtain ⟨bytes, hlen⟩ := b
  unfold Buffer.write
  rw [dif_pos (by simpa using h)]
  simp

theorem Listener.stepped {x y : Listener} {n : Nat} (hs : x.step n = some y) : x.Stepped n y := by
  obtain ⟨p, stream⟩ := x
  unfold Listener.step at hs
  cases hcall : p.call with
  | sendIps rest =>
    simp only [hcall] at hs
    split at hs
    · rename_i hn
      obtain rfl := Option.some.inj hs
      unfold Peer.sendIps
      split
      · rename_i hlen
        exact .sent hcall hlen
      · rename_i hlen
        exact .send hcall (Nat.lt_of_le_of_ne hn (Ne.symm hlen))
    · cases hs
  | recvIps r =>
    simp only [hcall] at hs
    split at hs
    · rename_i hn
      obtain ⟨hn, hstream⟩ := hn
      obtain rfl := Option.some.inj hs
      have hlen : (stream.take n).length = n := by simp [hstream]
      unfold Peer.recvIps
      cases hwrite : p.recvbuf.write r.ptr (stream.take n) with
      | none =>
        rw [Buffer.write_eq_none_iff, hlen] at hwrite
        exact .beyond hcall hn hstream hwrite
      | some buf =>
        dsimp only
        rw [hlen]
        rcases Nat.lt_or_eq_of_le hn with hlt | heq
        · rw [if_pos (by omega)]
          exact .more hcall hlt hstream hwrite
        · rw [if_neg (by omega)]
          cases htail : r.tail with
          | true =>
            rw [if_pos rfl]
            exact .message hcall heq.symm hstream htail hwrite
          | false =>
            rw [if_neg Bool.false_ne_true]
            exact .length hcall heq.symm hstream htail hwrite
    · cases hs
  | returned | fault =>
    simp only [hcall] at hs
    cases hs

/-- A call can return no more than it is given or asks for and there is. -/
theorem Listener.exists_step_recvIps {x : Listener} {r : RecvIps} {n : Nat} (hcall : x.peer.call = .recvIps r) (hn : n ≤ r.buflen)
    (hstream : n ≤ x.stream.length) : ∃ y, x.step n = some y := by
  unfold Listener.step
  simp only [hcall]
  exact ⟨_, if_pos ⟨hn, hstream⟩⟩

theorem Listener.le_of_step_recvIps {x y : Listener} {r : RecvIps} {n : Nat} (hcall : x.peer.call = .recvIps r)
    (hs : x.step n = some y) : n ≤ r.buflen ∧ n ≤ x.stream.length := by
  unfold Listener.step at hs
  simp only [hcall] at hs
  split at hs
  · assumption
  · cases hs

/-- A program that has returned makes no call. -/
theorem Listener.calls_of_step {x y : Listener} {n : Nat} (hs : x.step n = some y) :
    (∃ rest, x.peer.call = .sendIps rest) ∨ ∃ r, x.peer.call = .recvIps r := by
  cases Listener.stepped hs with
  | send h | sent h => exact Or.inl ⟨_, h⟩
  | beyond h | more h | length h | message h => exact Or.inr ⟨_, h⟩

/-- Each side of a transfer is a side alone, to which comes what is on its way. -/
theorem Transfer.listener_step {s s' : Transfer} {x : Side} {n : Nat} (hs : s.step (x, n) = some s') :
    (⟨s.peer x, s.stream x⟩ : Listener).step n = some ⟨s'.peer x, s'.stream x⟩ := by
  rcases Transfer.step_cases hs with ⟨rest, hcall, hn, rfl⟩ | ⟨r, hcall, hn, hwire, rfl⟩
  · simp [Listener.step, hcall, hn]
  · simp [Listener.step, hcall, hn, hwire]

/-- After a `send_ips` a `recv_ips` begins where the program goes on. -/
theorem Listener.peer_of_sendIps {x y : Listener} {rest : List Byte} {r : RecvIps} {n : Nat} (hsend : x.peer.call = .sendIps rest)
    (hs : x.step n = some y) (hcall : y.peer.call = .recvIps r) : y.peer = x.peer.resume := by
  cases Listener.stepped hs with
  | send => cases hcall
  | sent => rfl
  | beyond h | more h | length h | message h => cases hsend.symm.trans h

end NetworkLayers
