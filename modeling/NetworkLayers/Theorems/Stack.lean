import NetworkLayers.Lemmas.Stack

/-!
# What the layers below the transport layer deliver

For packets that go in one piece, passed to `net_send` by one thread of a host at a time, whatever is lost, repeated, put out of order
or damaged in a byte: the transport layer of a host is given nothing but what another passed on for it, and the nodes learn of routes as
if they told each other by word of mouth. No thread leaves a buffer or a table, and none is left with something it cannot take.
-/

namespace NetworkLayers

open Transition StackAux

namespace StackAux

variable {t : Topology} {s : Stack} {r : SwitchNet} {n : HostIndex}

/-- Where there is room in the queue, a datagram on its way is taken. -/
theorem exists_internalrecv (h : Refines t s r) {datagram : List Byte} (hmem : (n, datagram) ∈ s.udp)
    (hroom : (s.hosts n).waitList.length < maxSendWaiting) : ∃ s', s.step t (.internalrecv n datagram) = some s' := by
  obtain ⟨s₁, hs₁, h₁, hdrop | ⟨d, f, hd, hdata, hsize, heq⟩⟩ := internalrecv_eq h hmem
  · exact ⟨s₁, hdrop⟩
  · have hroom₁ : (s₁.hosts n).waitList.length < maxSendWaiting := by
      rw [hs₁]
      simpa [Stack.setHost] using hroom
    rw [heq]
    rcases netRecv_eq h₁ hd hdata hsize with ⟨-, hrecv⟩ | ⟨-, list, -, hrecv⟩
    · rw [hrecv]
      split
      · exact ⟨s₁, rfl⟩
      · exact ⟨_, if_pos hroom₁⟩
    · rw [hrecv]
      split
      · exact ⟨_, rfl⟩
      · exact ⟨_, rfl⟩

theorem exists_refines {bufRcv : HostIndex → List Byte} (hbuf : ∀ n, (bufRcv n).length = t.getMaxMtu.toNat)
    (h : Reach (Stack.step t) (fun _ a => a.Fits t) (Stack.init t bufRcv) s) :
    ∃ r, Reach SwitchNet.step anyStep (SwitchNet.init t.links) r ∧ Refines t s r := by
  refine h.simulate (refines_init hbuf) ?_
  intro s a s' r hr hok hs
  rcases refines_step hr hok hs with hsame | ⟨b, r', hb, hr', -⟩
  · exact Or.inl hsame
  · exact Or.inr ⟨b, r', hb, hr'⟩

end StackAux

/-- In every run, however UDP and the garblers treat the datagrams and whatever routes are switched, where every link takes every packet
in one piece: what is given to a transport layer was accepted from that of the host it is said to come from, for this host and byte for
byte, and every item, datagram and route that waits can be taken by the thread it waits for. -/
theorem stack_delivers_accepted {t : Topology} {bufRcv : HostIndex → List Byte}
    (hbuf : ∀ n, (bufRcv n).length = t.getMaxMtu.toNat) {s : Stack}
    (h : Reach (Stack.step t) (fun _ a => a.Fits t) (Stack.init t bufRcv) s) :
    (∀ x ∈ s.delivered, ∃ m data, x.src = hostNum m ∧ x.data = data.map some ∧ ⟨m, hostNum x.host, data⟩ ∈ s.accepted) ∧
      (∀ n draws, (s.hosts n).waitList ≠ [] → ∃ s', s.step t (.internalsend n draws) = some s') ∧
      (∀ n datagram, (n, datagram) ∈ s.udp → (s.hosts n).waitList.length < maxSendWaiting →
        ∃ s', s.step t (.internalrecv n datagram) = some s') ∧
      ∀ n, ∀ param ∈ (s.hosts n).routeThreads, ∃ s', s.step t (.internalhandleroute n param) = some s' := by
  obtain ⟨r, -, hr⟩ := exists_refines hbuf h
  refine ⟨hr.delivered, ?_, fun n datagram => exists_internalrecv hr, ?_⟩
  · intro n draws hne
    obtain ⟨item, waitList, hlist⟩ := List.exists_cons_of_ne_nil hne
    obtain ⟨_, _, -, -, heq⟩ := internalsend_eq hr hlist draws
    exact ⟨_, heq⟩
  · intro n param hparam
    obtain ⟨_, s', _, hs', -⟩ := refines_handle hr hparam
    exact ⟨s', hs'⟩

/-- Host 1 sends three bytes to host 2 over a link of MTU 40. -/
def threeBytesRun : List StackAction := [.start 0, .start 1, .netSend 0 2 [7, 8, 9], .internalsend 0 [(50, 0)]]

/-- Their datagram is on its way, and host 2 can take it. -/
theorem three_bytes_taken :
    ∃ s, exec (Stack.step shortLink) (Stack.init shortLink fun _ => List.replicate 40 0) threeBytesRun = some s ∧
      s.accepted = [⟨0, 2, [7, 8, 9]⟩] ∧
      (∃ datagram s', (1, datagram) ∈ s.udp ∧ s.step shortLink (.internalrecv 1 datagram) = some s') ∧
      ∀ x ∈ s.delivered, ∃ m data, x.src = hostNum m ∧ x.data = data.map some ∧ ⟨m, hostNum x.host, data⟩ ∈ s.accepted := by
  obtain ⟨s, hs⟩ : ∃ s, exec (Stack.step shortLink) (Stack.init shortLink fun _ => List.replicate 40 0) threeBytesRun = some s :=
    Option.isSome_iff_exists.1 (by decide +kernel)
  have hmap : (exec (Stack.step shortLink) (Stack.init shortLink fun _ => List.replicate 40 0) threeBytesRun).map
      (fun s => (s.accepted, s.udp.map Prod.fst, (s.hosts 1).waitList)) = some ([⟨0, 2, [7, 8, 9]⟩], [1], []) := by decide +kernel
  rw [hs, Option.map_some, Option.some.injEq, Prod.mk.injEq, Prod.mk.injEq] at hmap
  obtain ⟨haccepted, hudp, hempty⟩ := hmap
  obtain ⟨hdelivered, -, hrecv, -⟩ := stack_delivers_accepted (fun _ => by rw [List.length_replicate]; decide +kernel)
    (reach_of_exec (along_of_forall (by decide +kernel)) hs)
  obtain ⟨p, hp, hp1⟩ : ∃ p ∈ s.udp, p.1 = 1 := List.mem_map.1 (hudp ▸ List.mem_singleton_self 1)
  obtain ⟨s', hs'⟩ := hrecv 1 p.2 (hp1 ▸ hp) (by rw [hempty]; decide)
  exact ⟨s, hs, haccepted, ⟨p.2, s', hp1 ▸ hp, hs'⟩, hdelivered⟩

end NetworkLayers
