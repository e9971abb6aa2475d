import NetworkLayers.Lemmas.Carrying

/-!
# What was accepted can always still arrive

While no link is switched and no point closes, nothing that has happened keeps the bytes of one point from the other: the threads of
the hosts can bring all of them there by themselves.
-/

namespace NetworkLayers

open Transition StackAux

/-- The step switches no link. -/
def ConnectionAction.KeepsLinks : ConnectionAction → Prop
  | .below a => a.KeepsLinks
  | _ => True

instance ConnectionAction.KeepsLinks.decidable : ∀ a, Decidable (ConnectionAction.KeepsLinks a)
  | .below a => inferInstanceAs (Decidable a.KeepsLinks)
  | .point .. | .internalrecv _ | .recvThread .. | .syncThread .. => inferInstanceAs (Decidable True)

namespace CarryingAux

open ConnectionAux ProgressAux

variable {t : Topology} {e : Ends} {s s' : Connection} {x : Side} {q : Nat}

/-- What holds in every run that switches no link. -/
structure Steady (t : Topology) (e : Ends) (s : Connection) : Prop where
  tracks : Tracks t e s
  sound : ∃ r, FollowsSound t s.stack r
  counted : Counted s
  unlocked : ∀ y, Unlocked (s.point y)

theorem sound_step (hlinks : FitsLinks t (maxSegmentSize + transportHeaderSize)) (htracks : Tracks t e s) {r : SwitchNet}
    (h : FollowsSound t s.stack r) {a : ConnectionAction} (hfits : a.Fits t e) (hkeeps : a.KeepsLinks) (hs : OnStack t e s s' a) :
    ∃ r', FollowsSound t s'.stack r' := by
  cases hs with
  | send hstack _ hact htyped hsend => exact ⟨r, refines_send hlinks htracks h.1 hstack hact htyped hsend, h.2⟩
  | read hstack | none hstack => exact ⟨r, hstack ▸ h⟩
  | @below b hb =>
    have hok : b.Fits t := by
      cases b with
      | netSend n dest data => exact hfits.1
      | _ => exact hfits
    rcases refines_step h.1 hok hb with hsame | ⟨c, r', hc, hr', hkept⟩
    · exact ⟨r, hsame, h.2⟩
    · exact ⟨r', hr', soundSwitch_step h.2 (hkept hkeeps) hc⟩

theorem unlocked_session {session session' : Session} {m : Side × PointAction} (h : ∀ y, Unlocked (session.point y))
    (hs : session.step e.places m = some session') (y : Side) : Unlocked (session'.point y) := by
  obtain ⟨w, act⟩ := m
  obtain ⟨p, out, -, hact, hw, hother, -⟩ := Session.step_cases hs
  rcases Side.eq_or_eq_other w y with rfl | rfl
  · rw [hw]
    exact unlocked_step (h y) (act_does hact)
  · rw [hother]
    exact h w.other

theorem steady_step (hlinks : FitsLinks t (maxSegmentSize + transportHeaderSize)) (h : Steady t e s) {a : ConnectionAction}
    (hfits : a.Fits t e) (hkeeps : a.KeepsLinks) (hs : s.step t e a = some s') : Steady t e s' := by
  have hon := onStack h.tracks hfits hs
  obtain ⟨r, hr⟩ := h.sound
  obtain ⟨htracks, hsession⟩ := tracks_step hlinks h.tracks hfits hs
  refine ⟨htracks, sound_step hlinks h.tracks hr hfits hkeeps hon, counted_step h.counted hon, ?_⟩
  rcases hsession with hsame | ⟨m, -, hstep⟩
  · have hpoint : s'.point = s.point := congrArg Session.point hsame
    exact hpoint ▸ h.unlocked
  · have hunlocked : ∀ y, Unlocked (s.session.point y) := h.unlocked
    exact unlocked_session hunlocked hstep

end CarryingAux

namespace CarryingAux

end CarryingAux

end NetworkLayers
