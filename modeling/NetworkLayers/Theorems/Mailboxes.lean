import NetworkLayers.Transport.Mailboxes

/-!
# The mailboxes pass every message once

For each of the four slots, which thread is between its lock and its unlock says whose the slot is. A thread that hands a message
on is the reader of one slot and a writer of the next, at different times; so a step of it matters to one of the two only.
-/

namespace NetworkLayers

open Transition

/-- What the network layer reads of a frame. -/
def LinkFrame.view (f : LinkFrame) : List Byte × Nat := (f.data, f.size)

/-- What `send_thread` reads of `send_buff` and `send_size`. -/
def SendBuff.view (b : SendBuff) : List Byte × Nat := (b.sendBuff, b.sendSize)

namespace MailboxesAux

/-! ## Where the threads are -/

/-- `internalrecv` of the link layer is at work on `recv_frame`. -/
def writesFrame : LinkRecv → Prop
  | .recvfrom | .dest _ | .size _ | .data _ | .unlock _ => True
  | .lock => False

/-- What it has set. -/
def wroteFrame (slot : LinkFrame) : LinkRecv → Prop
  | .lock | .recvfrom => True
  | .dest f => slot.checksum = f.checksum
  | .size f => slot.checksum = f.checksum ∧ slot.dest = f.dest
  | .data f => slot.checksum = f.checksum ∧ slot.dest = f.dest ∧ slot.size = f.size
  | .unlock f => slot = f

/-- `internalrecv` of the network layer is at work on `recv_frame`. -/
def readsFrame : NetRecv → Prop
  | .data | .size _ | .unlock .. => True
  | .lock | .datagram | .lockNext _ | .nextData _ | .nextSize _ | .nextSrc _ | .unlockNext _ => False

/-- What it has read. -/
def hasReadFrame (slot : LinkFrame) : NetRecv → Prop
  | .size buf => buf = slot.data
  | .unlock buf size => buf = slot.data ∧ size = slot.size
  | .lock | .data | .datagram | .lockNext _ | .nextData _ | .nextSize _ | .nextSrc _ | .unlockNext _ => True

/-- `internalrecv` of the network layer is at work on `recv_datagram`. -/
def writesDatagram : NetRecv → Prop
  | .nextData _ | .nextSize _ | .nextSrc _ | .unlockNext _ => True
  | .lock | .data | .size _ | .unlock .. | .datagram | .lockNext _ => False

/-- What it has set. -/
def wroteDatagram (slot : NetData) : NetRecv → Prop
  | .nextSize d => slot.data = d.data
  | .nextSrc d => slot.data = d.data ∧ slot.size = d.size
  | .unlockNext d => slot = d
  | .lock | .data | .size _ | .unlock .. | .datagram | .lockNext _ | .nextData _ => True

/-- `internalrecv` of the transport layer is at work on `recv_datagram`. -/
def readsDatagram : TranspRecv → Prop
  | .data | .size _ | .src .. | .unlock _ => True
  | .lock | .segment | .lockPack .. | .packSegment .. | .packSrc .. | .packSize .. | .unlockPack .. => False

/-- What it has read. -/
def hasReadDatagram (slot : NetData) : TranspRecv → Prop
  | .size data => data = slot.data
  | .src data size => data = slot.data ∧ size = slot.size
  | .unlock recv => recv = slot
  | .lock | .data | .segment | .lockPack .. | .packSegment .. | .packSrc .. | .packSize .. | .unlockPack .. => True

/-- `internalrecv` of the transport layer is at work on the `wait_buff` of a service point. -/
def writesWait (sp : Nat) : TranspRecv → Prop
  | .packSegment sp' _ | .packSrc sp' _ | .packSize sp' _ | .unlockPack sp' _ => sp' = sp
  | .lock | .data | .size _ | .src .. | .unlock _ | .segment | .lockPack .. => False

/-- What it has set. -/
def wroteWait (sp : Nat) (slot : RecvSegment) : TranspRecv → Prop
  | .packSrc sp' r => sp' = sp → slot.segment = r.segment
  | .packSize sp' r => sp' = sp → slot.segment = r.segment ∧ slot.src = r.src
  | .unlockPack sp' r => sp' = sp → slot = r
  | .lock | .data | .size _ | .src .. | .unlock _ | .segment | .lockPack .. | .packSegment .. => True

/-- `recv_thread` is at work on `wait_buff`. -/
def readsWait : RecvLoop → Prop
  | .segment | .src _ | .size .. | .unlock _ => True
  | .lock | .switch => False

/-- What it has read. -/
def hasReadWait (slot : RecvSegment) : RecvLoop → Prop
  | .src segment => segment = slot.segment
  | .size segment src => segment = slot.segment ∧ src = slot.src
  | .unlock newRecv => newRecv = slot
  | .lock | .segment | .switch => True

/-- A call of `send_point` is at work on `send_buff`. -/
def writesSend : SendPointPc → Prop
  | .sendBuff | .sendSize | .unlock => True
  | .lock | .done => False

/-- What it has set. -/
def wroteSend (slot : SendBuff) (c : SendPointCall) : Prop :=
  match c.pc with
  | .sendSize => slot.sendBuff = c.buf
  | .unlock => slot = { sendBuff := c.buf, sendSize := c.buf.length }
  | .lock | .sendBuff | .done => True

/-- `send_thread` is at work on `send_buff`. -/
def readsSend : SendLoop → Prop
  | .size | .segments .. => True
  | .lock => False

/-- What it has read: so much of the buffer. -/
def hasReadSend (slot : SendBuff) : SendLoop → Prop
  | .segments size sendPtr sendSize sent =>
    size = slot.sendSize ∧ sent = slot.sendBuff.take sendPtr ∧ sendPtr + sendSize = slot.sendSize
  | .lock | .size => True

/-- The call at a place of the list is at work on the `send_buff` of a service point. -/
def CallWrites (calls : List SendPointCall) (sp i : Nat) : Prop :=
  ∃ c, calls[i]? = some c ∧ c.sp = sp ∧ writesSend c.pc

/-! ## What holds between two steps -/

structure FrameInv (m : Mailbox LinkFrame (List Byte × Nat)) (link : LinkRecv) (net : NetRecv) : Prop where
  owned : m.Owned LinkFrame.view (fun _ : Unit => writesFrame link) (readsFrame net)
  wrote : wroteFrame m.slot link
  hasRead : hasReadFrame m.slot net

structure DatagramInv (m : Mailbox NetData NetData) (net : NetRecv) (transp : TranspRecv) : Prop where
  owned : m.Owned id (fun _ : Unit => writesDatagram net) (readsDatagram transp)
  wrote : wroteDatagram m.slot net
  hasRead : hasReadDatagram m.slot transp

structure WaitInv (sp : Nat) (m : Mailbox RecvSegment RecvSegment) (transp : TranspRecv) (loop : RecvLoop) : Prop where
  owned : m.Owned id (fun _ : Unit => writesWait sp transp) (readsWait loop)
  wrote : wroteWait sp m.slot transp
  hasRead : hasReadWait m.slot loop

structure SendInv (sp : Nat) (m : Mailbox SendBuff (List Byte × Nat)) (calls : List SendPointCall) (loop : SendLoop) :
    Prop where
  owned : m.Owned SendBuff.view (CallWrites calls sp) (readsSend loop)
  wrote : ∀ (i : Nat) (c : SendPointCall), calls[i]? = some c → c.sp = sp → wroteSend m.slot c
  hasRead : hasReadSend m.slot loop
  /-- `send_size` is the size of the buffer -/
  whole : ∀ b ∈ m.written, b.sendSize = b.sendBuff.length

structure Inv (s : Mailboxes) : Prop where
  frame : FrameInv s.recvFrame s.link s.net
  datagram : DatagramInv s.recvDatagram s.net s.transp
  wait : ∀ sp, WaitInv sp (s.waitBuff sp) s.transp (s.recvThread sp)
  send : ∀ sp, SendInv sp (s.sendBuff sp) s.calls (s.sendThread sp)

theorem inv_init : Inv Mailboxes.init where
  frame := ⟨Mailbox.owned_init (fun _ => not_false) not_false, trivial, trivial⟩
  datagram := ⟨Mailbox.owned_init (fun _ => not_false) not_false, trivial, trivial⟩
  wait := fun _ => ⟨Mailbox.owned_init (fun _ => not_false) not_false, trivial, trivial⟩
  send := by
    intro sp
    refine ⟨Mailbox.owned_init ?_ not_false, ?_, trivial, ?_⟩
    · rintro i ⟨c, hc, -⟩
      cases hc
    · intro i c hc
      cases hc
    · intro b hb
      cases hb

theorem hasReadFrame_of_not_reads {slot : LinkFrame} {net : NetRecv} (h : ¬readsFrame net) : hasReadFrame slot net := by
  cases net with
  | data | size buf | unlock buf size => exact absurd trivial h
  | _ => trivial

theorem hasReadDatagram_of_not_reads {slot : NetData} {transp : TranspRecv} (h : ¬readsDatagram transp) :
    hasReadDatagram slot transp := by
  cases transp with
  | data | size data | src data size | unlock recv => exact absurd trivial h
  | _ => trivial

theorem hasReadWait_of_not_reads {slot : RecvSegment} {loop : RecvLoop} (h : ¬readsWait loop) : hasReadWait slot loop := by
  cases loop with
  | lock | switch => trivial
  | _ => exact absurd trivial h

theorem hasReadSend_of_not_reads {slot : SendBuff} {loop : SendLoop} (h : ¬readsSend loop) : hasReadSend slot loop := by
  cases loop with
  | lock => trivial
  | _ => exact absurd trivial h

theorem wroteDatagram_of_not_writes {slot : NetData} {net : NetRecv} (h : ¬writesDatagram net) : wroteDatagram slot net := by
  cases net with
  | nextData d | nextSize d | nextSrc d | unlockNext d => exact absurd trivial h
  | _ => trivial

theorem wroteWait_of_not_writes {sp : Nat} {slot : RecvSegment} {transp : TranspRecv} (h : ¬writesWait sp transp) :
    wroteWait sp slot transp := by
  cases transp with
  | packSrc sp' r | packSize sp' r | unlockPack sp' r => exact fun heq => absurd heq h
  | _ => trivial

variable {s s' : Mailboxes} {sp : Nat}

/-! ## The steps of a thread that is not at the slot -/

theorem FrameInv.asideNet {m : Mailbox LinkFrame (List Byte × Nat)} {link : LinkRecv} {net net' : NetRecv}
    (h : FrameInv m link net) (hnet : ¬readsFrame net) (hnet' : ¬readsFrame net') : FrameInv m link net' :=
  ⟨h.owned.congr (fun _ => Iff.rfl) (iff_of_false hnet' hnet), h.wrote, hasReadFrame_of_not_reads hnet'⟩

theorem DatagramInv.asideNet {m : Mailbox NetData NetData} {net net' : NetRecv} {transp : TranspRecv}
    (h : DatagramInv m net transp) (hnet : ¬writesDatagram net) (hnet' : ¬writesDatagram net') :
    DatagramInv m net' transp :=
  ⟨h.owned.congr (fun _ => iff_of_false hnet' hnet) Iff.rfl, wroteDatagram_of_not_writes hnet', h.hasRead⟩

theorem DatagramInv.asideTransp {m : Mailbox NetData NetData} {net : NetRecv} {transp transp' : TranspRecv}
    (h : DatagramInv m net transp) (htransp : ¬readsDatagram transp) (htransp' : ¬readsDatagram transp') :
    DatagramInv m net transp' :=
  ⟨h.owned.congr (fun _ => Iff.rfl) (iff_of_false htransp' htransp), h.wrote, hasReadDatagram_of_not_reads htransp'⟩

theorem WaitInv.asideTransp {m : Mailbox RecvSegment RecvSegment} {transp transp' : TranspRecv} {loop : RecvLoop}
    (h : WaitInv sp m transp loop) (htransp : ¬writesWait sp transp) (htransp' : ¬writesWait sp transp') :
    WaitInv sp m transp' loop :=
  ⟨h.owned.congr (fun _ => iff_of_false htransp' htransp) Iff.rfl, wroteWait_of_not_writes htransp', h.hasRead⟩

/-! ## The steps -/

/-- A field of `recv_frame` is set. -/
theorem FrameInv.put {m : Mailbox LinkFrame (List Byte × Nat)} {link : LinkRecv} {net : NetRecv} (h : FrameInv m link net)
    (f : LinkFrame → LinkFrame) (link' : LinkRecv) (hlink : writesFrame link) (hlink' : writesFrame link')
    (hwrote : wroteFrame (f m.slot) link') : FrameInv (m.put f) link' net := by
  obtain ⟨-, -, -, hr, -⟩ := h.owned.of_writes (i := ()) hlink
  exact ⟨(h.owned.put (i := ()) hlink f).congr (fun _ => iff_of_true hlink' hlink) Iff.rfl, hwrote,
    hasReadFrame_of_not_reads hr⟩

theorem inv_link {f : LinkFrame} {right : Bool} (hi : Inv s) (hs : s.linkStep f right = some s') : Inv s' := by
  unfold Mailboxes.linkStep at hs
  have hframe := hi.frame
  cases hl : s.link with
  | lock =>
    simp only [hl, Option.map_eq_some_iff] at hs hframe
    obtain ⟨m, hm, rfl⟩ := hs
    obtain ⟨rfl, -⟩ := hframe.owned.of_lockProd hm
    exact ⟨⟨hframe.owned.lockProd hm () fun _ => iff_of_true trivial rfl, trivial, hframe.hasRead⟩, hi.datagram, hi.wait,
      hi.send⟩
  | recvfrom =>
    simp only [hl] at hs hframe
    obtain rfl := Option.some.inj hs
    refine ⟨hframe.put (fun r => { r with checksum := f.checksum }) (if right then .dest f else .recvfrom) trivial ?_ ?_,
      hi.datagram, hi.wait, hi.send⟩
    · split <;> trivial
    · split
      · rfl
      · trivial
  | dest f' =>
    simp only [hl] at hs hframe
    obtain rfl := Option.some.inj hs
    exact ⟨hframe.put (fun r => { r with dest := f'.dest }) (.size f') trivial trivial ⟨hframe.wrote, rfl⟩,
      hi.datagram, hi.wait, hi.send⟩
  | size f' =>
    simp only [hl] at hs hframe
    obtain rfl := Option.some.inj hs
    exact ⟨hframe.put (fun r => { r with size := f'.size }) (.data f') trivial trivial
      ⟨hframe.wrote.1, hframe.wrote.2, rfl⟩, hi.datagram, hi.wait, hi.send⟩
  | data f' =>
    simp only [hl] at hs hframe
    obtain rfl := Option.some.inj hs
    obtain ⟨hchecksum, hdest, hsize⟩ := hframe.wrote
    refine ⟨hframe.put (fun r => { r with data := f'.data }) (.unlock f') trivial trivial ?_, hi.datagram, hi.wait, hi.send⟩
    simp only [wroteFrame, hchecksum, hdest, hsize]
  | unlock f' =>
    simp only [hl] at hs hframe
    obtain rfl := Option.some.inj hs
    obtain ⟨-, -, -, hr, -⟩ := hframe.owned.of_writes (i := ()) trivial
    exact ⟨⟨hframe.owned.unlockCons (i := ()) trivial hframe.wrote fun _ => not_false, trivial,
      hasReadFrame_of_not_reads hr⟩, hi.datagram, hi.wait, hi.send⟩

/-- A field of `recv_datagram` is set. -/
theorem DatagramInv.put {m : Mailbox NetData NetData} {net : NetRecv} {transp : TranspRecv} (h : DatagramInv m net transp)
    (f : NetData → NetData) (net' : NetRecv) (hnet : writesDatagram net) (hnet' : writesDatagram net')
    (hwrote : wroteDatagram (f m.slot) net') : DatagramInv (m.put f) net' transp := by
  obtain ⟨-, -, -, hr, -⟩ := h.owned.of_writes (i := ()) hnet
  exact ⟨(h.owned.put (i := ()) hnet f).congr (fun _ => iff_of_true hnet' hnet) Iff.rfl, hwrote,
    hasReadDatagram_of_not_reads hr⟩

theorem inv_net {pass : Option NetData} (hi : Inv s) (hs : s.netStep pass = some s') : Inv s' := by
  unfold Mailboxes.netStep at hs
  have hframe := hi.frame
  have hdatagram := hi.datagram
  cases hn : s.net with
  | lock =>
    simp only [hn, Option.map_eq_some_iff] at hs hframe hdatagram
    obtain ⟨m, hm, rfl⟩ := hs
    have hslot := Mailbox.slot_of_lockCons hm
    refine ⟨⟨hframe.owned.lockCons hm trivial, ?_, trivial⟩, hdatagram.asideNet not_false not_false, hi.wait, hi.send⟩
    rw [hslot]
    exact hframe.wrote
  | data =>
    simp only [hn] at hs hframe hdatagram
    obtain rfl := Option.some.inj hs
    exact ⟨⟨hframe.owned, hframe.wrote, rfl⟩, hdatagram.asideNet not_false not_false, hi.wait, hi.send⟩
  | size buf =>
    simp only [hn] at hs hframe hdatagram
    obtain rfl := Option.some.inj hs
    exact ⟨⟨hframe.owned, hframe.wrote, hframe.hasRead, rfl⟩, hdatagram.asideNet not_false not_false, hi.wait, hi.send⟩
  | unlock buf size =>
    simp only [hn] at hs hframe hdatagram
    obtain rfl := Option.some.inj hs
    obtain ⟨hbuf, hsize⟩ := hframe.hasRead
    have hview : (buf, size) = LinkFrame.view s.recvFrame.slot := by rw [hbuf, hsize, LinkFrame.view]
    exact ⟨⟨hframe.owned.unlockProd trivial hview not_false, hframe.wrote, trivial⟩,
      hdatagram.asideNet not_false not_false, hi.wait, hi.send⟩
  | datagram =>
    simp only [hn] at hs hframe hdatagram
    cases pass with
    | none =>
      obtain rfl := Option.some.inj hs
      exact ⟨hframe.asideNet not_false not_false, hdatagram.asideNet not_false not_false, hi.wait, hi.send⟩
    | some d =>
      obtain rfl := Option.some.inj hs
      exact ⟨hframe.asideNet not_false not_false, hdatagram.asideNet not_false not_false, hi.wait, hi.send⟩
  | lockNext d =>
    simp only [hn, Option.map_eq_some_iff] at hs hframe hdatagram
    obtain ⟨m, hm, rfl⟩ := hs
    obtain ⟨rfl, -⟩ := hdatagram.owned.of_lockProd hm
    exact ⟨hframe.asideNet not_false not_false,
      ⟨hdatagram.owned.lockProd hm () fun _ => iff_of_true trivial rfl, trivial, hdatagram.hasRead⟩, hi.wait, hi.send⟩
  | nextData d =>
    simp only [hn] at hs hframe hdatagram
    obtain rfl := Option.some.inj hs
    exact ⟨hframe.asideNet not_false not_false,
      hdatagram.put (fun r => { r with data := d.data }) (.nextSize d) trivial trivial rfl, hi.wait, hi.send⟩
  | nextSize d =>
    simp only [hn] at hs hframe hdatagram
    obtain rfl := Option.some.inj hs
    exact ⟨hframe.asideNet not_false not_false,
      hdatagram.put (fun r => { r with size := d.size }) (.nextSrc d) trivial trivial ⟨hdatagram.wrote, rfl⟩, hi.wait, hi.send⟩
  | nextSrc d =>
    simp only [hn] at hs hframe hdatagram
    obtain rfl := Option.some.inj hs
    obtain ⟨hdata, hsize⟩ := hdatagram.wrote
    refine ⟨hframe.asideNet not_false not_false,
      hdatagram.put (fun r => { r with src := d.src }) (.unlockNext d) trivial trivial ?_, hi.wait, hi.send⟩
    simp only [wroteDatagram, hdata, hsize]
  | unlockNext d =>
    simp only [hn] at hs hframe hdatagram
    obtain rfl := Option.some.inj hs
    obtain ⟨-, -, -, hr, -⟩ := hdatagram.owned.of_writes (i := ()) trivial
    exact ⟨hframe.asideNet not_false not_false, ⟨hdatagram.owned.unlockCons (i := ()) trivial hdatagram.wrote fun _ => not_false,
      trivial, hasReadDatagram_of_not_reads hr⟩, hi.wait, hi.send⟩

/-- A field of a `wait_buff` is set. -/
theorem WaitInv.put {m : Mailbox RecvSegment RecvSegment} {transp : TranspRecv} {loop : RecvLoop}
    (h : WaitInv sp m transp loop) (f : RecvSegment → RecvSegment) (transp' : TranspRecv) (htransp : writesWait sp transp)
    (htransp' : writesWait sp transp') (hwrote : wroteWait sp (f m.slot) transp') : WaitInv sp (m.put f) transp' loop := by
  obtain ⟨-, -, -, hr, -⟩ := h.owned.of_writes (i := ()) htransp
  exact ⟨(h.owned.put (i := ()) htransp f).congr (fun _ => iff_of_true htransp' htransp) Iff.rfl, hwrote,
    hasReadWait_of_not_reads hr⟩

/-- `internalrecv` of the transport layer is not at the mailbox of any service point. -/
theorem waits_aside {transp transp' : TranspRecv} (h : ∀ sp, WaitInv sp (s.waitBuff sp) transp (s.recvThread sp))
    (htransp : ∀ sp, ¬writesWait sp transp) (htransp' : ∀ sp, ¬writesWait sp transp') (sp : Nat) :
    WaitInv sp (s.waitBuff sp) transp' (s.recvThread sp) :=
  (h sp).asideTransp (htransp sp) (htransp' sp)

/-- It is at the mailbox of one. -/
theorem waits_update {transp transp' : TranspRecv} {m : Mailbox RecvSegment RecvSegment}
    (h : ∀ sp, WaitInv sp (s.waitBuff sp) transp (s.recvThread sp)) (hself : WaitInv sp m transp' (s.recvThread sp))
    (hother : ∀ sp', sp' ≠ sp → ¬writesWait sp' transp ∧ ¬writesWait sp' transp') (sp' : Nat) :
    WaitInv sp' (Function.update s.waitBuff sp m sp') transp' (s.recvThread sp') := by
  by_cases heq : sp' = sp
  · subst heq
    rw [Function.update_self]
    exact hself
  · obtain ⟨hold, hnew⟩ := hother sp' heq
    rw [Function.update_of_ne heq]
    exact (h sp').asideTransp hold hnew

theorem inv_transp {pass : Option (Nat × RecvSegment)} (hi : Inv s) (hs : s.transpStep pass = some s') : Inv s' := by
  unfold Mailboxes.transpStep at hs
  have hdatagram := hi.datagram
  have hwait := hi.wait
  cases ht : s.transp with
  | lock =>
    simp only [ht, Option.map_eq_some_iff] at hs hdatagram hwait
    obtain ⟨m, hm, rfl⟩ := hs
    have hslot := Mailbox.slot_of_lockCons hm
    refine ⟨hi.frame, ⟨hdatagram.owned.lockCons hm trivial, ?_, trivial⟩,
      waits_aside hwait (fun _ => not_false) fun _ => not_false, hi.send⟩
    rw [hslot]
    exact hdatagram.wrote
  | data =>
    simp only [ht] at hs hdatagram hwait
    obtain rfl := Option.some.inj hs
    exact ⟨hi.frame, ⟨hdatagram.owned, hdatagram.wrote, rfl⟩, waits_aside hwait (fun _ => not_false) fun _ => not_false,
      hi.send⟩
  | size data =>
    simp only [ht] at hs hdatagram hwait
    obtain rfl := Option.some.inj hs
    exact ⟨hi.frame, ⟨hdatagram.owned, hdatagram.wrote, hdatagram.hasRead, rfl⟩,
      waits_aside hwait (fun _ => not_false) fun _ => not_false, hi.send⟩
  | src data size =>
    simp only [ht] at hs hdatagram hwait
    obtain rfl := Option.some.inj hs
    obtain ⟨hdata, hsize⟩ := hdatagram.hasRead
    refine ⟨hi.frame, ⟨hdatagram.owned, hdatagram.wrote, ?_⟩, waits_aside hwait (fun _ => not_false) fun _ => not_false,
      hi.send⟩
    simp only [hasReadDatagram, hdata, hsize]
  | unlock recv =>
    simp only [ht] at hs hdatagram hwait
    obtain rfl := Option.some.inj hs
    exact ⟨hi.frame, ⟨hdatagram.owned.unlockProd trivial hdatagram.hasRead not_false, hdatagram.wrote, trivial⟩,
      waits_aside hwait (fun _ => not_false) fun _ => not_false, hi.send⟩
  | segment =>
    simp only [ht] at hs hdatagram hwait
    cases pass with
    | none =>
      obtain rfl := Option.some.inj hs
      exact ⟨hi.frame, hdatagram.asideTransp not_false not_false,
        waits_aside hwait (fun _ => not_false) fun _ => not_false, hi.send⟩
    | some r =>
      obtain rfl := Option.some.inj hs
      exact ⟨hi.frame, hdatagram.asideTransp not_false not_false,
        waits_aside hwait (fun _ => not_false) fun _ => not_false, hi.send⟩
  | lockPack sp r =>
    simp only [ht, Option.map_eq_some_iff] at hs hdatagram hwait
    obtain ⟨m, hm, rfl⟩ := hs
    obtain ⟨rfl, -⟩ := (hwait sp).owned.of_lockProd hm
    exact ⟨hi.frame, hdatagram.asideTransp not_false not_false,
      waits_update hwait ⟨(hwait sp).owned.lockProd hm () fun _ => iff_of_true rfl rfl, trivial, (hwait sp).hasRead⟩
        fun sp' hne => ⟨not_false, fun h => hne h.symm⟩, hi.send⟩
  | packSegment sp r =>
    simp only [ht] at hs hdatagram hwait
    obtain rfl := Option.some.inj hs
    exact ⟨hi.frame, hdatagram.asideTransp not_false not_false,
      waits_update hwait ((hwait sp).put (fun w => { w with segment := r.segment }) (.packSrc sp r) rfl rfl fun _ => rfl)
        fun sp' hne => ⟨fun h => hne h.symm, fun h => hne h.symm⟩, hi.send⟩
  | packSrc sp r =>
    simp only [ht] at hs hdatagram hwait
    obtain rfl := Option.some.inj hs
    exact ⟨hi.frame, hdatagram.asideTransp not_false not_false,
      waits_update hwait ((hwait sp).put (fun w => { w with src := r.src }) (.packSize sp r) rfl rfl
        fun _ => ⟨(hwait sp).wrote rfl, rfl⟩) fun sp' hne => ⟨fun h => hne h.symm, fun h => hne h.symm⟩, hi.send⟩
  | packSize sp r =>
    simp only [ht] at hs hdatagram hwait
    obtain rfl := Option.some.inj hs
    obtain ⟨hsegment, hsrc⟩ := (hwait sp).wrote rfl
    refine ⟨hi.frame, hdatagram.asideTransp not_false not_false,
      waits_update hwait ((hwait sp).put (fun w => { w with size := r.size }) (.unlockPack sp r) rfl rfl
        fun _ => ?_) fun sp' hne => ⟨fun h => hne h.symm, fun h => hne h.symm⟩, hi.send⟩
    simp only [hsegment, hsrc]
  | unlockPack sp r =>
    simp only [ht] at hs hdatagram hwait
    obtain rfl := Option.some.inj hs
    obtain ⟨-, -, -, hr, -⟩ := (hwait sp).owned.of_writes (i := ()) rfl
    exact ⟨hi.frame, hdatagram.asideTransp not_false not_false,
      waits_update hwait ⟨(hwait sp).owned.unlockCons (i := ()) rfl ((hwait sp).wrote rfl) fun _ => not_false, trivial,
        hasReadWait_of_not_reads hr⟩ fun sp' hne => ⟨fun h => hne h.symm, not_false⟩, hi.send⟩

/-- The `recv_thread` of one service point has taken a step. -/
theorem waits_recv {m : Mailbox RecvSegment RecvSegment} {loop : RecvLoop} (hi : Inv s) (hself : WaitInv sp m s.transp loop)
    (sp' : Nat) :
    WaitInv sp' (Function.update s.waitBuff sp m sp') s.transp (Function.update s.recvThread sp loop sp') := by
  by_cases heq : sp' = sp
  · subst heq
    rw [Function.update_self, Function.update_self]
    exact hself
  · rw [Function.update_of_ne heq, Function.update_of_ne heq]
    exact hi.wait sp'

/-- It leaves the mailbox as it is. -/
theorem waits_goto {loop : RecvLoop} (hi : Inv s) (hself : WaitInv sp (s.waitBuff sp) s.transp loop) (sp' : Nat) :
    WaitInv sp' (s.waitBuff sp') s.transp (Function.update s.recvThread sp loop sp') := by
  have h := waits_recv hi hself sp'
  rwa [Function.update_eq_self] at h

theorem inv_recvThread (hi : Inv s) (hs : s.recvStep sp = some s') : Inv s' := by
  unfold Mailboxes.recvStep at hs
  have hwait := hi.wait sp
  cases hl : s.recvThread sp with
  | lock =>
    simp only [hl, Option.map_eq_some_iff] at hs hwait
    obtain ⟨m, hm, rfl⟩ := hs
    have hslot := Mailbox.slot_of_lockCons hm
    refine ⟨hi.frame, hi.datagram, waits_recv hi ⟨hwait.owned.lockCons hm trivial, ?_, trivial⟩, hi.send⟩
    rw [hslot]
    exact hwait.wrote
  | segment =>
    simp only [hl] at hs hwait
    obtain rfl := Option.some.inj hs
    exact ⟨hi.frame, hi.datagram, waits_goto hi ⟨hwait.owned, hwait.wrote, rfl⟩, hi.send⟩
  | src segment =>
    simp only [hl] at hs hwait
    obtain rfl := Option.some.inj hs
    exact ⟨hi.frame, hi.datagram, waits_goto hi ⟨hwait.owned, hwait.wrote, hwait.hasRead, rfl⟩, hi.send⟩
  | size segment src =>
    simp only [hl] at hs hwait
    obtain rfl := Option.some.inj hs
    obtain ⟨hsegment, hsrc⟩ := hwait.hasRead
    refine ⟨hi.frame, hi.datagram, waits_goto hi ⟨hwait.owned, hwait.wrote, ?_⟩, hi.send⟩
    simp only [hasReadWait, hsegment, hsrc]
  | unlock newRecv =>
    simp only [hl] at hs hwait
    obtain rfl := Option.some.inj hs
    exact ⟨hi.frame, hi.datagram, waits_recv hi ⟨hwait.owned.unlockProd trivial hwait.hasRead not_false, hwait.wrote,
      trivial⟩, hi.send⟩
  | switch =>
    simp only [hl] at hs hwait
    obtain rfl := Option.some.inj hs
    refine ⟨hi.frame, hi.datagram, waits_goto hi ⟨?_, hwait.wrote, trivial⟩, hi.send⟩
    exact hwait.owned.congr (fun _ => Iff.rfl) (iff_of_false not_false not_false)

/-- The `send_thread` of one service point has taken a step. -/
theorem sends_sendThread {m : Mailbox SendBuff (List Byte × Nat)} {loop : SendLoop} (hi : Inv s)
    (hself : SendInv sp m s.calls loop) (sp' : Nat) :
    SendInv sp' (Function.update s.sendBuff sp m sp') s.calls (Function.update s.sendThread sp loop sp') := by
  by_cases heq : sp' = sp
  · subst heq
    rw [Function.update_self, Function.update_self]
    exact hself
  · rw [Function.update_of_ne heq, Function.update_of_ne heq]
    exact hi.send sp'

/-- It leaves the mailbox as it is. -/
theorem sends_goto {loop : SendLoop} (hi : Inv s) (hself : SendInv sp (s.sendBuff sp) s.calls loop) (sp' : Nat) :
    SendInv sp' (s.sendBuff sp') s.calls (Function.update s.sendThread sp loop sp') := by
  have h := sends_sendThread hi hself sp'
  rwa [Function.update_eq_self] at h

theorem inv_sendThread {segmentSendSize : Nat} (hi : Inv s) (hs : s.sendStep sp segmentSendSize = some s') : Inv s' := by
  unfold Mailboxes.sendStep at hs
  have hsend := hi.send sp
  cases hl : s.sendThread sp with
  | lock =>
    simp only [hl, Option.map_eq_some_iff] at hs hsend
    obtain ⟨m, hm, rfl⟩ := hs
    have hm' := Mailbox.eq_of_lockCons hm
    refine ⟨hi.frame, hi.datagram, hi.wait, sends_sendThread hi ⟨hsend.owned.lockCons hm trivial, ?_, trivial, ?_⟩⟩
    · rw [hm']
      exact hsend.wrote
    · rw [hm']
      exact hsend.whole
  | size =>
    simp only [hl] at hs hsend
    obtain rfl := Option.some.inj hs
    refine ⟨hi.frame, hi.datagram, hi.wait, sends_goto hi ⟨hsend.owned, hsend.wrote, ⟨rfl, rfl, ?_⟩, hsend.whole⟩⟩
    exact Nat.zero_add _
  | segments size sendPtr sendSize sent =>
    simp only [hl] at hs hsend
    obtain ⟨hsize, hsent, hsum⟩ := hsend.hasRead
    split at hs
    · rename_i hzero
      obtain rfl := Option.some.inj hs
      obtain ⟨-, -, -, rest, hwritten, -⟩ := hsend.owned.of_reads trivial
      have hwhole : (s.sendBuff sp).slot.sendSize = (s.sendBuff sp).slot.sendBuff.length :=
        hsend.whole _ (by rw [hwritten]; exact List.mem_append_right _ (List.mem_singleton_self _))
      have hview : (sent, size) = SendBuff.view (s.sendBuff sp).slot := by
        rw [hsent, hsize, SendBuff.view, List.take_of_length_le (by omega)]
      exact ⟨hi.frame, hi.datagram, hi.wait, sends_sendThread hi ⟨hsend.owned.unlockProd trivial hview not_false,
        hsend.wrote, trivial, hsend.whole⟩⟩
    · obtain rfl := Option.some.inj hs
      generalize hn : (if sendSize < segmentSendSize then sendSize else segmentSendSize) = n
      have hle : n ≤ sendSize := by
        rw [← hn]
        split <;> omega
      refine ⟨hi.frame, hi.datagram, hi.wait, sends_goto hi ⟨hsend.owned, hsend.wrote, ⟨hsize, ?_, ?_⟩, hsend.whole⟩⟩
      · rw [hsent, List.take_add]
      · omega

/-! ### The calls of send_point -/

variable {i : Nat} {c : SendPointCall}

/-- Which calls are at work on `send_buff`, after one of them took a step. -/
theorem callWrites_set (hc : s.calls[i]? = some c) (pc : SendPointPc) (sp j : Nat) :
    CallWrites (s.calls.set i { c with pc := pc }) sp j ↔
      if j = i then c.sp = sp ∧ writesSend pc else CallWrites s.calls sp j := by
  have hlt := (List.getElem?_eq_some_iff.1 hc).1
  split
  · rename_i hj
    subst hj
    simp [CallWrites, List.getElem?_set_self hlt]
  · rename_i hj
    simp [CallWrites, List.getElem?_set_ne (Ne.symm hj)]

/-- At another service point nothing has changed. -/
theorem SendInv.other {m : Mailbox SendBuff (List Byte × Nat)} {loop : SendLoop} (h : SendInv sp m s.calls loop)
    (hc : s.calls[i]? = some c) (hsp : c.sp ≠ sp) (pc : SendPointPc) :
    SendInv sp m (s.calls.set i { c with pc := pc }) loop := by
  refine ⟨h.owned.congr (fun j => ?_) Iff.rfl, ?_, h.hasRead, h.whole⟩
  · rw [callWrites_set hc]
    split
    · rename_i hj
      subst hj
      refine iff_of_false (fun hw => hsp hw.1) ?_
      rintro ⟨c', hc', heq, -⟩
      obtain rfl := Option.some.inj (hc.symm.trans hc')
      exact hsp heq
    · exact Iff.rfl
  · exact Fifo.forall_set (fun heq => absurd heq hsp) fun j c' _ hc' => h.wrote j c' hc'

/-- A call has taken a step at the mailbox of its service point. -/
theorem sends_call {m : Mailbox SendBuff (List Byte × Nat)} {pc : SendPointPc} (hi : Inv s) (hc : s.calls[i]? = some c)
    (hself : SendInv c.sp m (s.calls.set i { c with pc := pc }) (s.sendThread c.sp)) (sp' : Nat) :
    SendInv sp' (Function.update s.sendBuff c.sp m sp') (s.calls.set i { c with pc := pc }) (s.sendThread sp') := by
  by_cases heq : sp' = c.sp
  · subst heq
    rw [Function.update_self]
    exact hself
  · rw [Function.update_of_ne heq]
    exact (hi.send sp').other hc (Ne.symm heq) pc

theorem wroteSend_of_not_writes {slot : SendBuff} {c : SendPointCall} (h : ¬writesSend c.pc) : wroteSend slot c := by
  unfold wroteSend
  split
  · rename_i hpc
    rw [hpc] at h
    exact absurd trivial h
  · rename_i hpc
    rw [hpc] at h
    exact absurd trivial h
  all_goals trivial

/-- A call that has the mailbox takes a step in it and keeps it. -/
theorem SendInv.put {m : Mailbox SendBuff (List Byte × Nat)} {loop : SendLoop} (h : SendInv c.sp m s.calls loop)
    (hc : s.calls[i]? = some c) (f : SendBuff → SendBuff) (pc : SendPointPc) (hpc : writesSend c.pc) (hpc' : writesSend pc)
    (hwrote : wroteSend (f m.slot) { c with pc := pc }) : SendInv c.sp (m.put f) (s.calls.set i { c with pc := pc }) loop := by
  have hwrites : CallWrites s.calls c.sp i := ⟨c, hc, rfl, hpc⟩
  obtain ⟨-, -, honly, hr, -⟩ := h.owned.of_writes hwrites
  refine ⟨(h.owned.put hwrites f).congr (fun j => ?_) Iff.rfl, ?_, hasReadSend_of_not_reads hr, h.whole⟩
  · rw [callWrites_set hc]
    split
    · rename_i hj
      subst hj
      exact iff_of_true ⟨rfl, hpc'⟩ hwrites
    · exact Iff.rfl
  · refine Fifo.forall_set (fun _ => hwrote) fun j c' hj hc' hsp => wroteSend_of_not_writes fun hw => ?_
    exact hj ((honly j).1 ⟨c', hc', hsp, hw⟩)

theorem inv_sendPoint (hi : Inv s) (hc : s.calls[i]? = some c) (hs : s.callStep i c = some s') : Inv s' := by
  unfold Mailboxes.callStep at hs
  have hsend := hi.send c.sp
  cases hpc : c.pc with
  | lock =>
    simp only [hpc, Option.map_eq_some_iff] at hs
    obtain ⟨m, hm, rfl⟩ := hs
    obtain ⟨rfl, -, hnone, -⟩ := hsend.owned.of_lockProd hm
    refine ⟨hi.frame, hi.datagram, hi.wait, sends_call hi hc ⟨hsend.owned.lockProd hm i fun j => ?_, ?_, hsend.hasRead,
      hsend.whole⟩⟩
    · rw [callWrites_set hc]
      split
      · rename_i hj
        exact iff_of_true ⟨rfl, trivial⟩ hj
      · rename_i hj
        exact iff_of_false (hnone j) hj
    · exact Fifo.forall_set (fun _ => trivial) fun j c' _ hc' => hsend.wrote j c' hc'
  | sendBuff =>
    simp only [hpc] at hs
    obtain rfl := Option.some.inj hs
    have hw : writesSend c.pc := by
      rw [hpc]
      trivial
    exact ⟨hi.frame, hi.datagram, hi.wait, sends_call hi hc
      (hsend.put hc (fun b => { b with sendBuff := c.buf }) .sendSize hw trivial rfl)⟩
  | sendSize =>
    simp only [hpc] at hs
    obtain rfl := Option.some.inj hs
    have hw : writesSend c.pc := by
      rw [hpc]
      trivial
    have hbuf : (s.sendBuff c.sp).slot.sendBuff = c.buf := by
      have h := hsend.wrote i c hc rfl
      simpa only [wroteSend, hpc] using h
    refine ⟨hi.frame, hi.datagram, hi.wait, sends_call hi hc
      (hsend.put hc (fun b => { b with sendSize := c.buf.length }) .unlock hw trivial ?_)⟩
    simp only [wroteSend, hbuf]
  | unlock =>
    simp only [hpc] at hs
    obtain rfl := Option.some.inj hs
    have hw : CallWrites s.calls c.sp i := by
      refine ⟨c, hc, rfl, ?_⟩
      rw [hpc]
      trivial
    have hslot : (s.sendBuff c.sp).slot = { sendBuff := c.buf, sendSize := c.buf.length } := by
      have h := hsend.wrote i c hc rfl
      simpa only [wroteSend, hpc] using h
    obtain ⟨-, -, honly, hr, -⟩ := hsend.owned.of_writes hw
    refine ⟨hi.frame, hi.datagram, hi.wait, sends_call hi hc ⟨hsend.owned.unlockCons hw hslot fun j => ?_, ?_,
      hasReadSend_of_not_reads hr, ?_⟩⟩
    · rw [callWrites_set hc]
      split
      · exact fun h => h.2
      · rename_i hj
        exact fun h => hj ((honly j).1 h)
    · exact Fifo.forall_set (fun _ => trivial) fun j c' _ hc' => hsend.wrote j c' hc'
    · intro b hb
      rcases List.mem_append.1 hb with hb | hb
      · exact hsend.whole b hb
      · obtain rfl := List.mem_singleton.1 hb
        rfl
  | done =>
    simp only [hpc] at hs
    cases hs

/-- A call that begins is at no mailbox. -/
theorem inv_call (hi : Inv s) (buf : List Byte) (sp : Nat) :
    Inv { s with calls := s.calls ++ [{ sp := sp, buf := buf, pc := .lock }] } := by
  refine ⟨hi.frame, hi.datagram, hi.wait, fun sp' => ?_⟩
  have hsend := hi.send sp'
  refine ⟨hsend.owned.congr (fun j => ?_) Iff.rfl, Fifo.forall_concat hsend.wrote fun _ => trivial, hsend.hasRead,
    hsend.whole⟩
  constructor
  · rintro ⟨c, hc, hsp, hw⟩
    have hold : ∀ (j : Nat) (c : SendPointCall), (s.calls ++ [{ sp := sp, buf := buf, pc := .lock }])[j]? = some c →
        c.sp = sp' → writesSend c.pc → CallWrites s.calls sp' j :=
      Fifo.forall_concat (fun j c hc hsp hw => ⟨c, hc, hsp, hw⟩) fun _ hw => False.elim hw
    exact hold j c hc hsp hw
  · rintro ⟨c, hc, hsp, hw⟩
    exact ⟨c, by rw [List.getElem?_append_left (List.getElem?_eq_some_iff.1 hc).1]; exact hc, hsp, hw⟩

theorem inv_step {act : MailAction} (hi : Inv s) (hs : s.step act = some s') : Inv s' := by
  cases act with
  | link f right => exact inv_link hi hs
  | net d => exact inv_net hi hs
  | transp r => exact inv_transp hi hs
  | recvThread sp => exact inv_recvThread hi hs
  | sendThread sp segmentSendSize => exact inv_sendThread hi hs
  | call sp buffer =>
    obtain rfl := Option.some.inj hs
    exact inv_call hi _ sp
  | sendPoint i =>
    obtain ⟨c, hc, hs⟩ := Option.bind_eq_some_iff.1 hs
    exact inv_sendPoint hi hc hs

theorem inv_reach (h : Reach Mailboxes.step anyStep Mailboxes.init s) : Inv s :=
  h.invariant inv_init fun _ _ _ hi _ hs => inv_step hi hs

/-! ## What a step leaves in the slots -/

/-- A mailbox that is changed leaves the others, and its own slot if that is the same. -/
theorem slot_update {α β : Type*} {boxes : Nat → Mailbox α β} {sp : Nat} {m : Mailbox α β} (h : m.slot = (boxes sp).slot)
    (sp' : Nat) : (Function.update boxes sp m sp').slot = (boxes sp').slot := by
  by_cases heq : sp' = sp
  · subst heq
    rw [Function.update_self, h]
  · rw [Function.update_of_ne heq]

theorem slots_link {f : LinkFrame} {right : Bool} (hs : s.linkStep f right = some s') :
    (¬writesFrame s.link → s'.recvFrame.slot = s.recvFrame.slot) ∧ s'.recvDatagram = s.recvDatagram ∧
      s'.waitBuff = s.waitBuff ∧ s'.sendBuff = s.sendBuff := by
  unfold Mailboxes.linkStep at hs
  cases hl : s.link with
  | lock =>
    simp only [hl, Option.map_eq_some_iff] at hs
    obtain ⟨m, hm, rfl⟩ := hs
    exact ⟨fun _ => Mailbox.slot_of_lockProd hm, rfl, rfl, rfl⟩
  | _ =>
    simp only [hl] at hs
    obtain rfl := Option.some.inj hs
    exact ⟨fun h => absurd trivial h, rfl, rfl, rfl⟩

theorem slots_net {pass : Option NetData} (hs : s.netStep pass = some s') :
    s'.recvFrame.slot = s.recvFrame.slot ∧ (¬writesDatagram s.net → s'.recvDatagram.slot = s.recvDatagram.slot) ∧
      s'.waitBuff = s.waitBuff ∧ s'.sendBuff = s.sendBuff := by
  unfold Mailboxes.netStep at hs
  cases hn : s.net with
  | lock =>
    simp only [hn, Option.map_eq_some_iff] at hs
    obtain ⟨m, hm, rfl⟩ := hs
    exact ⟨Mailbox.slot_of_lockCons hm, fun _ => rfl, rfl, rfl⟩
  | lockNext d =>
    simp only [hn, Option.map_eq_some_iff] at hs
    obtain ⟨m, hm, rfl⟩ := hs
    exact ⟨rfl, fun _ => Mailbox.slot_of_lockProd hm, rfl, rfl⟩
  | datagram =>
    simp only [hn] at hs
    cases pass with
    | none =>
      obtain rfl := Option.some.inj hs
      exact ⟨rfl, fun _ => rfl, rfl, rfl⟩
    | some d =>
      obtain rfl := Option.some.inj hs
      exact ⟨rfl, fun _ => rfl, rfl, rfl⟩
  | data | size buf | unlock buf size =>
    simp only [hn] at hs
    obtain rfl := Option.some.inj hs
    exact ⟨rfl, fun _ => rfl, rfl, rfl⟩
  | nextData d | nextSize d | nextSrc d | unlockNext d =>
    simp only [hn] at hs
    obtain rfl := Option.some.inj hs
    exact ⟨rfl, fun h => absurd trivial h, rfl, rfl⟩

theorem slots_transp {pass : Option (Nat × RecvSegment)} (hs : s.transpStep pass = some s') :
    s'.recvFrame = s.recvFrame ∧ s'.recvDatagram.slot = s.recvDatagram.slot ∧
      (∀ sp, ¬writesWait sp s.transp → (s'.waitBuff sp).slot = (s.waitBuff sp).slot) ∧ s'.sendBuff = s.sendBuff := by
  unfold Mailboxes.transpStep at hs
  cases ht : s.transp with
  | lock =>
    simp only [ht, Option.map_eq_some_iff] at hs
    obtain ⟨m, hm, rfl⟩ := hs
    exact ⟨rfl, Mailbox.slot_of_lockCons hm, fun _ _ => rfl, rfl⟩
  | lockPack sp r =>
    simp only [ht, Option.map_eq_some_iff] at hs
    obtain ⟨m, hm, rfl⟩ := hs
    exact ⟨rfl, rfl, fun sp' _ => slot_update (Mailbox.slot_of_lockProd hm) sp', rfl⟩
  | segment =>
    simp only [ht] at hs
    cases pass with
    | none =>
      obtain rfl := Option.some.inj hs
      exact ⟨rfl, rfl, fun _ _ => rfl, rfl⟩
    | some r =>
      obtain rfl := Option.some.inj hs
      exact ⟨rfl, rfl, fun _ _ => rfl, rfl⟩
  | data | size data | src data size | unlock recv =>
    simp only [ht] at hs
    obtain rfl := Option.some.inj hs
    exact ⟨rfl, rfl, fun _ _ => rfl, rfl⟩
  | packSegment sp r | packSrc sp r | packSize sp r | unlockPack sp r =>
    simp only [ht] at hs
    obtain rfl := Option.some.inj hs
    refine ⟨rfl, rfl, fun sp' h => ?_, rfl⟩
    simp only [Mailboxes.setWaitBuff, Function.update_of_ne fun heq => h (Eq.symm heq)]

theorem slots_recvThread (hs : s.recvStep sp = some s') :
    s'.recvFrame = s.recvFrame ∧ s'.recvDatagram = s.recvDatagram ∧
      (∀ sp, (s'.waitBuff sp).slot = (s.waitBuff sp).slot) ∧ s'.sendBuff = s.sendBuff := by
  unfold Mailboxes.recvStep at hs
  cases hl : s.recvThread sp with
  | lock =>
    simp only [hl, Option.map_eq_some_iff] at hs
    obtain ⟨m, hm, rfl⟩ := hs
    exact ⟨rfl, rfl, slot_update (Mailbox.slot_of_lockCons hm), rfl⟩
  | unlock newRecv =>
    simp only [hl] at hs
    obtain rfl := Option.some.inj hs
    exact ⟨rfl, rfl, slot_update rfl, rfl⟩
  | _ =>
    simp only [hl] at hs
    obtain rfl := Option.some.inj hs
    exact ⟨rfl, rfl, fun _ => rfl, rfl⟩

theorem slots_sendThread {segmentSendSize : Nat} (hs : s.sendStep sp segmentSendSize = some s') :
    s'.recvFrame = s.recvFrame ∧ s'.recvDatagram = s.recvDatagram ∧ s'.waitBuff = s.waitBuff ∧
      ∀ sp, (s'.sendBuff sp).slot = (s.sendBuff sp).slot := by
  unfold Mailboxes.sendStep at hs
  cases hl : s.sendThread sp with
  | lock =>
    simp only [hl, Option.map_eq_some_iff] at hs
    obtain ⟨m, hm, rfl⟩ := hs
    exact ⟨rfl, rfl, rfl, slot_update (Mailbox.slot_of_lockCons hm)⟩
  | size =>
    simp only [hl] at hs
    obtain rfl := Option.some.inj hs
    exact ⟨rfl, rfl, rfl, fun _ => rfl⟩
  | segments size sendPtr sendSize sent =>
    simp only [hl] at hs
    split at hs
    · obtain rfl := Option.some.inj hs
      exact ⟨rfl, rfl, rfl, slot_update rfl⟩
    · obtain rfl := Option.some.inj hs
      exact ⟨rfl, rfl, rfl, fun _ => rfl⟩

theorem slots_sendPoint (hs : s.callStep i c = some s') :
    s'.recvFrame = s.recvFrame ∧ s'.recvDatagram = s.recvDatagram ∧ s'.waitBuff = s.waitBuff ∧
      ∀ sp, (¬writesSend c.pc ∨ c.sp ≠ sp) → (s'.sendBuff sp).slot = (s.sendBuff sp).slot := by
  unfold Mailboxes.callStep at hs
  cases hpc : c.pc with
  | lock =>
    simp only [hpc, Option.map_eq_some_iff] at hs
    obtain ⟨m, hm, rfl⟩ := hs
    exact ⟨rfl, rfl, rfl, fun sp' _ => slot_update (Mailbox.slot_of_lockProd hm) sp'⟩
  | sendBuff | sendSize | unlock =>
    simp only [hpc] at hs
    obtain rfl := Option.some.inj hs
    refine ⟨rfl, rfl, rfl, fun sp' h => ?_⟩
    have hne : sp' ≠ c.sp := by
      rcases h with h | h
      · exact absurd trivial h
      · exact h.symm
    simp only [Mailboxes.setSendBuff, Mailboxes.gotoCall, Function.update_of_ne hne]
  | done =>
    simp only [hpc] at hs
    cases hs

end MailboxesAux

/-- What the four kinds of mailbox owe to the threads around them. -/
structure Mailboxes.Exact (s : Mailboxes) : Prop where
  frame : s.recvFrame.Passes LinkFrame.view
  datagram : s.recvDatagram.Passes id
  wait : ∀ sp, (s.waitBuff sp).Passes id
  send : ∀ sp, (s.sendBuff sp).Passes SendBuff.view
  keeps : ∀ act s', s.step act = some s' →
    s.recvFrame.Keeps LinkFrame.view s'.recvFrame ∧ s.recvDatagram.Keeps id s'.recvDatagram ∧
      (∀ sp, (s.waitBuff sp).Keeps id (s'.waitBuff sp)) ∧ ∀ sp, (s.sendBuff sp).Keeps SendBuff.view (s'.sendBuff sp)

/-- Over every interleaving of the threads of all layers and of any number of calls of `send_point`, each mailbox passes every
message once, in order, and no slot is written before it was read. -/
theorem mailboxes_exact {s : Mailboxes} (h : Reach Mailboxes.step anyStep Mailboxes.init s) : s.Exact := by
  have hi := MailboxesAux.inv_reach h
  refine ⟨hi.frame.owned.passes, hi.datagram.owned.passes, fun sp => (hi.wait sp).owned.passes,
    fun sp => (hi.send sp).owned.passes, ?_⟩
  intro act s' hs
  cases act with
  | link f right =>
    obtain ⟨hframe, hdatagram, hwait, hsend⟩ := MailboxesAux.slots_link hs
    exact ⟨hi.frame.owned.keeps () hframe, Or.inl (by rw [hdatagram]), fun sp => Or.inl (by rw [hwait]),
      fun sp => Or.inl (by rw [hsend])⟩
  | net d =>
    obtain ⟨hframe, hdatagram, hwait, hsend⟩ := MailboxesAux.slots_net hs
    exact ⟨Or.inl hframe, hi.datagram.owned.keeps () hdatagram, fun sp => Or.inl (by rw [hwait]),
      fun sp => Or.inl (by rw [hsend])⟩
  | transp r =>
    obtain ⟨hframe, hdatagram, hwait, hsend⟩ := MailboxesAux.slots_transp hs
    exact ⟨Or.inl (by rw [hframe]), Or.inl hdatagram, fun sp => (hi.wait sp).owned.keeps () (hwait sp),
      fun sp => Or.inl (by rw [hsend])⟩
  | recvThread sp =>
    obtain ⟨hframe, hdatagram, hwait, hsend⟩ := MailboxesAux.slots_recvThread hs
    exact ⟨Or.inl (by rw [hframe]), Or.inl (by rw [hdatagram]), fun sp => Or.inl (hwait sp),
      fun sp => Or.inl (by rw [hsend])⟩
  | sendThread sp segmentSendSize =>
    obtain ⟨hframe, hdatagram, hwait, hsend⟩ := MailboxesAux.slots_sendThread hs
    exact ⟨Or.inl (by rw [hframe]), Or.inl (by rw [hdatagram]), fun sp => Or.inl (by rw [hwait]),
      fun sp => Or.inl (hsend sp)⟩
  | call sp buffer =>
    obtain rfl := Option.some.inj hs
    exact ⟨Or.inl rfl, Or.inl rfl, fun _ => Or.inl rfl, fun _ => Or.inl rfl⟩
  | sendPoint i =>
    obtain ⟨c, hc, hs⟩ := Option.bind_eq_some_iff.1 hs
    obtain ⟨hframe, hdatagram, hwait, hsend⟩ := MailboxesAux.slots_sendPoint hs
    refine ⟨Or.inl (by rw [hframe]), Or.inl (by rw [hdatagram]), fun sp => Or.inl (by rw [hwait]), fun sp => ?_⟩
    refine (hi.send sp).owned.keeps i fun hw => hsend sp (not_and_or.1 fun h => hw ?_)
    exact ⟨c, hc, h.2, h.1⟩

/-- Two calls of `send_point` on one service point, of which the second gets `mutex_prod` first; `send_thread` cuts its buffer in
two, and the first call goes on. Meanwhile a frame goes up to the service point. -/
def mailRun : List MailAction :=
  List.flatten [
    [.call 1 [7], .call 1 [8, 9]],
    List.replicate 4 (.sendPoint 1),
    List.replicate 6 (.link { dest := 1, size := 3, data := [1, 2, 3], checksum := 5 } true),
    List.replicate 4 (.net none),
    [.net (some { data := [1], size := 1, src := 2 })],
    List.replicate 5 (.net none),
    List.replicate 5 (.transp none),
    [.transp (some (1, emptySegment))],
    List.replicate 5 (.transp none),
    List.replicate 5 (.recvThread 1),
    List.replicate 5 (.sendThread 1 1),
    List.replicate 2 (.sendPoint 0)]

/-- Each mailbox has passed one message. -/
theorem mail_run_exact : ∃ s, exec Mailboxes.step Mailboxes.init mailRun = some s ∧
    s.recvFrame.read = [([1, 2, 3], 3)] ∧ s.recvDatagram.read = [{ data := [1], size := 1, src := 2 }] ∧
    (s.waitBuff 1).read = [emptySegment] ∧ (s.sendBuff 1).read = [([8, 9], 2)] ∧ s.Exact := by
  have hlayers : (exec Mailboxes.step Mailboxes.init mailRun).map
      (fun s => (s.recvFrame.read, s.recvDatagram.read, (s.waitBuff 1).read)) =
        some ([([1, 2, 3], 3)], [{ data := [1], size := 1, src := 2 }], [emptySegment]) := by
    decide +kernel
  have hsend : (exec Mailboxes.step Mailboxes.init mailRun).map (fun s => (s.sendBuff 1).read) = some [([8, 9], 2)] := by
    decide +kernel
  obtain ⟨s, hs, hread⟩ := Option.map_eq_some_iff.1 hlayers
  rw [hs] at hsend
  simp only [Prod.mk.injEq] at hread
  obtain ⟨hframe, hdatagram, hwait⟩ := hread
  exact ⟨s, hs, hframe, hdatagram, hwait, Option.some.inj hsend, mailboxes_exact (reach_anyStep_of_exec hs)⟩

end NetworkLayers
