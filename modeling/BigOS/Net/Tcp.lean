/-
  BigOS.Net.Tcp — the control block of a TCP connection (`core/net/tcp.cc`).

  The functions of one block: the retransmit queue, acknowledgements, the receive
  buffer with its reorder slots, and what `handle_tcp` and `tcp_pump` decide for the
  block.  A segment is what `handle_tcp` has read from a frame whose header and
  checksum are right.  Where the code transmits in the middle of a function, the
  decision (`arrive`, `pumpEntry`) says what goes out and what is written after it,
  since a local peer is served before the transmission returns.

  Ticks are numbers; sequence numbers and the retransmit timer wrap at 32 bits.
-/
import BigOS.Lib.Ring

namespace BigOS.Net

open BigOS.Lib

/-! ## §1. Sequence numbers. -/

def TCP_MSS : Nat := 500
def TCP_RECV_BUFFER : Nat := 1024
def TCP_RETX_QUEUE_CAPACITY : Nat := 4
def TCP_REORDER_SLOTS : Nat := 4
def TCP_RTO_MIN : BitVec 32 := 20
def TCP_RTO_MAX : BitVec 32 := 12000
def TCP_MSL_TICKS : Nat := 15
def TCP_MAX_RETRANSMIT : Nat := 3

abbrev Seq := BitVec 32

/-- `seq_lt`. -/
def seqLt (a b : Seq) : Bool := decide ((a - b).toInt < 0)

/-- `seq_leq`. -/
def seqLeq (a b : Seq) : Bool := decide ((a - b).toInt ≤ 0)

/-- `seq_gt`. -/
def seqGt (a b : Seq) : Bool := decide (0 < (a - b).toInt)

theorem seqLeq_iff {a b : Seq} : seqLeq a b ↔ (a - b).toNat = 0 ∨ 2 ^ 31 ≤ (a - b).toNat := by
  unfold seqLeq
  rw [decide_eq_true_eq, BitVec.toInt_eq_toNat_cond]
  split <;> omega

theorem seqGt_iff {a b : Seq} : seqGt a b ↔ 0 < (a - b).toNat ∧ (a - b).toNat < 2 ^ 31 := by
  unfold seqGt
  rw [decide_eq_true_eq, BitVec.toInt_eq_toNat_cond]
  split <;> omega

/-! ## §2. Segments and the block. -/

inductive Status where
  | ok
  | notReady
  | malformed
  | tooLarge
  | arpUnresolved
  | cacheFull
  | tableFull
  | notBound
  | queueFull
  | noData
  | deviceTxFailure
  deriving DecidableEq

inductive TcpState where
  | closed
  | listen
  | synSent
  | synReceived
  | established
  | finWait1
  | finWait2
  | closing
  | closeWait
  | lastAck
  | timeWait
  deriving DecidableEq

structure Flags where
  fin : Bool
  syn : Bool
  rst : Bool
  psh : Bool
  ack : Bool
  deriving DecidableEq

def Flags.onlyAck : Flags := ⟨false, false, false, false, true⟩
def Flags.pushAck : Flags := ⟨false, false, false, true, true⟩
def Flags.finAck : Flags := ⟨true, false, false, false, true⟩

structure Segment where
  srcPort : Nat
  dstPort : Nat
  seq : Seq
  ack : Seq
  flags : Flags
  window : BitVec 16
  data : List UInt8
  deriving DecidableEq

/-- `TcpRetxSegment`. -/
structure TcpRetxSegment where
  inUse : Bool
  seq : Seq
  flags : Flags
  data : List UInt8
  retransmitted : Bool
  retransmitCount : Nat
  sendTick : Nat
  rtoDeadlineTick : Nat

/-- `TcpReorderSlot`. -/
structure TcpReorderSlot where
  inUse : Bool
  seq : Seq
  data : List UInt8

/-- `TcpControlBlock`.  Blocks are named by their slots. -/
structure TcpControlBlock where
  active : Bool
  owner : Nat
  state : TcpState
  localIp : BitVec 32
  localPort : Nat
  remoteIp : BitVec 32
  remotePort : Nat
  sndUna : Seq
  sndNxt : Seq
  sndWnd : Nat
  retx : List TcpRetxSegment
  rttValid : Bool
  srtt : BitVec 32
  rttvar : BitVec 32
  rto : BitVec 32
  rcvNxt : Seq
  recv : Ring UInt8 TCP_RECV_BUFFER
  reorder : List TcpReorderSlot
  finSent : Bool
  finReceived : Bool
  timeWaitDeadlineTick : Nat
  isChild : Bool
  listener : Option Nat
  synQueue : List Nat
  acceptQueue : List Nat
  generation : Nat

/-- The zeroed block. -/
def TcpControlBlock.zero : TcpControlBlock where
  active := false
  owner := 0
  state := .closed
  localIp := 0
  localPort := 0
  remoteIp := 0
  remotePort := 0
  sndUna := 0
  sndNxt := 0
  sndWnd := 0
  retx := List.replicate TCP_RETX_QUEUE_CAPACITY
    ⟨false, 0, ⟨false, false, false, false, false⟩, [], false, 0, 0, 0⟩
  rttValid := false
  srtt := 0
  rttvar := 0
  rto := 0
  rcvNxt := 0
  recv := ⟨fun _ => 0, 0, 0, 0⟩
  reorder := List.replicate TCP_REORDER_SLOTS ⟨false, 0, []⟩
  finSent := false
  finReceived := false
  timeWaitDeadlineTick := 0
  isChild := false
  listener := none
  synQueue := []
  acceptQueue := []
  generation := 0

namespace TcpControlBlock

variable (now : Nat) (tcb : TcpControlBlock)

/-! ## §3. The send side. -/

/-- `advertised_window`. -/
def advertisedWindow : Nat :=
  TCP_RECV_BUFFER - (tcb.recv.count +
    (tcb.reorder.map fun slot => if slot.inUse then slot.data.length else 0).sum)

/-- The segment that `transmit_segment` builds. -/
def segment (seq ack : Seq) (flags : Flags) (data : List UInt8) : Segment :=
  ⟨tcb.localPort, tcb.remotePort, seq, ack, flags, BitVec.ofNat 16 tcb.advertisedWindow,
    data.take TCP_MSS⟩

/-- The segment of `emit_ack`. -/
def ackSegment : Segment :=
  tcb.segment tcb.sndNxt tcb.rcvNxt Flags.onlyAck []

/-- Put an entry into the first free one of the queue. -/
def storeFree (entry : TcpRetxSegment) : List TcpRetxSegment → Option (List TcpRetxSegment)
  | [] => none
  | e :: rest => if e.inUse then (storeFree entry rest).map (e :: ·) else some (entry :: rest)

/-- `register_retx`. -/
def registerRetx (seq : Seq) (flags : Flags) (data : List UInt8) : Option TcpControlBlock :=
  (storeFree ⟨true, seq, flags, data, false, 0, now, now + tcb.rto.toNat⟩ tcb.retx).map
    fun retx => { tcb with retx := retx }

def seqSpan (flags : Flags) (data : List UInt8) : Nat :=
  data.length + (if flags.syn then 1 else 0) + (if flags.fin then 1 else 0)

/-- `retx_seq_span`. -/
def retxSeqSpan (e : TcpRetxSegment) : Nat := seqSpan e.flags e.data

/-- `emit_new` up to the transmission of the segment; `none` is `QueueFull`. -/
def emitNew (flags : Flags) (data : List UInt8) : Option (TcpControlBlock × Segment) :=
  let span := seqSpan flags data
  (if span ≠ 0 then tcb.registerRetx now tcb.sndNxt flags data else some tcb).map fun next =>
    let next := { next with sndNxt := tcb.sndNxt + BitVec.ofNat 32 span }
    (next, next.segment tcb.sndNxt (if flags.ack then next.rcvNxt else 0) flags data)

def clampRto (rto : BitVec 32) : BitVec 32 :=
  if rto < TCP_RTO_MIN then TCP_RTO_MIN else if TCP_RTO_MAX < rto then TCP_RTO_MAX else rto

/-- `rtt_update`. -/
def rttUpdate (r : BitVec 32) : TcpControlBlock :=
  let err := if r < tcb.srtt then tcb.srtt - r else r - tcb.srtt
  let next : TcpControlBlock := if tcb.rttValid then
      { tcb with
        rttvar := tcb.rttvar - (tcb.rttvar >>> 2) + (err >>> 2)
        srtt := tcb.srtt - (tcb.srtt >>> 3) + (r >>> 3) }
    else { tcb with srtt := r, rttvar := r >>> 1, rttValid := true }
  let fourRttvar := next.rttvar <<< 2
  { next with rto := clampRto (next.srtt + if 1 < fourRttvar then fourRttvar else 1) }

/-- The entry is acknowledged as a whole. -/
def ackedBy (ack : Seq) (e : TcpRetxSegment) : Bool :=
  e.inUse && seqLeq (e.seq + BitVec.ofNat 32 (retxSeqSpan e)) ack

/-- `process_ack`. -/
def processAck (ack : Seq) (window : BitVec 16) : TcpControlBlock :=
  if seqGt ack tcb.sndUna && seqLeq ack tcb.sndNxt then
    -- Entries that were retransmitted give no sample.
    let timed := tcb.retx.foldl (fun t e => if ackedBy ack e && !e.retransmitted then
      t.rttUpdate (BitVec.ofNat 32 (now - e.sendTick)) else t) tcb
    { timed with
      retx := tcb.retx.map fun e => if ackedBy ack e then { e with inUse := false } else e
      sndUna := ack
      sndWnd := window.toNat }
  else tcb

/-! ## §4. The receive side. -/

/-- The copy into the receive buffer. -/
def pushAll (ring : Ring UInt8 TCP_RECV_BUFFER) (bytes : List UInt8) : Ring UInt8 TCP_RECV_BUFFER :=
  bytes.foldl Ring.push ring

/-- One pass of `drain_reorder` over the slots; whether a slot was merged. -/
def drainPass (nxt : Seq) (ring : Ring UInt8 TCP_RECV_BUFFER) :
    List TcpReorderSlot → Bool × Seq × Ring UInt8 TCP_RECV_BUFFER × List TcpReorderSlot
  | [] => (false, nxt, ring, [])
  | slot :: rest =>
    if slot.inUse && slot.seq == nxt then
      let take := min slot.data.length (TCP_RECV_BUFFER - ring.count)
      let all := take == slot.data.length
      let r := drainPass (nxt + BitVec.ofNat 32 take) (pushAll ring (slot.data.take take)) rest
      (all || r.1, r.2.1, r.2.2.1, { slot with inUse := !all } :: r.2.2.2)
    else
      let r := drainPass nxt ring rest
      (r.1, r.2.1, r.2.2.1, slot :: r.2.2.2)

/-- `drain_reorder`: passes while one of them merges a slot. -/
def drainReorder : Nat → TcpControlBlock → TcpControlBlock
  | 0, tcb => tcb
  | fuel + 1, tcb =>
    let r := drainPass tcb.rcvNxt tcb.recv tcb.reorder
    let next := { tcb with rcvNxt := r.2.1, recv := r.2.2.1, reorder := r.2.2.2 }
    if r.1 then drainReorder fuel next else next

/-- Put a slot into the first free one. -/
def storeReorder (entry : TcpReorderSlot) : List TcpReorderSlot → List TcpReorderSlot
  | [] => []
  | slot :: rest => if slot.inUse then slot :: storeReorder entry rest else entry :: rest

/-- The segment begins at the next byte, or ahead of it in the window. -/
def inWindow (seq : Seq) : Bool :=
  seq == tcb.rcvNxt || (seqGt seq tcb.rcvNxt &&
    seqLt seq (tcb.rcvNxt + BitVec.ofNat 32 tcb.advertisedWindow))

/-- `accept_data`. -/
def acceptData (seq : Seq) (data : List UInt8) : Bool × TcpControlBlock :=
  if data = [] then (false, tcb)
  else if seq = tcb.rcvNxt then
    let take := min data.length (TCP_RECV_BUFFER - tcb.recv.count)
    (true, drainReorder (TCP_REORDER_SLOTS + 1)
      { tcb with
        recv := pushAll tcb.recv (data.take take)
        rcvNxt := tcb.rcvNxt + BitVec.ofNat 32 take })
  else if tcb.inWindow seq then
    if tcb.reorder.any (fun slot => slot.inUse && slot.seq == seq) then (true, tcb)
    else (true, { tcb with reorder := storeReorder ⟨true, seq, data.take TCP_MSS⟩ tcb.reorder })
  else (false, tcb)

/-- `tcp_receive`. -/
def tcpReceive (cap : Nat) : List UInt8 × TcpControlBlock :=
  let r := Ring.takeUpTo cap tcb.recv
  (r.1, { tcb with recv := r.2 })

/-- `tcp_peer_closed`. -/
def tcpPeerClosed : Bool :=
  tcb.recv.count == 0 && (tcb.finReceived || tcb.state == .closeWait || tcb.state == .lastAck ||
    tcb.state == .closing || tcb.state == .timeWait)

/-! ## §5. A segment arrives. -/

/-- `enter_time_wait`. -/
def enterTimeWait : TcpControlBlock :=
  { tcb with state := .timeWait, timeWaitDeadlineTick := now + 2 * TCP_MSL_TICKS }

/-- What is written when the acknowledgement is out. -/
inductive AfterAck where
  | nothing
  | timeWait
  | closing
  deriving DecidableEq

/-- What `handle_tcp` does with the block that a segment is for. -/
inductive Arrival where
  /-- `reset_connection`. -/
  | reset
  /-- The segment is dropped. -/
  | malformed
  /-- The block is recycled. -/
  | finished
  /-- The handshake of the other side is over. -/
  | completed (tcb : TcpControlBlock)
  /-- Nothing goes out. -/
  | quiet (tcb : TcpControlBlock)
  /-- An acknowledgement goes out. -/
  | acknowledged (tcb : TcpControlBlock) (after : AfterAck)

/-- The acknowledgement that a segment carries is processed. -/
def ackOf (seg : Segment) : TcpControlBlock :=
  if seg.flags.ack then tcb.processAck now seg.ack seg.window else tcb

/-- The FIN of the segment comes next. -/
def finNext (seg : Segment) : Bool :=
  seg.flags.fin && seqLeq (seg.seq + BitVec.ofNat 32 seg.data.length) tcb.rcvNxt

/-- The FIN is consumed. -/
def takeFin : TcpControlBlock :=
  { tcb with rcvNxt := tcb.rcvNxt + 1, finReceived := true }

/-- The part of `handle_tcp` for a block that the segment belongs to. -/
def arrive (seg : Segment) : Arrival :=
  if seg.flags.rst then .reset
  else match tcb.state with
  | .synSent =>
    if !seg.flags.syn || !seg.flags.ack || seg.ack != tcb.sndNxt then .malformed
    else .acknowledged { ({ tcb with rcvNxt := seg.seq + 1 } : TcpControlBlock).processAck now
      seg.ack seg.window with state := .established } .nothing
  | .synReceived =>
    if !seg.flags.ack || seg.ack != tcb.sndNxt then .malformed
    else .completed { tcb.processAck now seg.ack seg.window with state := .established }
  | .established =>
    let taken := (tcb.ackOf now seg).acceptData seg.seq seg.data
    if taken.2.finNext seg then
      .acknowledged { taken.2.takeFin with state := .closeWait } .nothing
    else if taken.1 then .acknowledged taken.2 .nothing
    else .quiet taken.2
  | .finWait1 =>
    let taken := ((tcb.ackOf now seg).acceptData seg.seq seg.data).2
    let ourFinAcked := taken.sndUna == taken.sndNxt
    if taken.finNext seg then
      .acknowledged taken.takeFin (if ourFinAcked then .timeWait else .closing)
    else .quiet (if ourFinAcked then { taken with state := .finWait2 } else taken)
  | .finWait2 =>
    let taken := ((tcb.ackOf now seg).acceptData seg.seq seg.data).2
    if taken.finNext seg then .acknowledged taken.takeFin .timeWait
    else .quiet taken
  | .closing =>
    let next := tcb.ackOf now seg
    .quiet (if next.sndUna == next.sndNxt then next.enterTimeWait now else next)
  | .closeWait => .quiet (tcb.ackOf now seg)
  | .lastAck =>
    let next := tcb.ackOf now seg
    if next.sndUna == next.sndNxt then .finished else .quiet next
  | .timeWait => if seg.flags.fin then .acknowledged tcb .nothing else .quiet tcb
  | .closed | .listen => .malformed

/-- The writes after the acknowledgement. -/
def afterAck : AfterAck → TcpControlBlock
  | .nothing => tcb
  | .timeWait => tcb.enterTimeWait now
  | .closing => { tcb with state := .closing }

/-- The block when `handle_tcp` returns, if nothing else happens to it in between; `none` if
it was recycled. -/
def handled (seg : Segment) : Option TcpControlBlock :=
  match tcb.arrive now seg with
  | .reset | .finished => none
  | .malformed => some tcb
  | .completed next | .quiet next => some next
  | .acknowledged next after => some (next.afterAck now after)

/-- The segment that `handle_tcp` transmits. -/
def answer (seg : Segment) : Option Segment :=
  match tcb.arrive now seg with
  | .acknowledged next _ => some next.ackSegment
  | _ => none

/-! ## §6. Closing and the timer. -/

/-- The state is set before the FIN is emitted; the queue may be full. -/
def emitFin (state : TcpState) : TcpControlBlock × Option Segment :=
  let next := { tcb with finSent := true, state := state }
  match next.emitNew now Flags.finAck [] with
  | some (sent, seg) => (sent, some seg)
  | none => (next, none)

/-- `tcp_close`, up to the transmission; `none` is `NotReady`. -/
def tcpClose : Option (TcpControlBlock × Option Segment) :=
  match tcb.state with
  | .established => some (tcb.emitFin now .finWait1)
  | .closeWait => some (tcb.emitFin now .lastAck)
  | _ => none

/-- What `tcp_pump` does with an entry. -/
inductive PumpStep where
  | skip
  | reset
  | retransmit (seg : Segment)

/-- The entry is due: it goes out again, or the connection is reset. -/
def pumpEntry (j : Nat) : PumpStep :=
  match tcb.retx[j]? with
  | none => .skip
  | some e =>
    if !e.inUse || now < e.rtoDeadlineTick then .skip
    else if TCP_MAX_RETRANSMIT ≤ e.retransmitCount then .reset
    else .retransmit (tcb.segment e.seq (if e.flags.ack then tcb.rcvNxt else 0) e.flags e.data)

/-- The writes after a retransmission. -/
def afterRetransmit (j : Nat) : TcpControlBlock :=
  let rto := clampRto (tcb.rto <<< 1)
  { tcb with
    rto := rto
    retx := tcb.retx.modify j fun e =>
      { e with
        retransmitted := true
        retransmitCount := e.retransmitCount + 1
        rtoDeadlineTick := now + rto.toNat } }

/-- The entries of one block in `tcp_pump`, if nothing else happens to it in between. -/
def pumpEntries (now : Nat) : List Nat → TcpControlBlock → Option TcpControlBlock × List Segment
  | [], tcb => (some tcb, [])
  | j :: rest, tcb =>
    match tcb.pumpEntry now j with
    | .skip => pumpEntries now rest tcb
    | .reset => (none, [])
    | .retransmit seg =>
      let r := pumpEntries now rest (tcb.afterRetransmit now j)
      (r.1, seg :: r.2)

/-- `tcp_pump` for one block. -/
def pump : Option TcpControlBlock × List Segment :=
  if tcb.state = .timeWait then
    (if tcb.timeWaitDeadlineTick ≤ now then none else some tcb, [])
  else tcb.pumpEntries now (List.range TCP_RETX_QUEUE_CAPACITY)

/-! ## §7. What the functions leave alone. -/

theorem drainReorder_eq (fuel : Nat) (tcb : TcpControlBlock) :
    ∃ nxt ring slots, drainReorder fuel tcb =
      { tcb with rcvNxt := nxt, recv := ring, reorder := slots } := by
  induction fuel generalizing tcb with
  | zero => exact ⟨_, _, _, rfl⟩
  | succ fuel ih =>
    unfold drainReorder
    dsimp only
    split
    · obtain ⟨nxt, ring, slots, heq⟩ := ih _
      exact ⟨nxt, ring, slots, heq⟩
    · exact ⟨_, _, _, rfl⟩

theorem acceptData_eq (tcb : TcpControlBlock) (seq : Seq) (data : List UInt8) :
    ∃ nxt ring slots, (tcb.acceptData seq data).2 =
      { tcb with rcvNxt := nxt, recv := ring, reorder := slots } := by
  unfold acceptData
  split
  · exact ⟨_, _, _, rfl⟩
  split
  · obtain ⟨nxt, ring, slots, heq⟩ := drainReorder_eq (TCP_REORDER_SLOTS + 1)
      { tcb with
        recv := pushAll tcb.recv (data.take (min data.length (TCP_RECV_BUFFER - tcb.recv.count)))
        rcvNxt := tcb.rcvNxt +
          BitVec.ofNat 32 (min data.length (TCP_RECV_BUFFER - tcb.recv.count)) }
    exact ⟨nxt, ring, slots, heq⟩
  split
  · split <;> exact ⟨_, _, _, rfl⟩
  · exact ⟨_, _, _, rfl⟩

/-- What `emit_new` writes; the segment has the old `snd_nxt`. -/
theorem emitNew_eq {now : Nat} {tcb next : TcpControlBlock} {flags : Flags} {data : List UInt8}
    {seg : Segment} (h : tcb.emitNew now flags data = some (next, seg)) :
    ∃ retx, (seqSpan flags data ≠ 0 → storeFree
        ⟨true, tcb.sndNxt, flags, data, false, 0, now, now + tcb.rto.toNat⟩ tcb.retx = some retx) ∧
      next = { tcb with
        retx := retx, sndNxt := tcb.sndNxt + BitVec.ofNat 32 (seqSpan flags data) } ∧
      seg.seq = tcb.sndNxt ∧ seg.flags = flags := by
  unfold emitNew at h
  obtain ⟨mid, hmid, heq⟩ := Option.map_eq_some_iff.mp h
  cases heq
  split at hmid
  · obtain ⟨retx, hstore, heq⟩ := Option.map_eq_some_iff.mp hmid
    cases heq
    exact ⟨retx, fun _ => hstore, rfl, rfl, rfl⟩
  · rename_i hspan
    cases hmid
    exact ⟨tcb.retx, fun hne => absurd hne hspan, rfl, rfl, rfl⟩

theorem rttUpdate_eq (tcb : TcpControlBlock) (r : BitVec 32) :
    ∃ valid srtt rttvar rto, tcb.rttUpdate r =
      { tcb with rttValid := valid, srtt := srtt, rttvar := rttvar, rto := rto } := by
  unfold rttUpdate
  cases tcb.rttValid with
  | true => exact ⟨_, _, _, _, rfl⟩
  | false => exact ⟨_, _, _, _, rfl⟩

/-- The samples of the entries change the estimator only. -/
theorem samples_eq (now : Nat) (ack : Seq) (entries : List TcpRetxSegment) (tcb : TcpControlBlock) :
    ∃ valid srtt rttvar rto, entries.foldl (fun t e => if ackedBy ack e && !e.retransmitted then
      t.rttUpdate (BitVec.ofNat 32 (now - e.sendTick)) else t) tcb =
        { tcb with rttValid := valid, srtt := srtt, rttvar := rttvar, rto := rto } := by
  induction entries generalizing tcb with
  | nil => exact ⟨_, _, _, _, rfl⟩
  | cons e entries ih =>
    rw [List.foldl_cons]
    split
    · obtain ⟨v, s, r, o, heq⟩ := rttUpdate_eq tcb (BitVec.ofNat 32 (now - e.sendTick))
      rw [heq]
      obtain ⟨v', s', r', o', heq'⟩ :=
        ih { tcb with rttValid := v, srtt := s, rttvar := r, rto := o }
      exact ⟨v', s', r', o', heq'⟩
    · exact ih tcb

/-- An acknowledgement that advances `snd_una` frees entries and tells the window. -/
theorem processAck_eq (now : Nat) (tcb : TcpControlBlock) (ack : Seq) (window : BitVec 16) :
    ∃ valid srtt rttvar rto, tcb.processAck now ack window =
      if seqGt ack tcb.sndUna && seqLeq ack tcb.sndNxt then { tcb with
          retx := tcb.retx.map fun e => if ackedBy ack e then { e with inUse := false } else e
          sndUna := ack
          sndWnd := window.toNat
          rttValid := valid
          srtt := srtt
          rttvar := rttvar
          rto := rto }
      else tcb := by
  unfold processAck
  split
  · obtain ⟨v, s, r, o, heq⟩ := samples_eq now ack tcb.retx tcb
    exact ⟨v, s, r, o, by rw [heq]⟩
  · exact ⟨tcb.rttValid, tcb.srtt, tcb.rttvar, tcb.rto, rfl⟩

end TcpControlBlock

end BigOS.Net
