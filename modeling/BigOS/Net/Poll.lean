/-
  BigOS.Net.Poll — what `poll_file` reports, against calls that would block.

  A pipe end is polled with the predicates that its calls wait on.  `stream_poll` has a
  condition of its own: it reports a socket writable in `Established` only, while
  `tcp_send` sends in `CloseWait` too and a write to a closed direction fails at once; and
  a socket whose block is gone is reported as an error, not as readable.

  Main results:
    • `streamRead_blocks_iff`, `streamWrite_blocks_iff` — when the calls would block,
    • `poll_agrees_iff` — when the report is right.
-/
import BigOS.Ipc.Pipe.Stream
import BigOS.Net.Endpoints

namespace BigOS.Net

open TcpControlBlock

/-! ## §1. Pipes. -/

/-- The bits of `poll_file`. -/
structure Ready where
  readable : Bool
  writable : Bool
  error : Bool
  deriving DecidableEq

def Ready.onlyError : Ready := ⟨false, false, true⟩

/-- `write_ready`. -/
def pipeWriteReady (pipe : Ipc.Pipe) : Bool :=
  decide (pipe.ring.count < Ipc.PIPE_CAPACITY) || !pipe.readOpen

/-- `pipe_poll`. -/
def pipePoll (pipe : Ipc.Pipe) (isWrite : Bool) : Ready :=
  if isWrite then ⟨false, pipeWriteReady pipe, !pipe.readOpen⟩ else ⟨pipe.readReady, false, false⟩

/-- The call that returned last returned `WouldBlock`. -/
def pipeBlocked (s : Ipc.State) : Bool :=
  match s.returns.getLast? with
  | some (.read _ _ status _ _) | some (.write _ _ status _ _) => status == .wouldBlock
  | none => false

/-! ## §2. Stream sockets. -/

/-- `StreamSocket::Role`. -/
inductive Role where
  | unbound
  | bound
  | listening
  | connecting
  | connected
  | closed
  deriving DecidableEq

/-- `StreamSocket`, with the block that its pointer shows. -/
structure StreamSocket where
  role : Role
  tcb : Option TcpControlBlock
  tcbGeneration : Nat

/-- `tcp_connection_alive`. -/
def tcpConnectionAlive (tcb : TcpControlBlock) (generation : Nat) : Bool :=
  tcb.active && generation != 0 && tcb.generation == generation

/-- The window and the retransmit queue have room. -/
def TcpControlBlock.room (tcb : TcpControlBlock) : Bool :=
  !(decide (tcb.sndWnd ≤ (tcb.sndNxt - tcb.sndUna).toNat) || tcb.retx.all (·.inUse))

/-- `tcp_send_room`. -/
def tcpSendRoom (tcb : TcpControlBlock) : Bool := tcb.state == .established && tcb.room

/-- `tcp_accept_ready`. -/
def tcpAcceptReady (tcb : TcpControlBlock) : Bool :=
  tcb.state == .listen && !tcb.acceptQueue.isEmpty

/-- `stream_tcb_alive`. -/
def StreamSocket.alive (s : StreamSocket) : Bool :=
  s.tcb.any (tcpConnectionAlive · s.tcbGeneration)

/-- `stream_poll`. -/
def streamPoll (s : StreamSocket) : Ready :=
  match s.tcb with
  | none => .onlyError
  | some tcb =>
    if !s.alive then .onlyError
    else match s.role with
    | .listening => ⟨tcpAcceptReady tcb, false, false⟩
    | .connecting => ⟨false, tcb.state == .established, false⟩
    | .connected => ⟨decide (0 < tcb.recv.count) || tcb.tcpPeerClosed,
        tcb.state == .established && tcpSendRoom tcb, false⟩
    | _ => .onlyError

/-- The rounds of `stream_read`; between two of them the pump and others change the block, or
recycle it. -/
def readRounds (nonblocking : Bool) (len : Nat) :
    List (TcpControlBlock → Option TcpControlBlock) → TcpControlBlock → WriteStatus × List UInt8
  | [], _ => (.wouldBlock, [])
  | between :: rounds, tcb =>
    let got := (tcb.tcpReceive len).1
    if got ≠ [] then (.success, got)
    else if tcb.tcpPeerClosed then (.success, [])
    else if nonblocking then (.wouldBlock, [])
    else match between tcb with
    | none => (.connectionReset, [])
    | some next => readRounds nonblocking len rounds next

/-- `stream_read` where the caller can block; `none` is `NotConnected`. -/
def streamRead (s : StreamSocket) (nonblocking : Bool) (len : Nat)
    (rounds : List (TcpControlBlock → Option TcpControlBlock)) :
    Option (WriteStatus × List UInt8) :=
  if len = 0 then some (.success, [])
  else match s.role, s.tcb with
  | .connected, some tcb => some <|
    if s.alive then readRounds nonblocking len (rounds.take (if nonblocking then 1 else 16)) tcb
    else (.connectionReset, [])
  | _, _ => none

/-- `stream_write_flags` where the caller can block; `none` is `NotConnected`. -/
def streamWrite (s : StreamSocket) (nonblocking : Bool) (rounds : List Round)
    (data : List UInt8) : Option WriteStatus :=
  if data = [] then some .success
  else match s.role, s.tcb with
  | .connected, some tcb => some <|
    if s.alive then (tcb.streamWriteFlags nonblocking rounds data).status else .brokenPipe
  | _, _ => none

/-! ## §3. When a call would block. -/

section

variable {s : StreamSocket} {tcb : TcpControlBlock}

theorem streamRead_blocks_iff (hrole : s.role = .connected) (htcb : s.tcb = some tcb)
    (between : TcpControlBlock → Option TcpControlBlock) :
    (streamRead s true 1 [between]).map Prod.fst = some .wouldBlock ↔
      s.alive ∧ tcb.recv.count = 0 ∧ tcb.tcpPeerClosed = false := by
  have hgot : (tcb.tcpReceive 1).1 = [] ↔ tcb.recv.count = 0 := by
    unfold tcpReceive Lib.Ring.takeUpTo
    split <;> simp_all
  unfold streamRead
  rw [hrole, htcb, if_neg Nat.one_ne_zero]
  cases s.alive with
  | false => simp
  | true =>
    simp only [if_true, List.take_succ_cons, readRounds, ne_eq, ite_not, hgot]
    by_cases hcount : tcb.recv.count = 0
    · cases tcb.tcpPeerClosed <;> simp [hcount]
    · simp [hcount]

/-- The output path turns the first segment down, and `stream_write_flags` goes on. -/
def TcpControlBlock.Round.softlyRefuses (round : Round) : Bool :=
  (round.out 0).status == .notReady || (round.out 0).status == .queueFull

theorem nextChunk_one (tcb : TcpControlBlock) : tcb.nextChunk 1 = if tcb.room then 1 else 0 := by
  have hmss : TCP_MSS = 500 := rfl
  unfold nextChunk room
  dsimp only
  split
  case isTrue hfull => rw [hfull, Bool.not_true, if_neg Bool.false_ne_true]
  case isFalse hfull =>
    rw [Bool.eq_false_iff.mpr hfull, Bool.not_false, if_pos rfl]
    simp only [Bool.or_eq_true, decide_eq_true_eq, not_or] at hfull
    omega

/-- One byte goes out if there is room and the output path takes it. -/
theorem tcpSend_one (now : Nat) (out : Nat → Output) (tcb : TcpControlBlock) (b : UInt8) :
    ((tcb.tcpSend now out [b]).status, (tcb.tcpSend now out [b]).sent) =
      if !tcb.maySend then (.notReady, 0)
      else if !tcb.room then (.ok, 0)
      else ((out 0).status, if (out 0).status = .ok then 1 else 0) := by
  unfold tcpSend
  cases tcb.maySend with
  | false => rfl
  | true =>
    have hchunk := nextChunk_one tcb
    rw [if_pos rfl, List.length_singleton]
    unfold sendLoop
    rw [List.length_singleton]
    cases hroom : tcb.room with
    | false =>
      rw [hroom] at hchunk
      rw [if_pos (hchunk.trans (if_neg Bool.false_ne_true))]
      rfl
    | true =>
      rw [hroom, if_pos rfl] at hchunk
      have hfree : tcb.retx.all (·.inUse) = false := by
        unfold room at hroom
        rw [Bool.not_eq_true', Bool.or_eq_false_iff] at hroom
        exact hroom.2
      obtain ⟨emitted, hemit⟩ := emitNew_isSome now Flags.pushAck ([b].take 1) hfree
      rw [hchunk, if_neg Nat.one_ne_zero, hemit]
      dsimp only
      by_cases hok : (out 0).status = .ok
      · rw [if_pos hok, if_pos hok, hok]
        rfl
      · rw [if_neg hok, if_neg hok]
        rfl

theorem streamWrite_blocks_iff (hrole : s.role = .connected) (htcb : s.tcb = some tcb)
    (round : Round) (b : UInt8) :
    streamWrite s true [round] [b] = some .wouldBlock ↔ s.alive ∧ tcb.tcpWriteClosed = false ∧
      (tcb.maySend → tcb.room → round.softlyRefuses) := by
  unfold streamWrite
  rw [hrole, htcb, if_neg (List.cons_ne_nil b [])]
  cases s.alive with
  | false => simp
  | true =>
    have hsend := tcpSend_one round.now round.out tcb b
    unfold streamWriteFlags Round.softlyRefuses
    simp only [if_true, List.take_succ_cons, writeRounds]
    cases tcb.tcpWriteClosed with
    | true => simp
    | false =>
      generalize tcb.tcpSend round.now round.out [b] = r at hsend ⊢
      obtain ⟨status, sent, _, _, _⟩ := r
      -- What is left depends on the state, the room and the output path only.
      cases hmay : tcb.maySend <;> cases hroom : tcb.room <;>
        cases hout : (round.out 0).status <;>
        simp only [hmay, hroom, hout] at hsend <;> cases hsend <;> simp [Status.soft]

/-- The report on the writing side of a block is right. -/
def WritesAgree (tcb : TcpControlBlock) (round : Round) : Prop :=
  if tcb.tcpWriteClosed then tcb.state = .established ∧ tcb.room
  else tcb.room → (tcb.state = .established → round.softlyRefuses = false) ∧
    (tcb.state = .closeWait → round.softlyRefuses)

/-! ## §4. When the report is right. -/

section

variable (hrole : s.role = .connected) (htcb : s.tcb = some tcb)

include hrole htcb

theorem streamPoll_connected :
    streamPoll s = if s.alive then ⟨decide (0 < tcb.recv.count) || tcb.tcpPeerClosed,
      tcb.state == .established && tcb.room, false⟩ else .onlyError := by
  unfold streamPoll tcpSendRoom
  rw [hrole, htcb]
  cases s.alive with
  | false => rfl
  | true => simp

theorem stream_read_agrees_iff (between : TcpControlBlock → Option TcpControlBlock) :
    ((streamPoll s).readable ↔
      (streamRead s true 1 [between]).map Prod.fst ≠ some .wouldBlock) ↔ s.alive := by
  rw [streamPoll_connected hrole htcb, ne_eq, streamRead_blocks_iff hrole htcb]
  cases s.alive with
  | false => simp [Ready.onlyError]
  | true =>
    cases tcb.tcpPeerClosed <;> simp [Nat.pos_iff_ne_zero]

theorem stream_write_agrees_iff (round : Round) (b : UInt8) :
    (((streamPoll s).writable || (streamPoll s).error) ↔
      streamWrite s true [round] [b] ≠ some .wouldBlock) ↔ (s.alive → WritesAgree tcb round) := by
  rw [streamPoll_connected hrole htcb, ne_eq, streamWrite_blocks_iff hrole htcb]
  unfold WritesAgree maySend tcpWriteClosed
  cases s.alive with
  | false => simp [Ready.onlyError]
  | true =>
    cases tcb.state <;> cases tcb.finSent <;> cases tcb.room <;> cases round.softlyRefuses <;>
      simp

end

end

section

variable {s : Ipc.State}

theorem pipe_read_agrees (hopen : s.pipe.readOpen) (tid : Nat) : (pipePoll s.pipe false).readable ↔
      pipeBlocked (Ipc.pipeRead s tid 1 false false) = false := by
  unfold Ipc.pipeRead pipePoll Ipc.Pipe.readReady pipeBlocked Ipc.finishRead Ipc.copyRead
  rw [hopen]
  by_cases hcount : s.pipe.ring.count = 0 <;> cases s.pipe.writeOpen <;>
    simp [hcount, Ipc.State.finish, Ipc.State.wakeWriters, Ipc.State.setRing, Nat.pos_iff_ne_zero]

theorem pipe_write_agrees (hinv : Ipc.Inv s) (hopen : s.pipe.writeOpen) (tid : Nat) (b : UInt8) :
    ((pipePoll s.pipe true).writable || (pipePoll s.pipe true).error) ↔
      pipeBlocked (Ipc.pipeWrite s tid [b] false false) = false := by
  have hcap : s.pipe.ring.count ≤ Ipc.PIPE_CAPACITY := hinv.ring.count_le
  unfold Ipc.pipeWrite pipePoll pipeWriteReady pipeBlocked
  rw [hopen]
  by_cases hfull : s.pipe.ring.count = Ipc.PIPE_CAPACITY <;> cases hread : s.pipe.readOpen <;>
    simp [Ipc.writeLoop, hfull, hread, Ipc.State.finish, Nat.lt_of_le_of_ne hcap]

end

/-- For a pipe in every state of a run, and for a connected socket the exact condition under
which the report and the calls agree. -/
theorem poll_agrees_iff (events : List Ipc.Event) (tid : Nat) (b : UInt8) (s : StreamSocket)
    (tcb : TcpControlBlock) (hrole : s.role = .connected) (htcb : s.tcb = some tcb)
    (round : Round) :
    let p := Ipc.run Ipc.create events
    (p.pipe.readOpen = true → ((pipePoll p.pipe false).readable = true ↔
      pipeBlocked (Ipc.pipeRead p tid 1 false false) = false)) ∧ (p.pipe.writeOpen = true →
      (((pipePoll p.pipe true).writable || (pipePoll p.pipe true).error) = true ↔
        pipeBlocked (Ipc.pipeWrite p tid [b] false false) = false)) ∧
    (((streamPoll s).readable = true ↔
      (streamRead s true 1 [round.between]).map Prod.fst ≠ some .wouldBlock) ↔ s.alive = true) ∧
    ((((streamPoll s).writable || (streamPoll s).error) = true ↔
      streamWrite s true [round] [b] ≠ some .wouldBlock) ↔
        (s.alive = true → WritesAgree tcb round)) :=
  ⟨fun hopen => pipe_read_agrees hopen tid,
    fun hopen => pipe_write_agrees (Ipc.run_inv Ipc.create_inv events) hopen tid b,
    stream_read_agrees_iff hrole htcb round.between, stream_write_agrees_iff hrole htcb round b⟩

/-- A byte has come on the connection: the report is right for the read and for the write. -/
theorem poll_agrees_received :
    let s : StreamSocket := ⟨.connected, some { openedBlock 1 2 0 0 with
      recv := pushAll zero.recv [7], generation := 1 }, 1⟩
    ((streamPoll s).readable = true ↔
        (streamRead s true 1 [some]).map Prod.fst ≠ some .wouldBlock) ∧
      (((streamPoll s).writable || (streamPoll s).error) = true ↔
        streamWrite s true [⟨0, fun _ => ⟨.ok, []⟩, some⟩] [8] ≠ some .wouldBlock) :=
  have h := (poll_agrees_iff [] 0 8 _ _ rfl rfl ⟨0, fun _ => ⟨.ok, []⟩, some⟩).2.2
  ⟨h.1.mpr (by decide), h.2.mpr fun _ => by unfold WritesAgree; decide⟩

/-- The left socket of a connection whose other side has closed, on the first block handed
out. -/
def peerClosedSocket : StreamSocket where
  role := .connected
  tcb := (((connected 0 0).run [.close .right, .deliver .left 0]).block .left).map
    ({ · with generation := 1 })
  tcbGeneration := 1

/-- After the peer's FIN the socket is not reported writable, and a write succeeds. -/
theorem poll_misses_closeWait : streamPoll peerClosedSocket = ⟨true, false, false⟩ ∧
      streamWrite peerClosedSocket true [⟨0, fun _ => ⟨.ok, []⟩, some⟩] [7] = some .success := by
  decide +kernel

end BigOS.Net
