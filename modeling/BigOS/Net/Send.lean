/-
  BigOS.Net.Send — what `tcp_send` and `stream_write_flags` report.

  `emit_new` registers a segment and advances `snd_nxt` before it hands the segment to
  the output path; when the output path fails, `tcp_send` returns without counting the
  bytes of that segment.  The report is right exactly if the output path takes every
  segment of the call.

  Main results:
    • `sendLoop_spec`, `writeRounds_spec` — the loop of `tcp_send`, the rounds above it,
    • `sent_iff_taken` — the report against the advance of `snd_nxt`.
-/
import BigOS.Net.Tcp

namespace BigOS.Net

namespace TcpControlBlock

/-! ## §1. `tcp_send`. -/

/-- What the output path does with a segment: its status, and the acknowledgements of a local
peer that this block handles before the transmission returns. -/
structure Output where
  status : Status
  acks : List (Seq × BitVec 16)

structure SendResult where
  status : Status
  /-- `*__sent`. -/
  sent : Nat
  /-- The payload bytes that `emit_new` has registered. -/
  appended : Nat
  tcb : TcpControlBlock
  segments : List Segment

/-- The size of the next segment; zero ends the loop. -/
def nextChunk (tcb : TcpControlBlock) (rest : Nat) : Nat :=
  let inflight := (tcb.sndNxt - tcb.sndUna).toNat
  if tcb.sndWnd ≤ inflight || tcb.retx.all (·.inUse) then 0
  else min (min rest TCP_MSS) (tcb.sndWnd - inflight)

def takeAcks (now : Nat) (tcb : TcpControlBlock) (acks : List (Seq × BitVec 16)) :
    TcpControlBlock :=
  acks.foldl (fun t a => t.processAck now a.1 a.2) tcb

/-- The loop of `tcp_send`; every pass takes at least one byte. -/
def sendLoop (now : Nat) (out : Nat → Output) :
    Nat → Nat → TcpControlBlock → List UInt8 → SendResult
  | 0, _, tcb, _ => ⟨.ok, 0, 0, tcb, []⟩
  | fuel + 1, k, tcb, data =>
    let chunk := tcb.nextChunk data.length
    if chunk = 0 then ⟨.ok, 0, 0, tcb, []⟩
    else match tcb.emitNew now Flags.pushAck (data.take chunk) with
    | none => ⟨.queueFull, 0, 0, tcb, []⟩
    | some (next, seg) =>
      let acked := next.takeAcks now (out k).acks
      if (out k).status = .ok then
        let r := sendLoop now out fuel (k + 1) acked (data.drop chunk)
        ⟨r.status, chunk + r.sent, chunk + r.appended, r.tcb, seg :: r.segments⟩
      else ⟨(out k).status, 0, chunk, acked, [seg]⟩

/-- The states in which `tcp_send` sends. -/
def maySend (tcb : TcpControlBlock) : Bool := tcb.state == .established || tcb.state == .closeWait

/-- `tcp_send`. -/
def tcpSend (now : Nat) (out : Nat → Output) (tcb : TcpControlBlock) (data : List UInt8) :
    SendResult :=
  if tcb.maySend then sendLoop now out data.length 0 tcb data else ⟨.notReady, 0, 0, tcb, []⟩

/-- The output path takes the segments as long as there is room for one. -/
def outputTakes (now : Nat) (out : Nat → Output) : Nat → Nat → TcpControlBlock → List UInt8 → Bool
  | 0, _, _, _ => true
  | fuel + 1, k, tcb, data =>
    let chunk := tcb.nextChunk data.length
    chunk == 0 || match tcb.emitNew now Flags.pushAck (data.take chunk) with
    | none => true
    | some (next, _) => (out k).status == .ok &&
        outputTakes now out fuel (k + 1) (next.takeAcks now (out k).acks) (data.drop chunk)

/-- Nothing that `tcp_send` registers is refused. -/
def sendTakes (now : Nat) (out : Nat → Output) (tcb : TcpControlBlock) (data : List UInt8) : Bool :=
  !tcb.maySend || outputTakes now out data.length 0 tcb data

/-! ## §2. `stream_write_flags`. -/

/-- `tcp_write_closed`. -/
def tcpWriteClosed (tcb : TcpControlBlock) : Bool :=
  tcb.finSent || match tcb.state with
  | .finWait1 | .finWait2 | .closing | .lastAck | .timeWait | .closed => true
  | _ => false

/-- The statuses after which the rounds go on. -/
def Status.soft : Status → Bool
  | .ok | .queueFull | .notReady => true
  | _ => false

/-- One round: the output path, and what the pump and others do to the block until the next;
`none` if they recycle it. -/
structure Round where
  now : Nat
  out : Nat → Output
  between : TcpControlBlock → Option TcpControlBlock

inductive WriteStatus where
  | success
  | wouldBlock
  | connectionReset
  | brokenPipe
  deriving DecidableEq

structure WriteResult where
  status : WriteStatus
  written : Nat
  appended : Nat
  /-- The block, as it was before it was recycled if it was. -/
  tcb : TcpControlBlock

/-- The rounds.  Only `tcp_send` and `tcp_close` append to the sequence space, so `snd_nxt` is
kept between them. -/
def writeRounds (nonblocking : Bool) : List Round → TcpControlBlock → List UInt8 → Nat → WriteResult
  | [], tcb, _, done => ⟨.success, done, 0, tcb⟩
  | round :: rounds, tcb, data, done =>
    if tcb.tcpWriteClosed then ⟨if 0 < done then .success else .brokenPipe, done, 0, tcb⟩
    else
      let r := tcb.tcpSend round.now round.out data
      if !Status.soft r.status then
        ⟨if 0 < done then .success else .connectionReset, done, r.appended, r.tcb⟩
      else if data.length ≤ r.sent then ⟨.success, done + r.sent, r.appended, r.tcb⟩
      else if nonblocking then
        ⟨if done + r.sent = 0 then .wouldBlock else .success, done + r.sent, r.appended, r.tcb⟩
      else match round.between r.tcb with
      | none =>
        ⟨if 0 < done + r.sent then .success else .brokenPipe, done + r.sent, r.appended, r.tcb⟩
      | some next =>
        let w := writeRounds nonblocking rounds { next with sndNxt := r.tcb.sndNxt }
          (data.drop r.sent) (done + r.sent)
        { w with appended := r.appended + w.appended }

/-- `stream_write_flags` on a connected socket whose block is alive. -/
def streamWriteFlags (nonblocking : Bool) (rounds : List Round) (tcb : TcpControlBlock)
    (data : List UInt8) : WriteResult :=
  if data = [] then ⟨.success, 0, 0, tcb⟩
  else writeRounds nonblocking (rounds.take (if nonblocking then 1 else 16)) tcb data 0

/-- Every round that is reached has its segments taken. -/
def roundsTake (nonblocking : Bool) : List Round → TcpControlBlock → List UInt8 → Bool
  | [], _, _ => true
  | round :: rounds, tcb, data =>
    tcb.tcpWriteClosed || (tcb.sendTakes round.now round.out data &&
      let r := tcb.tcpSend round.now round.out data
      (decide (data.length ≤ r.sent) || nonblocking || match round.between r.tcb with
      | none => true
      | some next =>
        roundsTake nonblocking rounds { next with sndNxt := r.tcb.sndNxt } (data.drop r.sent)))

def writeTakes (nonblocking : Bool) (rounds : List Round) (tcb : TcpControlBlock)
    (data : List UInt8) : Bool :=
  decide (data = []) || roundsTake nonblocking
    (rounds.take (if nonblocking then 1 else 16)) tcb data

/-! ## §3. The report. -/

theorem emitNew_sndNxt {now : Nat} {tcb next : TcpControlBlock} {flags : Flags} {data : List UInt8}
    {seg : Segment} (h : tcb.emitNew now flags data = some (next, seg)) :
    next.sndNxt = tcb.sndNxt + BitVec.ofNat 32 (seqSpan flags data) := by
  obtain ⟨_, _, rfl, _⟩ := emitNew_eq h
  rfl

theorem processAck_sndNxt (now : Nat) (tcb : TcpControlBlock) (ack : Seq) (window : BitVec 16) :
    (tcb.processAck now ack window).sndNxt = tcb.sndNxt := by
  obtain ⟨_, _, _, _, heq⟩ := processAck_eq now tcb ack window
  rw [heq]
  split <;> rfl

theorem takeAcks_sndNxt (now : Nat) (acks : List (Seq × BitVec 16)) (tcb : TcpControlBlock) :
    (tcb.takeAcks now acks).sndNxt = tcb.sndNxt := by
  induction acks generalizing tcb with
  | nil => rfl
  | cons a acks ih => exact (ih _).trans (processAck_sndNxt now tcb a.1 a.2)

theorem chunk_span (tcb : TcpControlBlock) (data : List UInt8) :
    seqSpan Flags.pushAck (data.take (tcb.nextChunk data.length)) = tcb.nextChunk data.length := by
  have hle : tcb.nextChunk data.length ≤ data.length := by
    unfold nextChunk
    dsimp only
    split <;> omega
  show (data.take (tcb.nextChunk data.length)).length + 0 + 0 = _
  rw [List.length_take]
  omega

/-- `snd_nxt` moves by what is appended; the report is that if all is taken, and less if not. -/
structure Reports (tcb : TcpControlBlock) (takes : Bool) (r : SendResult) : Prop where
  sndNxt : r.tcb.sndNxt = tcb.sndNxt + BitVec.ofNat 32 r.appended
  taken : takes → r.sent = r.appended ∧ Status.soft r.status
  refused : takes = false → r.sent < r.appended

theorem sendLoop_spec (now : Nat) (out : Nat → Output) (fuel k : Nat) (tcb : TcpControlBlock)
    (data : List UInt8) :
    Reports tcb (outputTakes now out fuel k tcb data) (sendLoop now out fuel k tcb data) := by
  induction fuel generalizing k tcb data with
  | zero => exact ⟨(BitVec.add_zero _).symm, fun _ => ⟨rfl, rfl⟩, nofun⟩
  | succ fuel ih =>
    unfold sendLoop outputTakes
    dsimp only
    by_cases hchunk : tcb.nextChunk data.length = 0
    · rw [if_pos hchunk, hchunk]
      exact ⟨(BitVec.add_zero _).symm, fun _ => ⟨rfl, rfl⟩, nofun⟩
    rw [if_neg hchunk, beq_false_of_ne hchunk, Bool.false_or]
    cases hemit : tcb.emitNew now Flags.pushAck (data.take (tcb.nextChunk data.length)) with
    | none => exact ⟨(BitVec.add_zero _).symm, fun _ => ⟨rfl, rfl⟩, nofun⟩
    | some emitted =>
      obtain ⟨next, seg⟩ := emitted
      have hnxt := emitNew_sndNxt hemit
      rw [chunk_span, ← takeAcks_sndNxt now (out k).acks] at hnxt
      dsimp only
      by_cases hok : (out k).status = .ok
      · obtain ⟨hsnd, htaken, hrefused⟩ := ih (k + 1) (next.takeAcks now (out k).acks)
          (data.drop (tcb.nextChunk data.length))
        rw [if_pos hok, hok, beq_self_eq_true, Bool.true_and]
        refine ⟨?_, fun h => ⟨?_, (htaken h).2⟩, fun h => ?_⟩
        · rw [hsnd, hnxt, BitVec.add_assoc, BitVec.ofNat_add_ofNat]
        · exact congrArg _ (htaken h).1
        · exact Nat.add_lt_add_left (hrefused h) _
      · -- The segment is registered, and nobody counts it.
        rw [if_neg hok, beq_false_of_ne hok, Bool.false_and]
        exact ⟨hnxt, nofun, fun _ => Nat.pos_of_ne_zero hchunk⟩

theorem tcpSend_spec (now : Nat) (out : Nat → Output) (tcb : TcpControlBlock) (data : List UInt8) :
    Reports tcb (tcb.sendTakes now out data) (tcb.tcpSend now out data) := by
  unfold tcpSend sendTakes
  cases tcb.maySend with
  | true => exact sendLoop_spec now out data.length 0 tcb data
  | false => exact ⟨(BitVec.add_zero _).symm, fun _ => ⟨rfl, rfl⟩, nofun⟩

/-- The same for the rounds; what they report never exceeds what is appended. -/
theorem writeRounds_spec (nonblocking : Bool) (rounds : List Round) (tcb : TcpControlBlock)
    (data : List UInt8) (done : Nat) : (writeRounds nonblocking rounds tcb data done).tcb.sndNxt =
        tcb.sndNxt + BitVec.ofNat 32 (writeRounds nonblocking rounds tcb data done).appended ∧
      (writeRounds nonblocking rounds tcb data done).written ≤
        done + (writeRounds nonblocking rounds tcb data done).appended ∧
      ((writeRounds nonblocking rounds tcb data done).written =
          done + (writeRounds nonblocking rounds tcb data done).appended ↔
        roundsTake nonblocking rounds tcb data) := by
  induction rounds generalizing tcb data done with
  | nil => exact ⟨(BitVec.add_zero _).symm, Nat.le_refl _, iff_of_true rfl rfl⟩
  | cons round rounds ih =>
    obtain ⟨hsnd, htaken, hrefused⟩ := tcpSend_spec round.now round.out tcb data
    unfold writeRounds roundsTake
    dsimp only
    cases tcb.tcpWriteClosed with
    | true => exact ⟨(BitVec.add_zero _).symm, Nat.le_refl _, iff_of_true rfl rfl⟩
    | false =>
    rw [if_neg Bool.false_ne_true, Bool.false_or]
    generalize tcb.tcpSend round.now round.out data = r at hsnd htaken hrefused ⊢
    cases htakes : tcb.sendTakes round.now round.out data with
    | true =>
      obtain ⟨hsent, hsoft⟩ := htaken htakes
      rw [hsoft, Bool.not_true, if_neg Bool.false_ne_true, Bool.true_and]
      by_cases hall : data.length ≤ r.sent
      · rw [if_pos hall, decide_eq_true hall]
        exact ⟨hsnd, (congrArg _ hsent).le, iff_of_true (congrArg _ hsent) rfl⟩
      rw [if_neg hall, decide_eq_false hall, Bool.false_or]
      cases nonblocking with
      | true => exact ⟨hsnd, (congrArg _ hsent).le, iff_of_true (congrArg _ hsent) rfl⟩
      | false =>
      rw [if_neg Bool.false_ne_true, Bool.false_or]
      cases round.between r.tcb with
      | none => exact ⟨hsnd, (congrArg _ hsent).le, iff_of_true (congrArg _ hsent) rfl⟩
      | some next =>
        obtain ⟨hs, hle, hiff⟩ := ih { next with sndNxt := r.tcb.sndNxt } (data.drop r.sent)
          (done + r.sent)
        dsimp only at hs ⊢
        rw [hsent] at hs hle hiff ⊢
        refine ⟨?_, by omega, ?_⟩
        · rw [hs, hsnd, BitVec.add_assoc, BitVec.ofNat_add_ofNat]
        · rw [← hiff, Nat.add_assoc]
    | false =>
      -- What is missing in this round is missing in the end.
      have hless := hrefused htakes
      cases Status.soft r.status with
      | false =>
        rw [Bool.not_false, if_pos rfl]
        exact ⟨hsnd, Nat.le_add_right _ _, iff_of_false (by dsimp only; omega) nofun⟩
      | true =>
      rw [Bool.not_true, if_neg Bool.false_ne_true]
      split
      · exact ⟨hsnd, by dsimp only; omega, iff_of_false (by dsimp only; omega) nofun⟩
      split
      · exact ⟨hsnd, by dsimp only; omega, iff_of_false (by dsimp only; omega) nofun⟩
      cases round.between r.tcb with
      | none => exact ⟨hsnd, by dsimp only; omega, iff_of_false (by dsimp only; omega) nofun⟩
      | some next =>
        obtain ⟨hs, hle, _⟩ := ih { next with sndNxt := r.tcb.sndNxt } (data.drop r.sent)
          (done + r.sent)
        dsimp only at hs ⊢
        refine ⟨?_, by omega, iff_of_false (by omega) nofun⟩
        rw [hs, hsnd, BitVec.add_assoc, BitVec.ofNat_add_ofNat]

end TcpControlBlock

open TcpControlBlock

/-- The bytes reported are those appended to the sequence space exactly if the output path
takes every segment, for `tcp_send` and for `stream_write_flags`. -/
theorem sent_iff_taken (tcb : TcpControlBlock) (data : List UInt8) :
    (∀ now out, (tcb.tcpSend now out data).tcb.sndNxt =
        tcb.sndNxt + BitVec.ofNat 32 (tcb.tcpSend now out data).appended ∧
      ((tcb.tcpSend now out data).sent = (tcb.tcpSend now out data).appended ↔
        tcb.sendTakes now out data = true)) ∧
    ∀ nonblocking rounds, (tcb.streamWriteFlags nonblocking rounds data).tcb.sndNxt =
        tcb.sndNxt + BitVec.ofNat 32 (tcb.streamWriteFlags nonblocking rounds data).appended ∧
      ((tcb.streamWriteFlags nonblocking rounds data).written =
          (tcb.streamWriteFlags nonblocking rounds data).appended ↔
        tcb.writeTakes nonblocking rounds data = true) := by
  constructor
  · intro now out
    obtain ⟨hsnd, htaken, hrefused⟩ := tcpSend_spec now out tcb data
    refine ⟨hsnd, fun heq => ?_, fun htakes => (htaken htakes).1⟩
    by_contra hnot
    have := hrefused (Bool.eq_false_iff.mpr hnot)
    omega
  · intro nonblocking rounds
    unfold streamWriteFlags writeTakes
    by_cases hempty : data = []
    · rw [if_pos hempty, decide_eq_true hempty]
      exact ⟨(BitVec.add_zero _).symm, iff_of_true rfl rfl⟩
    rw [if_neg hempty, decide_eq_false hempty, Bool.false_or]
    obtain ⟨hsnd, _, hiff⟩ := writeRounds_spec nonblocking
      (rounds.take (if nonblocking then 1 else 16)) tcb data 0
    rw [Nat.zero_add] at hiff
    exact ⟨hsnd, hiff⟩

/-- An established block with an empty queue. -/
def idleBlock : TcpControlBlock :=
  { TcpControlBlock.zero with active := true, state := .established, sndWnd := 1024, rto := 20 }

/-- The address of the peer is not resolved yet at the first segment. -/
def arpMiss : Round :=
  ⟨0, fun k => ⟨if k = 0 then .arpUnresolved else .ok, []⟩, some⟩

/-- A byte whose segment is refused is in the sequence space and not reported; the caller that
writes it again appends it twice. -/
theorem send_unreported : (idleBlock.tcpSend 0 arpMiss.out [7]).sent = 0 ∧
    (idleBlock.tcpSend 0 arpMiss.out [7]).tcb.sndNxt = idleBlock.sndNxt + 1 ∧
    (idleBlock.streamWriteFlags false [arpMiss] [7]).written = 0 ∧
    (idleBlock.streamWriteFlags false [arpMiss] [7]).tcb.sndNxt = idleBlock.sndNxt + 1 ∧
    ((idleBlock.tcpSend 0 arpMiss.out [7]).tcb.tcpSend 1 (fun _ => ⟨.ok, []⟩) [7]).tcb.sndNxt =
      idleBlock.sndNxt + 2 := by
  decide +kernel

end BigOS.Net
