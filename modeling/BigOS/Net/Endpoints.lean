/-
  BigOS.Net.Endpoints — two connected endpoints and the segments between them.

  Each side has its control block until it is recycled.  What a side transmits is on its
  way to the other until it is delivered, in any order, or lost.

  The window of the peer is learned from acknowledgements that advance `snd_una` only,
  and a reader that drains its buffer sends nothing.  So a sender whose last
  acknowledgement has told a window of zero waits for ever, with nothing on the way.

  Main results:
    • `send_rule`, `handled_rule`, `pump_rule` — the retransmit queue holds what
      is sent and not acknowledged,
    • `run_kept` — in every run, and when a sender is left with a window of zero,
    • `send_quiescent_iff` — when a sender with nothing on the way can send.
-/
import BigOS.Net.Receive
import BigOS.Net.Send

namespace BigOS.Net

open TcpControlBlock Function List

/-! ## §1. The two sides. -/

inductive Side where
  | left
  | right
  deriving DecidableEq

def Side.other : Side → Side
  | .left => .right
  | .right => .left

structure Endpoints where
  block : Side → Option TcpControlBlock
  /-- The segments on the way to a side. -/
  inflight : Side → List Segment
  now : Nat

inductive EndOp where
  | send (side : Side) (data : List UInt8)
  | receive (side : Side) (cap : Nat)
  | close (side : Side)
  | deliver (side : Side) (k : Nat)
  | lose (side : Side) (k : Nat)
  | pump (side : Side)
  | tick (n : Nat)

namespace Endpoints

variable (e : Endpoints) (side : Side)

def setBlock (tcb : Option TcpControlBlock) : Endpoints :=
  { e with block := update e.block side tcb }

/-- The segments go to the other side. -/
def transmit (segments : List Segment) : Endpoints :=
  { e with inflight := update e.inflight side.other (e.inflight side.other ++ segments) }

def drop (k : Nat) : Endpoints :=
  { e with inflight := update e.inflight side ((e.inflight side).eraseIdx k) }

/-- The channel takes every segment. -/
def channel : Nat → Output := fun _ => ⟨.ok, []⟩

/-- Something happens to the block of a side, and the side transmits. -/
def act (f : TcpControlBlock → Option TcpControlBlock × List Segment) : Endpoints :=
  match e.block side with
  | none => e
  | some tcb => (e.setBlock side (f tcb).1).transmit side (f tcb).2

/-- A segment arrives at a side. -/
def arrived (seg : Segment) : Endpoints :=
  e.act side fun tcb => (tcb.handled e.now seg, (tcb.answer e.now seg).toList)

def step : EndOp → Endpoints
  | .send side data => e.act side fun tcb =>
    let r := tcb.tcpSend e.now channel data
    (some r.tcb, r.segments)
  | .receive side cap => e.act side fun tcb => (some (tcb.tcpReceive cap).2, [])
  | .close side => e.act side fun tcb => match tcb.tcpClose e.now with
      | none => (some tcb, [])
      | some (next, seg) => (some next, seg.toList)
  | .deliver side k => match (e.inflight side)[k]? with
      | none => e
      | some seg => (e.drop side k).arrived side seg
  | .lose side k => e.drop side k
  | .pump side => e.act side (pump e.now)
  | .tick n => { e with now := e.now + n }

def run (ops : List EndOp) : Endpoints := ops.foldl step e

end Endpoints

/-- A call on one block, or a segment for it. -/
inductive BlockOp where
  | send (now : Nat) (out : Nat → Output) (data : List UInt8)
  | receive (cap : Nat)
  | close (now : Nat)
  | segment (now : Nat) (seg : Segment)
  | pump (now : Nat)

/-- The block after a call, unless it was recycled, and the segments of `emit_new`. -/
def BlockOp.act (tcb : TcpControlBlock) : BlockOp → Option TcpControlBlock × List Segment
  | .send now out data =>
    let r := tcb.tcpSend now out data
    (some r.tcb, r.segments)
  | .receive cap => (some (tcb.tcpReceive cap).2, [])
  | .close now => match tcb.tcpClose now with
    | none => (some tcb, [])
    | some (next, seg) => (some next, seg.toList)
  | .segment now seg => (tcb.handled now seg, [])
  | .pump now => ((tcb.pump now).1, [])

/-- What an operation is to the block of a side. -/
def EndOp.on (e : Endpoints) (side : Side) : EndOp → Option BlockOp
  | .send side' data => if side' = side then some (.send e.now Endpoints.channel data) else none
  | .receive side' cap => if side' = side then some (.receive cap) else none
  | .close side' => if side' = side then some (.close e.now) else none
  | .deliver side' k =>
    if side' = side then (e.inflight side)[k]?.map (.segment e.now) else none
  | .pump side' => if side' = side then some (.pump e.now) else none
  | .lose _ _ | .tick _ => none

theorem act_block (e : Endpoints) (side side' : Side)
    (f : TcpControlBlock → Option TcpControlBlock × List Segment) : (e.act side' f).block side =
      if side' = side then (e.block side).bind fun tcb => (f tcb).1 else e.block side := by
  unfold Endpoints.act
  by_cases hside : side' = side
  · subst hside
    rw [if_pos rfl]
    cases hblock : e.block side' with
    | none => exact hblock
    | some tcb => exact update_self ..
  · rw [if_neg hside]
    cases e.block side' with
    | none => rfl
    | some tcb => exact update_of_ne (Ne.symm hside) _ _

theorem step_block (e : Endpoints) (side : Side) (op : EndOp) : (e.step op).block side =
    match op.on e side with
    | none => e.block side
    | some blockOp => (e.block side).bind fun tcb => (blockOp.act tcb).1 := by
  cases op with
  | send side' | receive side' | close side' | pump side' =>
    refine (act_block e side side' _).trans ?_
    dsimp only [EndOp.on]
    split <;> rfl
  | deliver side' k =>
    dsimp only [Endpoints.step, EndOp.on]
    by_cases hside : side' = side
    · subst hside
      rw [if_pos rfl]
      cases (e.inflight side')[k]? with
      | none => rfl
      | some seg => exact (act_block (e.drop side' k) side' side' _).trans (if_pos rfl)
    · rw [if_neg hside]
      cases (e.inflight side')[k]? with
      | none => rfl
      | some seg => exact (act_block (e.drop side' k) side side' _).trans (if_neg hside)
  | lose | tick => rfl

/-- A block that is there was there before, and a call may have changed it. -/
theorem step_cases {e : Endpoints} {side : Side} {op : EndOp} {next : TcpControlBlock}
    (h : (e.step op).block side = some next) : op.on e side = none ∧ e.block side = some next ∨
      ∃ blockOp tcb, op.on e side = some blockOp ∧ e.block side = some tcb ∧
        (blockOp.act tcb).1 = some next := by
  rw [step_block] at h
  cases hon : op.on e side with
  | none =>
    rw [hon] at h
    exact .inl ⟨rfl, h⟩
  | some blockOp =>
    rw [hon] at h
    obtain ⟨tcb, hblock, hact⟩ := Option.bind_eq_some_iff.mp h
    exact .inr ⟨blockOp, tcb, rfl, hblock, hact⟩

/-- A block right after a handshake that took no tick. -/
def openedBlock (localPort remotePort : Nat) (snd rcv : Seq) : TcpControlBlock :=
  { zero with
    active := true
    state := .established
    localPort := localPort
    remotePort := remotePort
    sndUna := snd
    sndNxt := snd
    sndWnd := TCP_RECV_BUFFER
    rttValid := true
    rto := TCP_RTO_MIN
    rcvNxt := rcv }

/-- Two endpoints right after the handshake, with any sequence numbers. -/
def connected (x y : Seq) : Endpoints where
  block
    | .left => some (openedBlock 40000 7000 x y)
    | .right => some (openedBlock 7000 40000 y x)
  inflight := fun _ => []
  now := 0

/-! ## §2. The retransmit queue. -/

/-- Where the sequence numbers of an entry end. -/
def entryEnd (e : TcpRetxSegment) : Seq := e.seq + BitVec.ofNat 32 (retxSeqSpan e)

/-- The entries in use end between `snd_una` and `snd_nxt`. -/
structure SendOk (tcb : TcpControlBlock) : Prop where
  length : tcb.retx.length = TCP_RETX_QUEUE_CAPACITY
  window : tcb.sndWnd < 2 ^ 16
  inflight : (tcb.sndNxt - tcb.sndUna).toNat < 2 ^ 16
  entries : ∀ e ∈ tcb.retx, e.inUse → 0 < (entryEnd e - tcb.sndUna).toNat ∧
    (entryEnd e - tcb.sndUna).toNat ≤ (tcb.sndNxt - tcb.sndUna).toNat

/-- The send side of a block. -/
structure SameSend (a b : TcpControlBlock) : Prop where
  sndUna : b.sndUna = a.sndUna
  sndNxt : b.sndNxt = a.sndNxt
  sndWnd : b.sndWnd = a.sndWnd
  retx : b.retx = a.retx

section

variable {tcb next : TcpControlBlock} {now : Nat} {P : TcpControlBlock → Prop} {seg : Segment}

theorem SendOk.same (h : SendOk tcb) (hsame : SameSend tcb next) : SendOk next := by
  obtain ⟨huna, hnxt, hwnd, hretx⟩ := hsame
  constructor <;> simp only [huna, hnxt, hwnd, hretx]
  · exact h.length
  · exact h.window
  · exact h.inflight
  · exact h.entries

/-- With everything acknowledged no entry is in use. -/
theorem SendOk.free (h : SendOk tcb) (hacked : tcb.sndUna = tcb.sndNxt) :
    tcb.retx.all (·.inUse) = false := by
  rw [← Bool.not_eq_true, all_eq_true]
  intro hall
  obtain ⟨e, he⟩ : ∃ e, e ∈ tcb.retx := exists_mem_of_length_pos (by rw [h.length]; decide)
  have hentry := h.entries e he (hall e he)
  rw [hacked, BitVec.sub_self] at hentry
  exact absurd (Nat.lt_of_lt_of_le hentry.1 hentry.2) (Nat.lt_irrefl _)

theorem SendOk.processAck (h : SendOk tcb) (ack : Seq) (window : BitVec 16) :
    SendOk (tcb.processAck now ack window) := by
  obtain ⟨_, _, _, _, heq⟩ := processAck_eq now tcb ack window
  rw [heq]
  split
  case isFalse => exact h
  case isTrue hadvance =>
      obtain ⟨hgt, hleq⟩ := Bool.and_eq_true_iff.mp hadvance
      rw [seqGt_iff] at hgt
      rw [seqLeq_iff] at hleq
      have hinflight := h.inflight
      refine ⟨(length_map _).trans h.length, window.isLt, ?_, fun e he huse => ?_⟩
      · show (tcb.sndNxt - ack).toNat < 2 ^ 16
        bv_omega
      · obtain ⟨old, hold, rfl⟩ := mem_map.mp he
        -- An entry that is still in use ends after the acknowledgement.
        cases hacked : ackedBy ack old with
        | true =>
          rw [hacked] at huse
          cases huse
        | false =>
          rw [hacked] at huse
          obtain ⟨hpos, hle⟩ := h.entries old hold huse
          have hlater : seqLeq (entryEnd old) ack = false := by
            unfold ackedBy at hacked
            rwa [show old.inUse = true from huse, Bool.true_and] at hacked
          rw [← Bool.not_eq_true, seqLeq_iff] at hlater
          show 0 < (entryEnd old - ack).toNat ∧ (entryEnd old - ack).toNat ≤
            (tcb.sndNxt - ack).toNat
          generalize entryEnd old = last at hpos hle hlater
          constructor <;> bv_omega

/-- An entry takes the place of another. -/
theorem storeFree_eq {entry : TcpRetxSegment} {entries next : List TcpRetxSegment}
    (h : storeFree entry entries = some next) :
    ∃ front old back, entries = front ++ old :: back ∧ next = front ++ entry :: back := by
  induction entries generalizing next with
  | nil => cases h
  | cons first rest ih =>
    unfold storeFree at h
    split at h
    · obtain ⟨tail, htail, rfl⟩ := Option.map_eq_some_iff.mp h
      obtain ⟨front, old, back, rfl, rfl⟩ := ih htail
      exact ⟨first :: front, old, back, rfl, rfl⟩
    · cases h
      exact ⟨[], first, rest, rfl, rfl⟩

theorem mem_storeFree {entry e : TcpRetxSegment} {entries next : List TcpRetxSegment}
    (h : storeFree entry entries = some next) (he : e ∈ next) : e = entry ∨ e ∈ entries := by
  obtain ⟨front, old, back, rfl, rfl⟩ := storeFree_eq h
  rw [mem_append, mem_cons] at he ⊢
  grind

/-- The entries in use have a property. -/
def Queued (Q : TcpRetxSegment → Prop) (tcb : TcpControlBlock) : Prop :=
  ∀ e ∈ tcb.retx, e.inUse → Q e

section

variable {Q : TcpRetxSegment → Prop} (h : Queued Q tcb)

include h

/-- An entry that is acknowledged is free, the others are as before. -/
theorem Queued.processAck (now : Nat) (ack : Seq) (window : BitVec 16) :
    Queued Q (tcb.processAck now ack window) := by
  obtain ⟨_, _, _, _, heq⟩ := processAck_eq now tcb ack window
  rw [heq]
  split
  · intro e he huse
    obtain ⟨old, hold, rfl⟩ := mem_map.mp he
    split at huse
    · cases huse
    · rename_i hleft
      rw [if_neg hleft]
      exact h old hold huse
  · exact h

theorem Queued.emitNew {flags : Flags} {data : List UInt8} (hspan : seqSpan flags data ≠ 0)
    (hnew : Q ⟨true, tcb.sndNxt, flags, data, false, 0, now, now + tcb.rto.toNat⟩)
    (hemit : tcb.emitNew now flags data = some (next, seg)) : Queued Q next := by
  obtain ⟨retx, hstore, rfl, _⟩ := emitNew_eq hemit
  intro e he huse
  cases mem_storeFree (hstore hspan) he with
  | inl heq => exact heq ▸ hnew
  | inr hold => exact h e hold huse

theorem Queued.again (j : Nat) (hagain : ∀ e n, Q e → Q { e with
      retransmitted := true
      retransmitCount := e.retransmitCount + 1
      rtoDeadlineTick := n }) : Queued Q (tcb.afterRetransmit now j) := by
  intro e he huse
  obtain ⟨i, hi, hget⟩ := mem_iff_getElem.mp he
  have hlt : i < tcb.retx.length := by rwa [afterRetransmit, length_modify] at hi
  have hentry := h tcb.retx[i] (getElem_mem hlt)
  rw [← hget] at huse ⊢
  simp only [afterRetransmit, getElem_modify] at huse ⊢
  split at huse
  · rw [if_pos (by assumption)]
    exact hagain _ _ (hentry huse)
  · rw [if_neg (by assumption)]
    exact hentry huse

end

/-- A segment that fits into the window of the peer. -/
theorem SendOk.emitNew {flags : Flags} {data : List UInt8} (h : SendOk tcb)
    (hspan : seqSpan flags data ≠ 0)
    (hfits : (tcb.sndNxt - tcb.sndUna).toNat + seqSpan flags data < 2 ^ 16)
    (hemit : tcb.emitNew now flags data = some (next, seg)) : SendOk next := by
  obtain ⟨retx, hstored, rfl, _⟩ := emitNew_eq hemit
  have hstore := hstored hspan
  have hadvance : (tcb.sndNxt + BitVec.ofNat 32 (seqSpan flags data) - tcb.sndUna).toNat =
      (tcb.sndNxt - tcb.sndUna).toNat + seqSpan flags data := by
    bv_omega
  obtain ⟨front, old, back, hold, hnew⟩ := storeFree_eq hstore
  have hlength : retx.length = tcb.retx.length := by
    rw [hold, hnew, length_append, length_append]
    rfl
  refine ⟨hlength.trans h.length, h.window, ?_, fun e he huse => ?_⟩
  · show (tcb.sndNxt + BitVec.ofNat 32 (seqSpan flags data) - tcb.sndUna).toNat < 2 ^ 16
    omega
  · show 0 < (entryEnd e - tcb.sndUna).toNat ∧ (entryEnd e - tcb.sndUna).toNat ≤
      (tcb.sndNxt + BitVec.ofNat 32 (seqSpan flags data) - tcb.sndUna).toNat
    cases mem_storeFree hstore he with
    | inl hnew =>
      -- The new entry ends at the new `snd_nxt`.
      have hend : entryEnd e = tcb.sndNxt + BitVec.ofNat 32 (seqSpan flags data) := by
        rw [hnew]
        rfl
      rw [hend]
      omega
    | inr hold =>
      have := h.entries e hold huse
      omega

theorem nextChunk_fits {rest : Nat} (h : tcb.nextChunk rest ≠ 0) :
    (tcb.sndNxt - tcb.sndUna).toNat + tcb.nextChunk rest ≤ tcb.sndWnd := by
  unfold nextChunk at h ⊢
  dsimp only at h ⊢
  split at h
  case isTrue => exact absurd rfl h
  case isFalse hfull =>
    rw [if_neg hfull]
    omega

theorem processAck_state (now : Nat) (tcb : TcpControlBlock) (ack : Seq) (window : BitVec 16) :
    (tcb.processAck now ack window).state = tcb.state := by
  obtain ⟨_, _, _, _, heq⟩ := processAck_eq now tcb ack window
  rw [heq]
  split <;> rfl

/-- What acknowledgements and segments within the window of the peer keep, `tcp_send` keeps. -/
theorem send_rule {out : Nat → Output}
    (hack : ∀ tcb, P tcb → ∀ k, ∀ a ∈ (out k).acks, P (tcb.processAck now a.1 a.2))
    (hemit : ∀ tcb next data seg, P tcb → tcb.maySend → seqSpan Flags.pushAck data ≠ 0 →
      (tcb.sndNxt - tcb.sndUna).toNat + seqSpan Flags.pushAck data ≤ tcb.sndWnd →
      tcb.emitNew now Flags.pushAck data = some (next, seg) → P next)
    (h : P tcb) (data : List UInt8) : P (tcb.tcpSend now out data).tcb := by
  have hacks : ∀ k acks, acks ⊆ (out k).acks → ∀ tcb, P tcb →
      P (takeAcks now tcb acks) ∧ (takeAcks now tcb acks).state = tcb.state := by
    intro k acks
    induction acks with
    | nil => exact fun _ tcb h => ⟨h, rfl⟩
    | cons a acks ih =>
      intro hsub tcb h
      obtain ⟨hP, hstate⟩ := ih (subset_of_cons_subset hsub) _ (hack tcb h k a (hsub mem_cons_self))
      exact ⟨hP, hstate.trans (processAck_state ..)⟩
  have hloop : ∀ fuel k tcb data, P tcb → tcb.maySend →
      P (sendLoop now out fuel k tcb data).tcb := by
    intro fuel
    induction fuel with
    | zero => exact fun _ _ _ h _ => h
    | succ fuel ih =>
      intro k tcb data h hmay
      unfold sendLoop
      by_cases hchunk : tcb.nextChunk data.length = 0
      · rw [if_pos hchunk]
        exact h
      rw [if_neg hchunk]
      cases hsome : tcb.emitNew now Flags.pushAck (data.take (tcb.nextChunk data.length)) with
      | none => exact h
      | some emitted =>
        obtain ⟨hP, hstate⟩ := hacks k _ (Subset.refl _) emitted.1 (hemit tcb _ _ _ h hmay
          (by rw [chunk_span]; exact hchunk)
          (by rw [chunk_span]; exact nextChunk_fits hchunk) hsome)
        dsimp only
        split
        · refine ih (k + 1) _ _ hP ?_
          rw [maySend, hstate, (emitNew_same hsome).state]
          exact hmay
        · exact hP
  unfold tcpSend
  split
  case isTrue hmay => exact hloop _ _ _ _ h hmay
  case isFalse => exact h

theorem storeFree_isSome (entry : TcpRetxSegment) (entries : List TcpRetxSegment)
    (hfree : entries.all (·.inUse) = false) : (storeFree entry entries).isSome := by
  induction entries with
  | nil => cases hfree
  | cons first rest ih =>
    unfold storeFree
    cases huse : first.inUse with
    | true =>
      rw [all_cons, huse, Bool.true_and] at hfree
      rw [if_pos rfl, Option.isSome_map]
      exact ih hfree
    | false => rfl

theorem emitNew_isSome (now : Nat) (flags : Flags) (data : List UInt8)
    (hfree : tcb.retx.all (·.inUse) = false) :
    ∃ emitted, tcb.emitNew now flags data = some emitted := by
  apply Option.isSome_iff_exists.mp
  unfold emitNew registerRetx
  rw [Option.isSome_map]
  split
  · rw [Option.isSome_map]
    exact storeFree_isSome _ _ hfree
  · rfl

/-- A retransmission counts; what the entry covers stays. -/
theorem SendOk.afterRetransmit (h : SendOk tcb) (j : Nat) : SendOk (tcb.afterRetransmit now j) :=
  ⟨(length_modify _ _ _).trans h.length, h.window, h.inflight,
    Queued.again h.entries j fun _ _ he => he⟩

/-- To the send side a round of the pump is a number of retransmissions. -/
theorem pump_rule (hagain : ∀ tcb j, P tcb → P (tcb.afterRetransmit now j))
    (h : P tcb) (hnext : (tcb.pump now).1 = some next) : P next := by
  have hentries : ∀ js tcb, P tcb → (tcb.pumpEntries now js).1 = some next → P next := by
    intro js
    induction js with
    | nil =>
      intro tcb h hnext
      cases hnext
      exact h
    | cons j js ih =>
      intro tcb h hnext
      unfold pumpEntries at hnext
      split at hnext
      · exact ih tcb h hnext
      · cases hnext
      · exact ih _ (hagain tcb j h) hnext
  unfold pump at hnext
  split at hnext
  · dsimp only at hnext
    split at hnext
    · cases hnext
    · cases hnext
      exact h
  · exact hentries _ tcb h hnext

/-- To the send side a segment is an acknowledgement, or none, and a move. -/
theorem handled_rule (hack : ∀ tcb, P tcb → ∀ ack window, P (tcb.processAck now ack window))
    (hmove : ∀ tcb next, P tcb → SameSend tcb next → next.finSent = tcb.finSent →
      next.state ∈ stateMoves (tcb.sndUna == tcb.sndNxt) tcb.state → P next)
    (h : P tcb) (hnext : tcb.handled now seg = some next) : P next := by
  have hrst := handled_rst hnext
  have hacked : P (tcb.ackOf now seg) := by
    unfold ackOf
    split
    · exact hack tcb h seg.ack seg.window
    · exact h
  have hstate := (ackOf_same now tcb seg).state
  by_cases hsync : tcb.state.synchronised
  · cases hpast : tcb.state.pastFin with
    | false =>
      obtain ⟨past, still, deadline, _, _, _, _, hmoves, heq⟩ := handled_open now hsync hpast hrst
      obtain ⟨nxt, ring, slots, htaken⟩ := acceptData_eq (tcb.ackOf now seg) seg.seq seg.data
      rw [heq, htaken] at hnext
      rw [← hstate] at hmoves
      dsimp only at hnext
      split at hnext
      · cases hnext
        exact hmove _ _ hacked ⟨rfl, rfl, rfl, rfl⟩ rfl (hmoves mem_cons_self)
      · cases hnext
        exact hmove _ _ hacked ⟨rfl, rfl, rfl, rfl⟩ rfl (hmoves (.tail _ (.head _)))
    | true =>
      obtain ⟨mid, state, deadline, hmid, _, hmoves, rfl⟩ := handled_past hpast hnext
      cases hmid with
      | inl heq =>
        subst heq
        exact hmove _ _ h ⟨rfl, rfl, rfl, rfl⟩ rfl hmoves
      | inr heq =>
        subst heq
        rw [← hstate] at hmoves
        exact hmove _ _ hacked ⟨rfl, rfl, rfl, rfl⟩ rfl hmoves
  unfold handled arrive at hnext
  rw [hrst, if_neg Bool.false_ne_true] at hnext
  cases hst : tcb.state with
  | closed | listen =>
    rw [hst] at hnext
    cases hnext
    exact h
  | synSent =>
    rw [hst] at hnext
    dsimp only at hnext
    by_cases hbad : (!seg.flags.syn || !seg.flags.ack || seg.ack != tcb.sndNxt)
    · rw [if_pos hbad] at hnext
      cases hnext
      exact h
    rw [if_neg hbad] at hnext
    cases hnext
    have hsyn : P { tcb with state := .synSent, rcvNxt := seg.seq + 1 } :=
      hmove _ _ h ⟨rfl, rfl, rfl, rfl⟩ rfl (by rw [hst]; exact mem_cons_self)
    refine hmove _ _ (hack _ hsyn seg.ack seg.window) ⟨rfl, rfl, rfl, rfl⟩ rfl ?_
    rw [processAck_state]
    exact .tail _ (.head _)
  | synReceived =>
    rw [hst] at hnext
    dsimp only at hnext
    by_cases hbad : (!seg.flags.ack || seg.ack != tcb.sndNxt)
    · rw [if_pos hbad] at hnext
      cases hnext
      exact h
    rw [if_neg hbad] at hnext
    cases hnext
    refine hmove _ _ (hack tcb h seg.ack seg.window) ⟨rfl, rfl, rfl, rfl⟩ rfl ?_
    rw [processAck_state, hst]
    exact .tail _ (.head _)
  | _ =>
    rw [hst] at hsync
    exact absurd rfl hsync

/-- No move leads back to `Established`. -/
theorem moves_synchronised {acked : Bool} {state state' : TcpState}
    (hsync : state.synchronised) (h : state' ∈ stateMoves acked state) :
    state'.synchronised ∧ (state' = .established → state = .established) := by
  revert hsync h
  cases acked <;> cases state <;> cases state' <;> decide

end

/-! ## §3. Runs. -/

/-- A side that is established has an orderly retransmit queue. -/
def SideOk (tcb : TcpControlBlock) : Prop :=
  tcb.state.synchronised ∧ (tcb.state = .established → SendOk tcb)

def EndsOk (e : Endpoints) : Prop := ∀ side tcb, e.block side = some tcb → SideOk tcb

/-- All that the side has sent is acknowledged, and its window is zero. -/
def Stuck (tcb : TcpControlBlock) : Prop := tcb.sndUna = tcb.sndNxt ∧ tcb.sndWnd = 0

/-- A segment arrives that acknowledges the last of what the side has sent, with a window of
zero. -/
def BlockOp.zeroes (tcb : TcpControlBlock) : BlockOp → Bool
  | .segment _ seg =>
    seg.flags.ack && seg.ack == tcb.sndNxt && tcb.sndUna != tcb.sndNxt && seg.window == 0
  | _ => false

/-- In the run such a segment is delivered to the side. -/
def Endpoints.everZeroes (side : Side) : Endpoints → List EndOp → Bool
  | _, [] => false
  | e, op :: ops => ((op.on e side).any fun blockOp => (e.block side).any blockOp.zeroes) ||
      (e.step op).everZeroes side ops

section

variable {tcb next : TcpControlBlock} {now : Nat} {seg : Segment} {e : Endpoints} {side : Side}

theorem processAck_sideOk (h : SideOk tcb) (ack : Seq) (window : BitVec 16) :
    SideOk (tcb.processAck now ack window) := by
  have hkeep := processAck_state now tcb ack window
  exact ⟨hkeep ▸ h.1, fun hest => (h.2 (hkeep.symm.trans hest)).processAck ack window⟩

theorem ackOf_stuck (now : Nat) (h : SendOk tcb) :
    Stuck (tcb.ackOf now seg) ↔ Stuck tcb ∨ (BlockOp.segment now seg).zeroes tcb := by
  have hinflight := h.inflight
  obtain ⟨_, _, _, _, heq⟩ := processAck_eq now tcb seg.ack seg.window
  unfold ackOf BlockOp.zeroes Stuck
  dsimp only
  cases seg.flags.ack with
  | false => simp
  | true =>
    rw [if_pos rfl, heq]
    simp only [Bool.and_eq_true, beq_iff_eq, bne_iff_ne, true_and]
    split
    case isTrue hadvance =>
      rw [seqGt_iff, seqLeq_iff] at hadvance
      -- Something was not acknowledged.
      have hne : tcb.sndUna ≠ tcb.sndNxt := by
        intro hall
        rw [hall] at hadvance
        bv_omega
      simp [hne, BitVec.toNat_eq]
    case isFalse hold =>
      rw [seqGt_iff, seqLeq_iff] at hold
      refine ⟨.inl, fun h => h.resolve_right fun hlast => hold ?_⟩
      obtain ⟨⟨hack, hne⟩, _⟩ := hlast
      rw [hack]
      bv_omega

theorem handled_kept (h : SideOk tcb) (hnext : tcb.handled now seg = some next) :
    SideOk next ∧ (next.state = .established → tcb.state = .established ∧
      (Stuck next ↔ Stuck tcb ∨ (BlockOp.segment now seg).zeroes tcb)) := by
  have hmoved : SideOk next ∧ (next.state = .established → tcb.state = .established) := by
    refine handled_rule (P := fun t => SideOk t ∧ (t.state = .established →
      tcb.state = .established)) (fun t ht ack window => ?_) (fun t u ht hsame _ hmove => ?_)
      ⟨h, id⟩ hnext
    · exact ⟨processAck_sideOk ht.1 ack window, by rw [processAck_state]; exact ht.2⟩
    · obtain ⟨hsync, hest⟩ := moves_synchronised ht.1.1 hmove
      exact ⟨⟨hsync, fun hnow => (ht.1.2 (hest hnow)).same hsame⟩, fun hnow => ht.2 (hest hnow)⟩
  refine ⟨hmoved.1, fun hest => ?_⟩
  have hstate := hmoved.2 hest
  refine ⟨hstate, ?_⟩
  rw [← ackOf_stuck now (h.2 hstate)]
  obtain ⟨_, _, _, _, _, _, _, _, heq⟩ := handled_open now h.1 (by rw [hstate]; rfl)
    (handled_rst hnext)
  obtain ⟨_, _, _, htaken⟩ := acceptData_eq (tcb.ackOf now seg) seg.seq seg.data
  rw [heq, htaken] at hnext
  dsimp only at hnext
  split at hnext
  · cases hnext
    exact Iff.rfl
  · cases hnext
    exact Iff.rfl

/-- A segment goes out only if the window is not zero, and is not acknowledged then. -/
theorem tcpSend_kept (h : SideOk tcb) (data : List UInt8) :
    SideOk (tcb.tcpSend now Endpoints.channel data).tcb ∧
      ((tcb.tcpSend now Endpoints.channel data).tcb.state = .established →
        tcb.state = .established ∧
          (Stuck (tcb.tcpSend now Endpoints.channel data).tcb ↔ Stuck tcb)) := by
  refine send_rule (P := fun t => SideOk t ∧ (t.state = .established →
    tcb.state = .established ∧ (Stuck t ↔ Stuck tcb))) (fun _ _ _ a ha => absurd ha not_mem_nil)
    (fun mid next data seg h _ hspan hfits hemit => ?_) ⟨h, fun hest => ⟨hest, Iff.rfl⟩⟩ data
  have hkeep := (emitNew_same hemit).state
  have hroom := fun hest => Nat.lt_of_le_of_lt hfits (h.1.2 (hkeep.symm.trans hest)).window
  refine ⟨⟨hkeep ▸ h.1.1, fun hest => ?_⟩, fun hest => ?_⟩
  · exact (h.1.2 (hkeep.symm.trans hest)).emitNew hspan (hroom hest) hemit
  · obtain ⟨hstate, hstuck⟩ := h.2 (hkeep.symm.trans hest)
    obtain ⟨_, _, heq, _⟩ := emitNew_eq hemit
    have := hroom hest
    refine ⟨hstate, ?_⟩
    rw [← hstuck, heq]
    refine iff_of_false (fun hnow => ?_) fun hbefore => ?_
    · have hall : mid.sndUna = mid.sndNxt + BitVec.ofNat 32 (seqSpan Flags.pushAck data) := hnow.1
      bv_omega
    · have := hbefore.2
      omega

theorem tcpClose_state {seg : Option Segment} (h : tcb.tcpClose now = some (next, seg)) :
    tcb.state = .established ∧ next.state = .finWait1 ∨
      tcb.state = .closeWait ∧ next.state = .lastAck := by
  have hstate : ∀ state, tcb.emitFin now state = (next, seg) → next.state = state := by
    intro state heq
    have hsame := (emitFin_same now tcb state).state
    rwa [heq] at hsame
  unfold tcpClose at h
  split at h
  · exact .inl ⟨by assumption, hstate _ (Option.some.inj h)⟩
  · exact .inr ⟨by assumption, hstate _ (Option.some.inj h)⟩
  · cases h

/-- Every call keeps a side orderly, and only such a segment makes it stuck. -/
theorem BlockOp.kept {op : BlockOp} (h : SideOk tcb)
    (hout : ∀ now out data, op = .send now out data → out = Endpoints.channel)
    (hact : (op.act tcb).1 = some next) : SideOk next ∧ (next.state = .established →
      tcb.state = .established ∧ (Stuck next ↔ Stuck tcb ∨ op.zeroes tcb)) := by
  cases op with
  | send now out data =>
    cases hact
    rw [hout now out data rfl]
    simpa [BlockOp.zeroes] using tcpSend_kept h data
  | receive =>
    cases hact
    refine ⟨⟨h.1, fun hest => (h.2 hest).same ⟨rfl, rfl, rfl, rfl⟩⟩, fun hest => ⟨hest, ?_⟩⟩
    exact (or_iff_left Bool.false_ne_true).symm
  | close now =>
    dsimp only [BlockOp.act] at hact
    cases hclose : tcb.tcpClose now with
    | none =>
      rw [hclose] at hact
      cases hact
      exact ⟨h, fun hest => ⟨hest, (or_iff_left Bool.false_ne_true).symm⟩⟩
    | some closed =>
      rw [hclose] at hact
      cases hact
      have hclosed : closed.1.state.synchronised ∧ closed.1.state ≠ .established := by
        obtain ⟨_, hstate⟩ | ⟨_, hstate⟩ := tcpClose_state hclose
        · rw [hstate]
          decide
        · rw [hstate]
          decide
      exact ⟨⟨hclosed.1, fun hest => absurd hest hclosed.2⟩, fun hest => absurd hest hclosed.2⟩
  | segment => exact handled_kept h hact
  | pump =>
    refine pump_rule (P := fun t => SideOk t ∧ (t.state = .established →
      tcb.state = .established ∧ (Stuck t ↔ Stuck tcb ∨ _))) (fun _ j ht => ?_)
      ⟨h, fun hest => ⟨hest, (or_iff_left Bool.false_ne_true).symm⟩⟩ hact
    exact ⟨⟨ht.1.1, fun hest => (ht.1.2 hest).afterRetransmit j⟩, ht.2⟩

/-- The channel of a send. -/
theorem on_channel {op : EndOp} {blockOp : BlockOp} (h : op.on e side = some blockOp) :
    ∀ now out data, blockOp = .send now out data → out = Endpoints.channel := by
  intro now out data hsend
  subst hsend
  cases op <;> simp [EndOp.on] at h
  exact h.2.2.1.symm

theorem run_kept {z : Prop} (ops : List EndOp) (h : ∀ tcb, e.block side = some tcb →
      SideOk tcb ∧ (tcb.state = .established → (Stuck tcb ↔ z)))
    (hblock : (e.run ops).block side = some tcb) : SideOk tcb ∧ (tcb.state = .established →
      (Stuck tcb ↔ z ∨ e.everZeroes side ops)) := by
  induction ops generalizing e z with
  | nil => simpa [Endpoints.everZeroes] using h tcb hblock
  | cons op ops ih =>
    unfold Endpoints.everZeroes
    rw [Bool.or_eq_true, ← or_assoc]
    refine ih (fun next hnext => ?_) hblock
    obtain ⟨hon, hsame⟩ | ⟨blockOp, before, hon, hbefore, hact⟩ := step_cases hnext
    · rw [hon]
      simpa using h next hsame
    · obtain ⟨hok, hz⟩ := h before hbefore
      obtain ⟨hok', hstuck⟩ := BlockOp.kept hok (on_channel hon) hact
      refine ⟨hok', fun hest => ?_⟩
      obtain ⟨hest', hiff⟩ := hstuck hest
      rw [hiff, hz hest', hon, hbefore]
      rfl

theorem openedBlock_ok (localPort remotePort : Nat) (snd rcv : Seq) :
    SideOk (openedBlock localPort remotePort snd rcv) := by
  have hwindow : TCP_RECV_BUFFER < 2 ^ 16 := by decide
  refine ⟨rfl, fun _ => ⟨rfl, hwindow, ?_, ?_⟩⟩
  · show (snd - snd).toNat < 2 ^ 16
    rw [BitVec.sub_self]
    decide
  · intro e he huse
    rw [show e.inUse = false from congrArg _ (eq_of_mem_replicate he)] at huse
    cases huse

/-- A side of a run is orderly, and stuck exactly after such a segment. -/
theorem connected_kept (x y : Seq) (ops : List EndOp)
    (hblock : ((connected x y).run ops).block side = some tcb) : SideOk tcb ∧
      (tcb.state = .established → (Stuck tcb ↔ (connected x y).everZeroes side ops)) := by
  have hfirst : ∀ localPort remotePort snd rcv, ¬Stuck (openedBlock localPort remotePort snd rcv) :=
    fun _ _ _ _ hstuck => absurd (show TCP_RECV_BUFFER = 0 from hstuck.2) (by decide)
  simpa using run_kept (z := False) ops (fun first h => by
    cases side <;> cases h <;>
      exact ⟨openedBlock_ok .., fun _ => iff_of_false (hfirst _ _ _ _) id⟩) hblock

/-- Loss, delay and repetition leave both sides orderly. -/
theorem endpoints_orderly (x y : Seq) (ops : List EndOp) : EndsOk ((connected x y).run ops) :=
  fun _ _ hblock => (connected_kept x y ops hblock).1

end

/-! ## §4. A sender with nothing on the way. -/

/-- Both sides are established, nothing is on the way, all is acknowledged, and the reader
has drained its buffer. -/
structure Quiescent (e : Endpoints) (side : Side) (tcb peer : TcpControlBlock) : Prop where
  block : e.block side = some tcb
  peerBlock : e.block side.other = some peer
  established : tcb.state = .established
  peerEstablished : peer.state = .established
  silent : e.inflight side = [] ∧ e.inflight side.other = []
  acked : tcb.sndUna = tcb.sndNxt
  drained : peer.recv.count = 0

/-- A sender with everything acknowledged can send exactly if its window is not zero. -/
theorem sent_pos_iff {tcb : TcpControlBlock} (hok : SendOk tcb) (hest : tcb.state = .established)
    (hacked : tcb.sndUna = tcb.sndNxt) (now : Nat) {data : List UInt8} (hdata : data ≠ []) :
    0 < (tcb.tcpSend now Endpoints.channel data).sent ↔ ¬Stuck tcb := by
  have hfree := hok.free hacked
  have hpos : 0 < data.length := length_pos_iff.mpr hdata
  have hinflight : (tcb.sndNxt - tcb.sndUna).toNat = 0 := by
    rw [hacked, BitVec.sub_self]
    rfl
  have hchunk : tcb.nextChunk data.length = min (min data.length TCP_MSS) tcb.sndWnd := by
    unfold nextChunk
    dsimp only
    rw [hinflight, hfree, Bool.or_false, Nat.sub_zero]
    split
    case isTrue hzero =>
        have : tcb.sndWnd ≤ 0 := of_decide_eq_true hzero
        omega
    case isFalse => rfl
  have hmay : tcb.maySend := by
    unfold maySend
    rw [hest]
    rfl
  obtain ⟨n, hn⟩ : ∃ n, data.length = n + 1 := ⟨data.length - 1, by omega⟩
  unfold tcpSend
  rw [if_pos hmay, hn]
  unfold sendLoop
  have hmss : TCP_MSS = 500 := rfl
  by_cases hzero : tcb.sndWnd = 0
  · rw [if_pos (by omega)]
    exact iff_of_false (Nat.lt_irrefl 0) (fun hne => hne ⟨hacked, hzero⟩)
  rw [if_neg (by omega)]
  -- The free entry takes the first segment.
  obtain ⟨emitted, hemit⟩ := emitNew_isSome now Flags.pushAck
    (data.take (tcb.nextChunk data.length)) hfree
  rw [hemit]
  exact iff_of_true (show 0 < tcb.nextChunk data.length + _ by omega) fun hstuck => hzero hstuck.2

/-- In every state of every run, such a sender accepts a byte exactly if the run has delivered
to it no acknowledgement of all it had sent with a window of zero. -/
theorem send_quiescent_iff (x y : Seq) (ops : List EndOp) (side : Side) (tcb peer : TcpControlBlock)
    (h : Quiescent ((connected x y).run ops) side tcb peer) (data : List UInt8)
    (hdata : data ≠ []) :
    0 < (tcb.tcpSend ((connected x y).run ops).now Endpoints.channel data).sent ↔
      (connected x y).everZeroes side ops = false := by
  obtain ⟨hok, hstuck⟩ := connected_kept x y ops h.block
  rw [sent_pos_iff (hok.2 h.established) h.established h.acked _ hdata, hstuck h.established,
    Bool.not_eq_true]

/-- One byte goes over and is read. -/
def oneByte : List EndOp :=
  [.send .left [1], .deliver .right 0, .deliver .left 0, .receive .right 1]

theorem send_after_one_byte : ∃ tcb peer, Quiescent ((connected 0 0).run oneByte) .left tcb peer ∧
    0 < (tcb.tcpSend ((connected 0 0).run oneByte).now Endpoints.channel [2]).sent := by
  have h : Quiescent ((connected 0 0).run oneByte) .left _ _ :=
    ⟨rfl, rfl, rfl, rfl, ⟨rfl, rfl⟩, by decide +kernel, by decide +kernel⟩
  exact ⟨_, _, h, (send_quiescent_iff 0 0 oneByte .left _ _ h [2] (by decide)).mpr
    (by decide +kernel)⟩

/-- The sender fills the buffer of the reader, who then reads all of it. -/
def fullBuffer : List EndOp :=
  [.send .left (List.replicate 1024 0), .deliver .right 0, .deliver .right 0, .deliver .right 0,
    .deliver .left 0, .deliver .left 0, .deliver .left 0, .receive .right 1024]

/-- Then nothing is on the way, all is acknowledged and read, and the sender cannot send. -/
theorem stuck_after_full_buffer : ∃ tcb peer,
    Quiescent ((connected 0 0).run fullBuffer) .left tcb peer ∧
      (tcb.tcpSend ((connected 0 0).run fullBuffer).now Endpoints.channel [2]).sent = 0 :=
  ⟨_, _, ⟨(Option.some_get (by decide +kernel)).symm, (Option.some_get (by decide +kernel)).symm,
    by decide +kernel, by decide +kernel, by decide +kernel, by decide +kernel, by decide +kernel⟩,
    by decide +kernel⟩

end BigOS.Net
