/-
  BigOS.Net.Close — the two sockets of a loopback connection are closed.

  `stream_close` sends a FIN only from `Established`; from every other state, `CloseWait`
  among them, it recycles the block without a word.  A connection is in `CloseWait` on one
  side only after the FIN of the other, so both sides are `Established` at the first close.
  The side that closes first then waits in `FinWait2` for a FIN that never comes, and
  nothing in `tcp_pump` ends that wait.

  Main results:
    • `Unclosing.step`, `unclosing_run` — no FIN goes out before its side has closed,
    • `fin_answered`, `finWait2_entered` — the FIN of the first side is acknowledged,
    • `never_reclaimed` — its block stays for ever.
-/
import Mathlib.Data.List.Induction
import BigOS.Net.Fin

namespace BigOS.Net

open TcpControlBlock List

/-! ## §1. Closing over the loopback. -/

namespace Endpoints

/-- A local peer handles a segment, and its answer is handled, before the transmission
returns.  The answer is a bare acknowledgement, which nobody answers. -/
def loopback (e : Endpoints) (side : Side) (seg : Segment) : Endpoints :=
  match e.block side.other with
  | none => e
  | some peer =>
    let e' := e.setBlock side.other (peer.handled e.now seg)
    match peer.answer e.now seg, e.block side with
    | some reply, some tcb => e'.setBlock side (tcb.handled e.now reply)
    | _, _ => e'

/-- `stream_close` on a connected socket. -/
def streamClose (e : Endpoints) (side : Side) : Endpoints :=
  match e.block side with
  | none => e
  | some tcb =>
    if tcb.state = .established then
      let r := tcb.emitFin e.now .finWait1
      match r.2 with
      | some seg => (e.setBlock side (some r.1)).loopback side seg
      | none => e.setBlock side (some r.1)
    else e.setBlock side none

/-- `tcp_pump` at the given times; nobody is left to answer what it retransmits. -/
def pumps (e : Endpoints) : List Nat → Endpoints
  | [] => e
  | t :: times =>
    ({ e with block := fun side => (e.block side).bind fun tcb => (tcb.pump t).1 } :
      Endpoints).pumps times

/-- Both sockets are closed, and the timer runs. -/
def closeBoth (e : Endpoints) (first : Side) (times : List Nat) : Endpoints :=
  ((e.streamClose first).streamClose first.other).pumps times

end Endpoints

/-! ## §2. Who has sent a FIN. -/

/-- All that a call transmits. -/
def BlockOp.sent (tcb : TcpControlBlock) : BlockOp → List Segment
  | .segment now seg => (tcb.answer now seg).toList
  | .pump now => (tcb.pump now).2
  | op => (op.act tcb).2

/-- No FIN is in the queue. -/
def NoFin (tcb : TcpControlBlock) : Prop := Queued (·.flags.fin = false) tcb

/-- As long as a side has not closed, its FIN is nowhere. -/
structure Unclosing (e : Endpoints) (side : Side) (tcb : TcpControlBlock) : Prop where
  queue : NoFin tcb
  inflight : ∀ seg ∈ e.inflight side.other, seg.flags.fin = false
  peer : ∀ peer, e.block side.other = some peer → peer.state.pastFin = false

section

variable {tcb next : TcpControlBlock} {now : Nat} {seg : Segment} {e : Endpoints} {side : Side}
  {op : BlockOp}

theorem answer_bare {reply : Segment} (h : tcb.answer now seg = some reply) :
    reply.flags = Flags.onlyAck := by
  unfold answer at h
  split at h
  · cases h
    rfl
  · cases h

theorem pumpEntries_noFin (js : List Nat) (h : NoFin tcb) :
    ∀ seg ∈ (tcb.pumpEntries now js).2, seg.flags.fin = false := by
  induction js generalizing tcb with
  | nil => exact forall_mem_nil _
  | cons j js ih =>
    unfold pumpEntries
    cases hstep : tcb.pumpEntry now j with
    | skip => exact ih h
    | reset => exact forall_mem_nil _
    | retransmit seg =>
      refine forall_mem_cons.mpr ⟨?_, ih (h.again j fun _ _ he => he)⟩
      unfold pumpEntry at hstep
      split at hstep
      · cases hstep
      case h_2 entry hentry =>
        split at hstep
        · cases hstep
        case isFalse hdue =>
          split at hstep
          · cases hstep
          cases hstep
          refine h entry (mem_of_getElem? hentry) ?_
          simpa using (not_or.mp (mt (Bool.or_eq_true ..).mpr hdue)).1

/-- What a call does to the state; a segment may do more. -/
theorem act_state (hnext : (op.act tcb).1 = some next) : next.state = tcb.state ∨
    tcb.state = .established ∧ next.state = .finWait1 ∨
    tcb.state = .closeWait ∧ next.state = .lastAck ∨
    ∃ now seg, op = .segment now seg ∧ tcb.handled now seg = some next := by
  cases op with
  | send now out data =>
    cases hnext
    refine .inl (send_rule (P := (·.state = tcb.state)) (fun t ht _ a _ => ?_)
      (fun _ _ _ _ ht _ _ _ hemit => (emitNew_same hemit).state.trans ht) rfl data)
    exact (processAck_state ..).trans ht
  | receive =>
    cases hnext
    exact .inl rfl
  | close now =>
    dsimp only [BlockOp.act] at hnext
    cases hclose : tcb.tcpClose now with
    | none =>
      rw [hclose] at hnext
      cases hnext
      exact .inl rfl
    | some closed =>
      rw [hclose] at hnext
      cases hnext
      obtain hclosed | hclosed := tcpClose_state hclose
      · exact .inr (.inl hclosed)
      · exact .inr (.inr (.inl hclosed))
  | segment now seg => exact .inr (.inr (.inr ⟨now, seg, rfl, hnext⟩))
  | pump now => exact .inl (pump_rule (P := (·.state = tcb.state)) (fun _ _ ht => ht) rfl hnext)

/-- A side that is open was open before. -/
theorem act_open (hnext : (op.act tcb).1 = some next) (hopen : next.state.sendOpen) :
    tcb.state.sendOpen := by
  obtain hstate | ⟨_, hstate⟩ | ⟨_, hstate⟩ | ⟨now, seg, _, hhandled⟩ := act_state hnext
  · rwa [← hstate]
  · rw [hstate] at hopen
    cases hopen
  · rw [hstate] at hopen
    cases hopen
  · refine (handled_rule (P := fun t => t.state.sendOpen = tcb.state.sendOpen)
      (fun t ht ack window => ?_) (fun t u ht _ _ hmove => ?_) rfl hhandled).symm.trans hopen
    · rw [processAck_state]
      exact ht
    · exact (moves_open hmove).1.trans ht

/-- A block takes a FIN only from a segment that has one. -/
theorem act_unpast (hsync : tcb.state.synchronised) (hpast : tcb.state.pastFin = false)
    (hfin : ∀ now seg, op = .segment now seg → seg.flags.fin = false)
    (hnext : (op.act tcb).1 = some next) : next.state.pastFin = false := by
  obtain hstate | ⟨_, hstate⟩ | ⟨hbefore, _⟩ | ⟨now, seg, hop, hhandled⟩ := act_state hnext
  · rwa [hstate]
  · rw [hstate]
    rfl
  · rw [hbefore] at hpast
    cases hpast
  · obtain ⟨_, _, _, _, _, hstill, _, _, heq⟩ := handled_open now hsync hpast (handled_rst hhandled)
    dsimp only at heq
    rw [heq, if_neg (by rw [finNext, hfin now seg hop, Bool.false_and]; decide)] at hhandled
    cases hhandled
    exact hstill

/-- A side that has not closed transmits no FIN. -/
theorem NoFin.act (h : NoFin tcb) (hnext : (op.act tcb).1 = some next)
    (hopen : next.state.sendOpen) : NoFin next ∧ ∀ seg ∈ op.sent tcb, seg.flags.fin = false := by
  cases op with
  | send now out data =>
    cases hnext
    refine ⟨send_rule (P := NoFin) (fun _ ht _ a _ => Queued.processAck ht now a.1 a.2)
      (fun _ _ _ _ ht _ hspan _ hemit => Queued.emitNew ht hspan rfl hemit) h data,
        fun seg hseg => ?_⟩
    simpa using filter_eq_nil_iff.mp (tcpSend_noFin now out tcb data) seg hseg
  | receive =>
    cases hnext
    exact ⟨h, forall_mem_nil _⟩
  | close now =>
    dsimp only [BlockOp.sent, BlockOp.act] at hnext ⊢
    cases hclose : tcb.tcpClose now with
    | none =>
      rw [hclose] at hnext
      cases hnext
      exact ⟨h, forall_mem_nil _⟩
    | some closed =>
      rw [hclose] at hnext
      cases hnext
      obtain ⟨_, hstate⟩ | ⟨_, hstate⟩ := tcpClose_state hclose
      · rw [hstate] at hopen
        cases hopen
      · rw [hstate] at hopen
        cases hopen
  | segment now seg =>
    refine ⟨handled_rule (P := NoFin) (fun _ ht ack window => Queued.processAck ht now ack window)
      (fun t u ht hsame _ _ => ?_) h hnext, fun reply hreply => ?_⟩
    · unfold NoFin Queued
      rw [hsame.retx]
      exact ht
    · rw [answer_bare (Option.mem_toList.mp hreply)]
      rfl
  | pump now =>
    refine ⟨pump_rule (P := NoFin) (fun _ j ht => Queued.again ht j fun _ _ he => he) h hnext, ?_⟩
    dsimp only [BlockOp.sent]
    unfold pump
    split
    · exact forall_mem_nil _
    · exact pumpEntries_noFin _ h

theorem setBlock_self (tcb : Option TcpControlBlock) : (e.setBlock side tcb).block side = tcb :=
  Function.update_self _ _ _

theorem setBlock_of_ne {other : Side} (h : other ≠ side) (tcb : Option TcpControlBlock) :
    (e.setBlock side tcb).block other = e.block other :=
  Function.update_of_ne h _ _

theorem Side.other_ne (side : Side) : side.other ≠ side := by
  cases side <;> decide

theorem Side.other_inj {a b : Side} (h : a.other = b.other) : a = b := by
  cases a <;> cases b <;> first | rfl | cases h

/-- What is on the way to the other side was so before, or the side transmits it. -/
theorem step_inflight {op : EndOp} (h : seg ∈ (e.step op).inflight side.other) :
    seg ∈ e.inflight side.other ∨ ∃ blockOp tcb, op.on e side = some blockOp ∧
      e.block side = some tcb ∧ seg ∈ blockOp.sent tcb := by
  have hact : ∀ (e : Endpoints) side' f, seg ∈ (e.act side' f).inflight side.other →
      seg ∈ e.inflight side.other ∨ side' = side ∧ ∃ tcb, e.block side = some tcb ∧
        seg ∈ (f tcb).2 := by
    intro e side' f h
    unfold Endpoints.act at h
    cases hblock : e.block side' with
    | none =>
      rw [hblock] at h
      exact .inl h
    | some tcb =>
      rw [hblock] at h
      by_cases hside : side' = side
      · subst hside
        rw [show (((e.setBlock side' (f tcb).1).transmit side' (f tcb).2).inflight side'.other) =
          e.inflight side'.other ++ (f tcb).2 from Function.update_self ..] at h
        exact (mem_append.mp h).imp_right fun hseg => ⟨rfl, tcb, hblock, hseg⟩
      · rw [show (((e.setBlock side' (f tcb).1).transmit side' (f tcb).2).inflight side.other) =
          e.inflight side.other from
            Function.update_of_ne (fun heq => hside (Side.other_inj heq).symm) _ _] at h
        exact .inl h
  have hdrop : ∀ side' k, seg ∈ (e.drop side' k).inflight side.other →
      seg ∈ e.inflight side.other := by
    intro side' k h
    by_cases hside : side.other = side'
    · subst hside
      rw [show (e.drop side.other k).inflight side.other = (e.inflight side.other).eraseIdx k from
        Function.update_self ..] at h
      exact mem_of_mem_eraseIdx h
    · rwa [show (e.drop side' k).inflight side.other = e.inflight side.other from
        Function.update_of_ne hside _ _] at h
  cases op with
  | send side' | receive side' | close side' | pump side' =>
    refine (hact e side' _ h).imp_right fun ⟨hside, tcb, hblock, hseg⟩ =>
      ⟨_, tcb, if_pos hside, hblock, hseg⟩
  | deliver side' k =>
    dsimp only [Endpoints.step] at h
    cases hget : (e.inflight side')[k]? with
    | none =>
      rw [hget] at h
      exact .inl h
    | some delivered =>
      rw [hget] at h
      refine (hact (e.drop side' k) side' _ h).imp (hdrop side' k) fun ⟨hside, tcb, hblock, hseg⟩ =>
        ⟨.segment e.now delivered, tcb, ?_, hblock, hseg⟩
      subst hside
      dsimp only [EndOp.on]
      rw [if_pos rfl, hget]
      rfl
  | lose side' k => exact .inl (hdrop side' k h)
  | tick => exact .inl h

theorem Unclosing.step {op : EndOp} (hok : EndsOk e)
    (h : ∀ tcb, e.block side = some tcb → tcb.state.sendOpen → Unclosing e side tcb)
    (hblock : (e.step op).block side = some next) (hopen : next.state.sendOpen) :
    Unclosing (e.step op) side next := by
  obtain ⟨tcb, htcb, hqueue, hsent⟩ : ∃ tcb, Unclosing e side tcb ∧ NoFin next ∧
      ∀ blockOp before, op.on e side = some blockOp → e.block side = some before →
        ∀ seg ∈ blockOp.sent before, seg.flags.fin = false := by
    obtain ⟨hon, hsame⟩ | ⟨blockOp, tcb, hon, hbefore, hact⟩ := step_cases hblock
    · refine ⟨next, h next hsame hopen, (h next hsame hopen).queue, fun _ _ hsome => ?_⟩
      cases hon.symm.trans hsome
    · have hunclosing := h tcb hbefore (act_open hact hopen)
      obtain ⟨hqueue, hsent⟩ := hunclosing.queue.act hact hopen
      refine ⟨tcb, hunclosing, hqueue, fun blockOp' before hon' hbefore' => ?_⟩
      cases hon.symm.trans hon'
      cases hbefore.symm.trans hbefore'
      exact hsent
  refine ⟨hqueue, fun seg hseg => ?_, fun peer hpeer => ?_⟩
  · obtain hold | ⟨blockOp, before, hon, hbefore, hseg⟩ := step_inflight hseg
    · exact htcb.inflight seg hold
    · exact hsent blockOp before hon hbefore seg hseg
  · obtain ⟨_, hsame⟩ | ⟨blockOp, before, hon, hbefore, hact⟩ := step_cases hpeer
    · exact htcb.peer peer hsame
    refine act_unpast (hok _ _ hbefore).1 (htcb.peer before hbefore) (fun now seg heq => ?_) hact
    -- A segment for the peer was on the way.
    subst heq
    cases op <;> simp [EndOp.on] at hon
    exact htcb.inflight seg (mem_of_getElem? hon.2.1)

theorem unclosing_run (x y : Seq) (ops : List EndOp)
    (hblock : ((connected x y).run ops).block side = some tcb) (hopen : tcb.state.sendOpen) :
    Unclosing ((connected x y).run ops) side tcb := by
  induction ops using reverseRecOn generalizing tcb with
  | nil =>
    have hfree : ∀ localPort remotePort snd rcv, NoFin (openedBlock localPort remotePort snd rcv) :=
      fun _ _ _ _ entry hentry _ => congrArg (·.flags.fin) (eq_of_mem_replicate hentry)
    refine ⟨?_, forall_mem_nil _, fun peer hpeer => ?_⟩
    · cases side <;> cases hblock <;> exact hfree _ _ _ _
    · cases side <;> cases hpeer <;> rfl
  | append_singleton ops op ih =>
    unfold Endpoints.run at hblock ⊢
    rw [foldl_append] at hblock ⊢
    refine Unclosing.step (fun _ _ hkept => ?_) (fun _ => ih) hblock hopen
    exact (connected_kept x y ops hkept).1

end

/-! ## §3. The first FIN. -/

section

variable {tcb next : TcpControlBlock} {now : Nat} {seg : Segment} {e : Endpoints} {side : Side}

/-- The FIN goes out, and is the only entry in use. -/
theorem emitFin_first (now : Nat) (hlength : tcb.retx ≠ [])
    (hfree : ∀ entry ∈ tcb.retx, entry.inUse = false) : ∃ next seg,
      tcb.emitFin now .finWait1 = (next, some seg) ∧
      next.state = .finWait1 ∧ next.sndUna = tcb.sndUna ∧ next.sndNxt = tcb.sndNxt + 1 ∧
      Queued (entryEnd · = next.sndNxt) next ∧
      seg.flags = Flags.finAck ∧ seg.data = [] ∧ seg.seq = tcb.sndNxt := by
  obtain ⟨first, rest, hretx⟩ := exists_cons_of_ne_nil hlength
  have hstore : ∀ entry, storeFree entry tcb.retx = some (entry :: rest) := by
    intro entry
    rw [hretx, storeFree, hfree first (hretx ▸ mem_cons_self)]
    rfl
  unfold emitFin emitNew registerRetx
  dsimp only
  rw [hstore]
  refine ⟨_, _, rfl, rfl, rfl, rfl, fun entry hentry huse => ?_, rfl, rfl, rfl⟩
  cases mem_cons.mp hentry with
  | inl heq =>
    rw [heq]
    rfl
  | inr hrest =>
    rw [hfree entry (hretx ▸ mem_cons_of_mem _ hrest)] at huse
    cases huse

/-- An open peer that has received all before the FIN acknowledges it. -/
theorem fin_answered (now : Nat) (hest : tcb.state = .established)
    (hflags : seg.flags = Flags.finAck)
    (hdata : seg.data = []) (hseq : seg.seq = tcb.rcvNxt) : ∃ next reply,
      tcb.handled now seg = some next ∧ next.state = .closeWait ∧
      tcb.answer now seg = some reply ∧ reply.flags = Flags.onlyAck ∧ reply.data = [] ∧
      reply.ack = tcb.rcvNxt + 1 := by
  have hrcv := (ackOf_same now tcb seg).rcvNxt
  have hfin : (tcb.ackOf now seg).finNext seg := by
    unfold finNext
    rw [hflags, hdata, hrcv, hseq, Flags.finAck, Bool.true_and, seqLeq_iff]
    exact .inl (by simp)
  have harrive : tcb.arrive now seg =
      .acknowledged { (tcb.ackOf now seg).takeFin with state := .closeWait } .nothing := by
    unfold arrive acceptData
    rw [hflags, hest, hdata]
    dsimp only
    rw [if_pos rfl, if_pos hfin]
    rfl
  unfold handled answer
  rw [harrive]
  refine ⟨_, _, rfl, rfl, rfl, rfl, rfl, ?_⟩
  rw [← hrcv]
  rfl

/-- The acknowledgement of all that was sent ends the wait for it. -/
theorem finWait2_entered (now : Nat) (hstate : tcb.state = .finWait1)
    (hflags : seg.flags = Flags.onlyAck) (hdata : seg.data = []) (hack : seg.ack = tcb.sndNxt)
    (hinflight : 0 < (tcb.sndNxt - tcb.sndUna).toNat ∧ (tcb.sndNxt - tcb.sndUna).toNat ≤ 2 ^ 16)
    (hqueue : Queued (entryEnd · = tcb.sndNxt) tcb) : ∃ next, tcb.handled now seg = some next ∧
      next.state = .finWait2 ∧ ∀ entry ∈ next.retx, entry.inUse = false := by
  obtain ⟨_, _, _, _, heq⟩ := processAck_eq now tcb seg.ack seg.window
  have hadvance : seqGt seg.ack tcb.sndUna && seqLeq seg.ack tcb.sndNxt := by
    rw [hack, Bool.and_eq_true, seqGt_iff, seqLeq_iff]
    bv_omega
  rw [if_pos hadvance] at heq
  have hacked : tcb.ackOf now seg = _ := (if_pos (by rw [hflags]; rfl)).trans heq
  unfold handled arrive acceptData finNext
  rw [hflags, hstate, hdata, hacked, if_pos rfl]
  dsimp only [Flags.onlyAck]
  rw [hack, beq_self_eq_true]
  refine ⟨_, rfl, rfl, fun entry hentry => ?_⟩
  obtain ⟨old, hold, rfl⟩ := mem_map.mp hentry
  cases huse : old.inUse with
  | false => rw [show ackedBy tcb.sndNxt old = false by rw [ackedBy, huse]; rfl]; exact huse
  | true =>
    have hleq : ackedBy tcb.sndNxt old := by
      have hend : old.seq + BitVec.ofNat 32 (retxSeqSpan old) = tcb.sndNxt := hqueue old hold huse
      rw [ackedBy, huse, hend, Bool.true_and, seqLeq_iff]
      exact .inl (by simp)
    rw [if_pos hleq]

/-- The timer has nothing to do. -/
theorem pump_idle (now : Nat) (hstate : tcb.state = .finWait2)
    (hfree : ∀ entry ∈ tcb.retx, entry.inUse = false) : tcb.pump now = (some tcb, []) := by
  have hentries : ∀ js, tcb.pumpEntries now js = (some tcb, []) := by
    intro js
    induction js with
    | nil => rfl
    | cons j js ih =>
      have hskip : tcb.pumpEntry now j = .skip := by
        unfold pumpEntry
        cases hget : tcb.retx[j]? with
        | none => rfl
        | some entry =>
          dsimp only
          rw [hfree entry (mem_of_getElem? hget)]
          rfl
      unfold pumpEntries
      rw [hskip]
      exact ih
  unfold pump
  rw [hstate, if_neg (by decide)]
  exact hentries _

theorem pumps_idle (times : List Nat) (h : e.block side = some tcb) (hstate : tcb.state = .finWait2)
    (hfree : ∀ entry ∈ tcb.retx, entry.inUse = false) : (e.pumps times).block side = some tcb := by
  induction times generalizing e with
  | nil => exact h
  | cons t times ih =>
    refine ih ?_
    dsimp only
    rw [h, Option.bind_some, pump_idle t hstate hfree]

theorem pumps_gone (times : List Nat) (h : e.block side = none) :
    (e.pumps times).block side = none := by
  induction times generalizing e with
  | nil => exact h
  | cons t times ih => exact ih (by dsimp only; rw [h]; rfl)

/-- A side that is not established goes without a word. -/
theorem streamClose_abort (h : e.block side = some tcb) (hstate : tcb.state ≠ .established) :
    e.streamClose side = e.setBlock side none := by
  unfold Endpoints.streamClose
  rw [h]
  exact if_neg hstate

end

/-! ## §4. Both sockets. -/

/-- The two blocks of a connection, open or half closed, with all that was sent received and
acknowledged. -/
structure Loopback (e : Endpoints) (first : Side) (a b : TcpControlBlock) : Prop where
  block : e.block first = some a
  peer : e.block first.other = some b
  inStep : b.rcvNxt = a.sndNxt ∧ a.rcvNxt = b.sndNxt
  free : ∀ entry ∈ a.retx, entry.inUse = false
  peerFree : ∀ entry ∈ b.retx, entry.inUse = false
  state : a.state = .established ∨ a.state = .closeWait
  peerState : b.state = .established ∨ b.state = .closeWait

/-- Neither side is half closed: the other would have sent its FIN. -/
theorem Loopback.established {x y : Seq} {ops : List EndOp} {first : Side} {a b : TcpControlBlock}
    (h : Loopback ((connected x y).run ops) first a b) :
    a.state = .established ∧ b.state = .established := by
  have hopen : ∀ t : TcpControlBlock, t.state = .established ∨ t.state = .closeWait →
      t.state.sendOpen ∧ (t.state.pastFin = false → t.state = .established) := by
    intro t ht
    obtain hstate | hstate := ht
    · rw [hstate]
      exact ⟨rfl, fun _ => rfl⟩
    · rw [hstate]
      exact ⟨rfl, fun hpast => by cases hpast⟩
  have hother : first.other.other = first := by cases first <;> rfl
  obtain ⟨haopen, haest⟩ := hopen a h.state
  obtain ⟨hbopen, hbest⟩ := hopen b h.peerState
  refine ⟨haest ?_, hbest ((unclosing_run x y ops h.block haopen).peer b h.peer)⟩
  exact (unclosing_run x y ops h.peer hbopen).peer a (by rw [hother]; exact h.block)

/-- However the timer runs, the block of the socket that is closed first stays in `FinWait2`. -/
theorem never_reclaimed (x y : Seq) (ops : List EndOp) (first : Side) (a b : TcpControlBlock)
    (h : Loopback ((connected x y).run ops) first a b) (times : List Nat) : ∃ left,
      (((connected x y).run ops).closeBoth first times).block first = some left ∧
      left.state = .finWait2 ∧
      (((connected x y).run ops).closeBoth first times).block first.other = none := by
  obtain ⟨haest, hbest⟩ := h.established
  have hok := (connected_kept x y ops h.block).1.2 haest
  set e := (connected x y).run ops
  have hinflight := hok.inflight
  obtain ⟨sent, fin, hemit, hsent, huna, hnxt, hqueue, hflags, hdata, hseq⟩ :=
    emitFin_first e.now (fun hnil => by have := hok.length; rw [hnil] at this; cases this) h.free
  obtain ⟨half, reply, hhalf, hcw, hreply, hrflags, hrdata, hrack⟩ :=
    fin_answered e.now hbest hflags hdata (hseq.trans h.inStep.1.symm)
  obtain ⟨left, hleft, hwait, hidle⟩ := finWait2_entered e.now hsent hrflags hrdata
    (hrack.trans (by rw [h.inStep.1, hnxt])) (by rw [hnxt, huna]; bv_omega) hqueue
  have hfirst : e.streamClose first = ((e.setBlock first (some sent)).setBlock first.other
      (some half)).setBlock first (some left) := by
    unfold Endpoints.streamClose Endpoints.loopback
    rw [h.block]
    dsimp only
    rw [if_pos haest, hemit]
    dsimp only
    rw [setBlock_of_ne first.other_ne, h.peer]
    dsimp only
    rw [show (e.setBlock first (some sent)).now = e.now from rfl, hhalf, hreply, setBlock_self]
    dsimp only
    rw [hleft]
  have hsecond : (e.streamClose first).streamClose first.other =
      (e.streamClose first).setBlock first.other none := by
    have hblock : (e.streamClose first).block first.other = some half := by
      rw [hfirst, setBlock_of_ne first.other_ne, setBlock_self]
    exact streamClose_abort hblock (by rw [hcw]; decide)
  unfold Endpoints.closeBoth
  rw [hsecond]
  refine ⟨left, pumps_idle times ?_ hwait hidle, hwait, pumps_gone times (setBlock_self _)⟩
  rw [setBlock_of_ne first.other_ne.symm, hfirst, setBlock_self]

theorem never_reclaimed_byte : ∃ left,
    (((connected 0 0).run oneByte).closeBoth .left [30]).block .left = some left ∧
      left.state = .finWait2 ∧
      (((connected 0 0).run oneByte).closeBoth .left [30]).block .right = none :=
  never_reclaimed 0 0 oneByte .left _ _ ⟨rfl, rfl, by decide +kernel, by decide +kernel,
    by decide +kernel, .inl rfl, .inl rfl⟩ [30]

/-- Two open blocks are closed one after the other: the first is left in `FinWait2`, however
often the timer runs. -/
theorem open_not_reclaimed :
    (((connected 0 0).closeBoth .left ((List.range 40).map (· * 10))).block .left).any
        (fun tcb => tcb.active && tcb.state == .finWait2 && tcb.retx.all (!·.inUse)) = true ∧
      (((connected 0 0).closeBoth .left ((List.range 40).map (· * 10))).block .right).isNone =
        true := by
  decide +kernel

end BigOS.Net
