/-
  BigOS.Net.Fin — the FIN of our side.

  `tcp_close` sets `fin_sent` and the state before it emits the FIN, and nothing is
  emitted if all retransmit entries are in use.  The states then move on as if a FIN
  had been acknowledged.  If every close finds a free entry, the FIN is the last number
  of the sequence space, and it is in the queue until it is acknowledged.

  Main results:
    • `FinInv` — where the FIN is; every call keeps it, if a close finds a free entry,
    • `fin_accounted` — every history.
-/
import BigOS.Net.Endpoints

namespace BigOS.Net

open TcpControlBlock List

/-! ## §1. Histories of a block. -/

/-- The block, until it is recycled, and the numbers that its FINs have. -/
abbrev FinState := Option TcpControlBlock × List Seq

def finStep : FinState → BlockOp → FinState
  | (none, fins), _ => (none, fins)
  | (some tcb, fins), op =>
    ((op.act tcb).1, fins ++ ((op.act tcb).2.filter (·.flags.fin)).map (·.seq))

def finRun (s : FinState) (ops : List BlockOp) : FinState := ops.foldl finStep s

/-- A close that emits finds a free entry. -/
def BlockOp.hasRoom (tcb : TcpControlBlock) : BlockOp → Bool
  | .close _ => !tcb.maySend || !tcb.retx.all (·.inUse)
  | _ => true

def closesFit : FinState → List BlockOp → Bool
  | _, [] => true
  | s, op :: ops => s.1.all op.hasRoom && closesFit (finStep s op) ops

/-! ## §2. Where the FIN is. -/

/-- The states before our side has closed. -/
def TcpState.sendOpen : TcpState → Bool
  | .finWait1 | .finWait2 | .closing | .lastAck | .timeWait => false
  | _ => true

/-- The states that wait for the acknowledgement of the FIN no more. -/
def TcpState.finAcked : TcpState → Bool
  | .finWait2 | .timeWait => true
  | _ => false

/-- The FIN is in the queue. -/
def FinQueued (tcb : TcpControlBlock) : Prop :=
  ∃ e ∈ tcb.retx, e.inUse ∧ e.flags = Flags.finAck ∧ e.data = [] ∧ e.seq = tcb.sndNxt - 1

structure FinInv (tcb : TcpControlBlock) (fins : List Seq) : Prop where
  window : tcb.sndWnd < 2 ^ 16
  flag : tcb.finSent = !tcb.state.sendOpen
  before : tcb.finSent = false → fins = [] ∧ (tcb.sndNxt - tcb.sndUna).toNat < 2 ^ 16
  /-- It is the last number, in the queue or acknowledged. -/
  after : tcb.finSent → fins = [tcb.sndNxt - 1] ∧ (tcb.sndNxt - tcb.sndUna).toNat ≤ 2 ^ 16 ∧
    (tcb.sndUna = tcb.sndNxt ∨ tcb.state.finAcked = false ∧ FinQueued tcb)

section

variable {tcb next : TcpControlBlock} {fins : List Seq} {now : Nat}

theorem FinInv.acked (h : FinInv tcb fins) (now : Nat) (ack : Seq) (window : BitVec 16) :
    FinInv (tcb.processAck now ack window) fins := by
  obtain ⟨_, _, _, _, heq⟩ := processAck_eq now tcb ack window
  rw [heq]
  split
  case isFalse => exact h
  case isTrue hadvance =>
    obtain ⟨hgt, hleq⟩ := Bool.and_eq_true_iff.mp hadvance
    rw [seqGt_iff] at hgt
    rw [seqLeq_iff] at hleq
    have hless : (tcb.sndNxt - tcb.sndUna).toNat ≤ 2 ^ 16 →
        (tcb.sndNxt - ack).toNat ≤ (tcb.sndNxt - tcb.sndUna).toNat := by
      intro hinflight
      bv_omega
    refine ⟨window.isLt, h.flag, fun hopen => ?_, fun hfin => ?_⟩
    · obtain ⟨hnone, hinflight⟩ := h.before hopen
      exact ⟨hnone, Nat.lt_of_le_of_lt (hless (Nat.le_of_lt hinflight)) hinflight⟩
    · obtain ⟨hone, hinflight, hwhere⟩ := h.after hfin
      refine ⟨hone, Nat.le_trans (hless hinflight) hinflight, ?_⟩
      rcases hwhere with hacked | ⟨hstate, e, he, huse, hflags, hdata, hseq⟩
      · -- Everything was acknowledged before.
        rw [hacked] at hgt
        omega
      cases hleft : ackedBy ack e with
      | true =>
        refine .inl ?_
        have hend : seqLeq (e.seq + BitVec.ofNat 32 (retxSeqSpan e)) ack :=
          (Bool.and_eq_true_iff.mp hleft).2
        have hspan : e.seq + BitVec.ofNat 32 (retxSeqSpan e) = tcb.sndNxt := by
          rw [retxSeqSpan, hflags, hdata, hseq]
          exact BitVec.sub_add_cancel ..
        rw [hspan, seqLeq_iff] at hend
        have := hless hinflight
        show ack = tcb.sndNxt
        bv_omega
      | false =>
        refine .inr ⟨hstate, e, mem_map.mpr ⟨e, he, ?_⟩, huse, hflags, hdata, hseq⟩
        rw [hleft]
        rfl

theorem moves_open {acked : Bool} {state state' : TcpState} (h : state' ∈ stateMoves acked state) :
    state'.sendOpen = state.sendOpen ∧ (state'.finAcked → acked ∨ state.finAcked) := by
  cases acked <;> cases state <;> simp [stateMoves] at h <;>
    grind [TcpState.sendOpen, TcpState.finAcked]

/-- The state moves, and the states that wait for no acknowledgement are entered only if there
is nothing to wait for. -/
theorem FinInv.moved (h : FinInv tcb fins) (hsame : SameSend tcb next)
    (hfin : next.finSent = tcb.finSent)
    (hstate : next.state ∈ stateMoves (tcb.sndUna == tcb.sndNxt) tcb.state) : FinInv next fins := by
  obtain ⟨hopen, hentered⟩ := moves_open hstate
  refine ⟨hsame.sndWnd ▸ h.window, ?_, ?_, ?_⟩
  · rw [hfin, hopen]
    exact h.flag
  · rw [hfin, hsame.sndNxt, hsame.sndUna]
    exact h.before
  · rw [hfin, FinQueued, hsame.sndNxt, hsame.sndUna, hsame.retx]
    intro hsent
    obtain ⟨hone, hinflight, hwhere⟩ := h.after hsent
    refine ⟨hone, hinflight, ?_⟩
    rcases hwhere with hacked | ⟨hwaits, hqueued⟩
    · exact .inl hacked
    by_cases hall : tcb.sndUna = tcb.sndNxt
    · exact .inl hall
    refine .inr ⟨Bool.eq_false_iff.mpr fun hnow => ?_, hqueued⟩
    cases hentered hnow with
    | inl heq => exact hall (beq_iff_eq.mp heq)
    | inr hbefore => cases hwaits.symm.trans hbefore

theorem FinInv.emitted {flags : Flags} {data : List UInt8} {seg : Segment} (h : FinInv tcb fins)
    (hopen : tcb.finSent = false)
    (hfits : (tcb.sndNxt - tcb.sndUna).toNat + seqSpan flags data < 2 ^ 16)
    (hemit : tcb.emitNew now flags data = some (next, seg)) : FinInv next fins := by
  obtain ⟨_, _, rfl, _⟩ := emitNew_eq hemit
  refine ⟨h.window, h.flag, fun _ => ⟨(h.before hopen).1, ?_⟩, fun hfin => ?_⟩
  · show (tcb.sndNxt + BitVec.ofNat 32 (seqSpan flags data) - tcb.sndUna).toNat < 2 ^ 16
    bv_omega
  · cases hopen.symm.trans hfin

theorem FinInv.unsent (h : FinInv tcb fins) (hmay : tcb.maySend) : tcb.finSent = false := by
  rw [h.flag]
  simp only [maySend, Bool.or_eq_true, beq_iff_eq] at hmay
  cases hmay with
  | inl hstate => rw [hstate]; rfl
  | inr hstate => rw [hstate]; rfl

theorem sendLoop_noFin (out : Nat → Output) (fuel k : Nat) (tcb : TcpControlBlock)
    (data : List UInt8) :
    (sendLoop now out fuel k tcb data).segments.filter (·.flags.fin) = [] := by
  induction fuel generalizing k tcb data with
  | zero => rfl
  | succ fuel ih =>
    unfold sendLoop
    dsimp only
    split
    · rfl
    split
    · rfl
    rename_i seg hemit
    obtain ⟨_, _, _, _, hflags⟩ := emitNew_eq hemit
    have hdata : seg.flags.fin = false := by rw [hflags]; rfl
    split <;> rw [filter_cons, hdata]
    · exact ih _ _ _
    · rfl

theorem tcpSend_noFin (now : Nat) (out : Nat → Output) (tcb : TcpControlBlock) (data : List UInt8) :
    (tcb.tcpSend now out data).segments.filter (·.flags.fin) = [] := by
  unfold tcpSend
  split
  · exact sendLoop_noFin ..
  · rfl

/-- The FIN goes into the free entry. -/
theorem FinInv.close {state : TcpState} (h : FinInv tcb fins) (now : Nat) (hmay : tcb.maySend)
    (hstate : state = .finWait1 ∨ state = .lastAck) (hfree : tcb.retx.all (·.inUse) = false) :
    ∃ seg, (tcb.emitFin now state).2 = some seg ∧ seg.flags.fin ∧
      FinInv (tcb.emitFin now state).1 (fins ++ [seg.seq]) := by
  obtain ⟨hnone, hinflight⟩ := h.before (h.unsent hmay)
  obtain ⟨⟨next, seg⟩, hemit⟩ : ∃ emitted,
      { tcb with finSent := true, state := state }.emitNew now Flags.finAck [] = some emitted := by
    apply emitNew_isSome
    exact hfree
  obtain ⟨retx, hstore, hnext, hseq, hflags⟩ := emitNew_eq hemit
  obtain ⟨front, old, back, _, rfl⟩ := storeFree_eq (hstore (by decide))
  have hclosed : state.sendOpen = false ∧ state.finAcked = false := by
    cases hstate with
    | inl heq => rw [heq]; exact ⟨rfl, rfl⟩
    | inr heq => rw [heq]; exact ⟨rfl, rfl⟩
  unfold emitFin
  dsimp only
  rw [hemit]
  refine ⟨seg, rfl, by rw [hflags]; rfl, ?_⟩
  have hlast : tcb.sndNxt = tcb.sndNxt + 1 - 1 := (BitVec.add_sub_cancel ..).symm
  rw [hnext, hnone, hseq]
  refine ⟨h.window, by rw [hclosed.1]; rfl, nofun, fun _ =>
    ⟨congrArg ([·]) hlast, ?_, .inr ⟨hclosed.2, ?_⟩⟩⟩
  · show (tcb.sndNxt + 1 - tcb.sndUna).toNat ≤ 2 ^ 16
    bv_omega
  · exact ⟨_, mem_append_right _ mem_cons_self, rfl, rfl, rfl, hlast⟩

theorem FinInv.again (h : FinInv tcb fins) (j : Nat) : FinInv (tcb.afterRetransmit now j) fins := by
  refine ⟨h.window, h.flag, h.before, fun hfin => ?_⟩
  obtain ⟨hone, hinflight, hwhere⟩ := h.after hfin
  refine ⟨hone, hinflight, hwhere.imp_right fun ⟨hwaits, e, he, hentry⟩ => ⟨hwaits, ?_⟩⟩
  obtain ⟨i, hi, rfl⟩ := mem_iff_getElem.mp he
  have hi' : i < (tcb.afterRetransmit now j).retx.length := by
    rwa [afterRetransmit, length_modify]
  refine ⟨(tcb.afterRetransmit now j).retx[i], getElem_mem hi', ?_⟩
  simp only [afterRetransmit, getElem_modify]
  split <;> exact hentry

/-- Every call keeps it, if a close finds a free entry. -/
theorem FinInv.act (h : FinInv tcb fins) (op : BlockOp) (hroom : op.hasRoom tcb)
    (hnext : (op.act tcb).1 = some next) :
    FinInv next (fins ++ ((op.act tcb).2.filter (·.flags.fin)).map (·.seq)) := by
  cases op with
  | send now out data =>
    cases hnext
    have hsent : FinInv (tcb.tcpSend now out data).tcb fins :=
      send_rule (P := (FinInv · fins)) (fun _ h _ a _ => h.acked now a.1 a.2)
        (fun _ _ _ _ h hmay _ hfits =>
          h.emitted (h.unsent hmay) (Nat.lt_of_le_of_lt hfits h.window)) h data
    show FinInv (tcb.tcpSend now out data).tcb
      (fins ++ ((tcb.tcpSend now out data).segments.filter (·.flags.fin)).map (·.seq))
    rw [tcpSend_noFin, map_nil, append_nil]
    exact hsent
  | receive =>
    cases hnext
    exact (append_nil fins).symm ▸ h.moved ⟨rfl, rfl, rfl, rfl⟩ rfl
      (by show tcb.state ∈ _; cases tcb.state <;> exact mem_cons_self)
  | segment now =>
    exact (append_nil fins).symm ▸ handled_rule (P := (FinInv · fins))
      (fun _ h ack window => h.acked now ack window) (fun _ _ h => h.moved) h hnext
  | pump =>
    exact (append_nil fins).symm ▸ pump_rule (P := (FinInv · fins)) (fun _ j h => h.again j) h hnext
  | close now =>
    have hclose : ∀ state, tcb.maySend → (state = .finWait1 ∨ state = .lastAck) →
        FinInv (tcb.emitFin now state).1
          (fins ++ ((tcb.emitFin now state).2.toList.filter (·.flags.fin)).map (·.seq)) := by
      intro state hmay hstate
      have hfree : tcb.retx.all (·.inUse) = false := by simpa [BlockOp.hasRoom, hmay] using hroom
      obtain ⟨seg, hseg, hfin, hinv⟩ := h.close now hmay hstate hfree
      rw [hseg, Option.toList_some, filter_cons, hfin]
      exact hinv
    unfold BlockOp.act tcpClose at hnext ⊢
    cases hstate : tcb.state with
    | established =>
      rw [hstate] at hnext
      cases hnext
      exact hclose _ (by rw [maySend, hstate]; rfl) (.inl rfl)
    | closeWait =>
      rw [hstate] at hnext
      cases hnext
      exact hclose _ (by rw [maySend, hstate]; rfl) (.inr rfl)
    | _ =>
      rw [hstate] at hnext
      cases hnext
      exact (append_nil fins).symm ▸ h

/-- And so does every history. -/
theorem finRun_inv (ops : List BlockOp) (s : FinState) (h : ∀ tcb, s.1 = some tcb → FinInv tcb s.2)
    (hfit : closesFit s ops) (hblock : (finRun s ops).1 = some tcb) :
    FinInv tcb (finRun s ops).2 := by
  induction ops generalizing s with
  | nil => exact h tcb hblock
  | cons op ops ih =>
    obtain ⟨hroom, hrest⟩ := Bool.and_eq_true_iff.mp hfit
    refine ih (finStep s op) (fun next hnext => ?_) hrest hblock
    obtain ⟨_ | before, fins⟩ := s
    · cases hnext
    · exact (h before rfl).act op hroom hnext

end

/-! ## §3. Every history. -/

/-- A block whose side is not closed. -/
structure Unclosed (tcb : TcpControlBlock) : Prop where
  state : tcb.state.sendOpen
  finSent : tcb.finSent = false
  window : tcb.sndWnd < 2 ^ 16
  inflight : (tcb.sndNxt - tcb.sndUna).toNat < 2 ^ 16

/-- The FIN has a number, and nothing after it. -/
structure FinAccounted (tcb : TcpControlBlock) (fins : List Seq) : Prop where
  one : tcb.finSent → ∃ q, fins = [q] ∧ (tcb.sndUna = q + 1 ∨
    ∃ e ∈ tcb.retx, e.inUse ∧ e.flags.fin ∧ e.seq = q)
  entered : tcb.state.finAcked → ∃ q, fins = [q] ∧ tcb.sndUna = q + 1
  recycled : tcb.state = .lastAck → ∀ now seg, seg.flags.rst = false →
    tcb.handled now seg = none → ∃ q, fins = [q] ∧ (tcb.ackOf now seg).sndUna = q + 1
  learns : tcb.finSent → tcb.sndUna = tcb.sndNxt → ∃ q, fins = [q] ∧ tcb.sndUna = q + 1

theorem FinInv.accounted {tcb : TcpControlBlock} {fins : List Seq} (h : FinInv tcb fins) :
    FinAccounted tcb fins := by
  have hlast : tcb.sndNxt = tcb.sndNxt - 1 + 1 := (BitVec.sub_add_cancel ..).symm
  have hclosed : tcb.state.finAcked ∨ tcb.state = .lastAck → tcb.finSent := by
    rw [h.flag]
    cases tcb.state <;> decide
  refine ⟨fun hfin => ?_, fun hstate => ?_, fun hstate now seg hrst hgone => ?_,
    fun hfin hall => ?_⟩
  · obtain ⟨hone, _, hwhere⟩ := h.after hfin
    refine ⟨_, hone, hwhere.imp (fun hall => hall.trans hlast)
      fun ⟨_, e, he, huse, hflags, _, hseq⟩ => ?_⟩
    exact ⟨e, he, huse, by rw [hflags]; rfl, hseq⟩
  · obtain ⟨hone, _, hwhere⟩ := h.after (hclosed (.inl hstate))
    cases hwhere with
    | inl hall => exact ⟨_, hone, hall.trans hlast⟩
    | inr hwaits => cases hwaits.1.symm.trans hstate
  · refine ⟨_, (h.after (hclosed (.inr hstate))).1, ?_⟩
    unfold handled arrive at hgone
    rw [hrst, hstate, if_neg Bool.false_ne_true] at hgone
    dsimp only at hgone
    by_cases hall : ((tcb.ackOf now seg).sndUna == (tcb.ackOf now seg).sndNxt)
    · have hnxt : (tcb.ackOf now seg).sndNxt = tcb.sndNxt := by
        unfold ackOf
        split
        · exact processAck_sndNxt ..
        · rfl
      exact (beq_iff_eq.mp hall).trans (hnxt.trans hlast)
    · rw [if_neg hall] at hgone
      cases hgone
  · exact ⟨_, (h.after hfin).1, hall.trans hlast⟩

/-- If every close finds a free retransmit entry, the FIN of a closed side has one number: it is
in the queue or acknowledged, and the states after its acknowledgement are entered, and the
block recycled, only then. -/
theorem fin_accounted (start : TcpControlBlock) (hstart : Unclosed start) (ops : List BlockOp)
    (hfit : closesFit (some start, []) ops = true) (tcb : TcpControlBlock)
    (hblock : (finRun (some start, []) ops).1 = some tcb) :
    FinAccounted tcb (finRun (some start, []) ops).2 := by
  refine (finRun_inv ops _ (fun first hfirst => ?_) hfit hblock).accounted
  cases hfirst
  refine ⟨hstart.window, by rw [hstart.finSent, hstart.state]; rfl,
    fun _ => ⟨rfl, hstart.inflight⟩, fun hfin => ?_⟩
  cases hstart.finSent.symm.trans hfin

/-- A side that closes, and a peer that acknowledges number `n`. -/
def closeAcked (n : Seq) : List BlockOp :=
  [.close 0, .segment 0 ⟨2, 1, 0, n, Flags.onlyAck, 1024, []⟩]

theorem fin_accounted_acked : ∃ tcb,
    (finRun (some (openedBlock 1 2 7 0), []) (closeAcked 8)).1 = some tcb ∧
      FinAccounted tcb (finRun (some (openedBlock 1 2 7 0), []) (closeAcked 8)).2 := by
  obtain ⟨tcb, hblock⟩ : ∃ tcb,
      (finRun (some (openedBlock 1 2 7 0), []) (closeAcked 8)).1 = some tcb :=
    Option.isSome_iff_exists.mp (by decide +kernel)
  exact ⟨tcb, hblock, fin_accounted (openedBlock 1 2 7 0) ⟨rfl, rfl, by decide, by decide⟩
    (closeAcked 8) (by decide +kernel) tcb hblock⟩

/-- Four bytes are on their way: the close emits nothing, and the acknowledgement of the bytes
passes for one of the FIN. -/
theorem fin_never_sent :
    let s := finRun (some (openedBlock 1 2 7 0), [])
      (replicate 4 (.send 0 Endpoints.channel [65]) ++ closeAcked 11)
    s.2 = [] ∧ s.1.any (fun tcb => tcb.finSent && tcb.state == .finWait2 &&
      tcb.sndUna == tcb.sndNxt && tcb.retx.all (!·.inUse)) = true := by
  decide +kernel

end BigOS.Net
