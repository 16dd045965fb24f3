/-
  BigOS.Net.Receive — the bytes that a connection returns are those of the peer.

  The segments of a run carry the bytes of one stream, in any order, cut in any way and
  more than once; the sequence space may wrap in the middle.  What reads have returned,
  followed by what the receive buffer holds, is a prefix of the stream, and `rcv_nxt`
  counts it.  The reorder slots hold pieces of the stream.

  Main results:
    • `Accepted.push` — bytes that begin at `rcv_nxt` extend the prefix,
    • `drainReorder_done` — the loop over the reorder slots ends,
    • `arrive_kept`, `streamRun_inv` — one segment, and every run,
    • `receive_stream` — what the reader sees.
-/
import BigOS.Net.Tcp

namespace BigOS.Net

open BigOS.Lib TcpControlBlock List Ring

variable {state : TcpState}

/-! ## §1. The receive buffer. -/

theorem pushAll_count (bytes : List UInt8) (ring : Ring UInt8 TCP_RECV_BUFFER) :
    (pushAll ring bytes).count = ring.count + bytes.length := by
  induction bytes generalizing ring with
  | nil => rfl
  | cons b bytes ih =>
    show (pushAll (ring.push b) bytes).count = _
    rw [ih, length_cons]
    show ring.count + 1 + bytes.length = _
    omega

theorem pushAll_spec {ring : Ring UInt8 TCP_RECV_BUFFER} (bytes : List UInt8) (h : ring.Valid)
    (hroom : bytes.length ≤ TCP_RECV_BUFFER - ring.count) :
    (pushAll ring bytes).Valid ∧ (pushAll ring bytes).contents = ring.contents ++ bytes := by
  induction bytes generalizing ring with
  | nil => exact ⟨h, (append_nil _).symm⟩
  | cons b bytes ih =>
    rw [length_cons] at hroom
    have hlt : ring.count < TCP_RECV_BUFFER := by omega
    have hrest : bytes.length ≤ TCP_RECV_BUFFER - (ring.push b).count := by
      show bytes.length ≤ TCP_RECV_BUFFER - (ring.count + 1)
      omega
    obtain ⟨hvalid, hcontents⟩ := ih (h.push hlt) hrest
    refine ⟨hvalid, ?_⟩
    show (pushAll (ring.push b) bytes).contents = _
    rw [hcontents, contents_push h hlt, append_assoc]
    rfl

/-- The data at the sequence number is a piece of the stream. -/
def Carries (irs : Seq) (stream : List UInt8) (seq : Seq) (data : List UInt8) : Prop :=
  ∃ offset, seq = irs + 1 + BitVec.ofNat 32 offset ∧ offset + data.length ≤ stream.length ∧
    data = (stream.drop offset).take data.length

/-- A prefix of the stream was returned or is in the buffer, and the next byte is known. -/
structure Accepted (irs : Seq) (stream returned : List UInt8) (nxt : Seq)
    (ring : Ring UInt8 TCP_RECV_BUFFER) : Prop where
  valid : ring.Valid
  stream : returned ++ ring.contents <+: stream
  nxt : nxt = irs + 1 + BitVec.ofNat 32 (returned.length + ring.count)

def SlotsCarry (irs : Seq) (stream : List UInt8) (slots : List TcpReorderSlot) : Prop :=
  ∀ slot ∈ slots, slot.inUse → Carries irs stream slot.seq slot.data

section

variable {irs nxt : Seq} {stream returned data : List UInt8} {ring : Ring UInt8 TCP_RECV_BUFFER}

theorem Accepted.length_le (h : Accepted irs stream returned nxt ring) :
    returned.length + ring.count ≤ stream.length := by
  have := h.stream.length_le
  rwa [length_append, length_contents] at this

theorem Carries.take (h : Carries irs stream nxt data) (k : Nat) :
    Carries irs stream nxt (data.take k) := by
  obtain ⟨offset, hseq, hle, hdata⟩ := h
  refine ⟨offset, hseq, ?_, ?_⟩
  · rw [length_take]
    omega
  · have htake : data.take k = (stream.drop offset).take (min k data.length) := by
      rw [← take_take, ← hdata]
    rwa [length_take]

section

variable (h : Accepted irs stream returned nxt ring) (hlen : stream.length < 2 ^ 31)
  (hdata : Carries irs stream nxt data)

include h hlen hdata

/-- Bytes at `rcv_nxt` extend the prefix. -/
theorem Accepted.push (hroom : data.length ≤ TCP_RECV_BUFFER - ring.count) :
    Accepted irs stream returned (nxt + BitVec.ofNat 32 data.length) (pushAll ring data) := by
  obtain ⟨offset, hseq, hle, hpiece⟩ := hdata
  have hbound := h.length_le
  -- Offsets below half of the sequence space are told apart.
  have hoffset : offset = returned.length + ring.count := by
    have heq := hseq.symm.trans h.nxt
    bv_omega
  obtain ⟨rest, hrest⟩ := h.stream
  have hdrop : stream.drop offset = rest := by
    have hfront : offset = (returned ++ ring.contents).length := by
      rw [length_append, length_contents, hoffset]
    rw [← hrest, hfront, drop_left]
  rw [hdrop] at hpiece
  obtain ⟨hvalid, hcontents⟩ := pushAll_spec data h.valid hroom
  refine ⟨hvalid, ⟨rest.drop data.length, ?_⟩, ?_⟩
  · calc returned ++ (pushAll ring data).contents ++ rest.drop data.length
        = returned ++ ring.contents ++ (rest.take data.length ++ rest.drop data.length) := by
          rw [hcontents, ← hpiece]
          simp only [append_assoc]
      _ = stream := by rw [take_append_drop, hrest]
  · rw [pushAll_count, h.nxt, BitVec.add_assoc, BitVec.ofNat_add_ofNat, Nat.add_assoc]

/-- As much of a piece at `rcv_nxt` as the buffer has room for. -/
theorem Accepted.pushRoom : Accepted irs stream returned
      (nxt + BitVec.ofNat 32 (min data.length (TCP_RECV_BUFFER - ring.count)))
      (pushAll ring (data.take (min data.length (TCP_RECV_BUFFER - ring.count)))) := by
  have htaken : (data.take (min data.length (TCP_RECV_BUFFER - ring.count))).length =
      min data.length (TCP_RECV_BUFFER - ring.count) := by
    rw [length_take]
    omega
  have hpush := h.push hlen (hdata.take (min data.length (TCP_RECV_BUFFER - ring.count))) (by omega)
  rwa [htaken] at hpush

end

/-! ## §2. The reorder slots. -/

theorem drainPass_spec (slots : List TcpReorderSlot) (hlen : stream.length < 2 ^ 31)
    (h : Accepted irs stream returned nxt ring) (hslots : SlotsCarry irs stream slots) :
    Accepted irs stream returned (drainPass nxt ring slots).2.1 (drainPass nxt ring slots).2.2.1 ∧
      SlotsCarry irs stream (drainPass nxt ring slots).2.2.2 := by
  induction slots generalizing nxt ring with
  | nil => exact ⟨h, hslots⟩
  | cons slot rest ih =>
    have htail : SlotsCarry irs stream rest := fun s hs => hslots s (mem_cons_of_mem _ hs)
    unfold drainPass
    by_cases hmatch : (slot.inUse && slot.seq == nxt)
    · rw [if_pos hmatch]
      obtain ⟨huse, hseq⟩ := Bool.and_eq_true_iff.mp hmatch
      have hcarries := hslots slot mem_cons_self huse
      rw [eq_of_beq hseq] at hcarries
      obtain ⟨haccepted, hcarry⟩ := ih (h.pushRoom hlen hcarries) htail
      -- A slot that was not taken as a whole keeps its piece.
      exact ⟨haccepted, forall_mem_cons.mpr ⟨fun _ => hslots slot mem_cons_self huse, hcarry⟩⟩
    · rw [if_neg hmatch]
      obtain ⟨haccepted, hcarry⟩ := ih h htail
      exact ⟨haccepted, forall_mem_cons.mpr ⟨hslots slot mem_cons_self, hcarry⟩⟩

/-- The number of slots in use. -/
def slotsUsed (slots : List TcpReorderSlot) : Nat := slots.countP (·.inUse)

/-- A pass that merges a slot leaves fewer in use. -/
theorem drainPass_used (nxt : Seq) (ring : Ring UInt8 TCP_RECV_BUFFER)
    (slots : List TcpReorderSlot) :
    slotsUsed (drainPass nxt ring slots).2.2.2 + (if (drainPass nxt ring slots).1 then 1 else 0) ≤
      slotsUsed slots := by
  induction slots generalizing nxt ring with
  | nil => exact Nat.le_refl _
  | cons slot rest ih =>
    unfold drainPass slotsUsed
    by_cases hmatch : (slot.inUse && slot.seq == nxt)
    · rw [if_pos hmatch]
      have huse : slot.inUse := (Bool.and_eq_true_iff.mp hmatch).1
      have := ih (nxt + BitVec.ofNat 32 (min slot.data.length (TCP_RECV_BUFFER - ring.count)))
        (pushAll ring (slot.data.take (min slot.data.length (TCP_RECV_BUFFER - ring.count))))
      unfold slotsUsed at this
      rw [countP_cons, countP_cons, huse]
      by_cases hall : min slot.data.length (TCP_RECV_BUFFER - ring.count) = slot.data.length
      · simp only [hall, beq_self_eq_true, Bool.true_or, Bool.not_true] at this ⊢
        simp only [Bool.false_eq_true, if_false]
        omega
      · have hfalse := beq_false_of_ne hall
        simp only [hfalse, Bool.false_or, Bool.not_false]
        omega
    · rw [if_neg hmatch]
      have := ih nxt ring
      unfold slotsUsed at this
      dsimp only
      rw [countP_cons, countP_cons]
      omega

end

/-- The loop of `drain_reorder` ends: more passes than slots in use do nothing more. -/
theorem drainReorder_done (fuel : Nat) (tcb : TcpControlBlock)
    (h : slotsUsed tcb.reorder < fuel) : drainReorder (fuel + 1) tcb = drainReorder fuel tcb := by
  induction fuel generalizing tcb with
  | zero => omega
  | succ fuel ih =>
    unfold drainReorder
    dsimp only
    have hused := drainPass_used tcb.rcvNxt tcb.recv tcb.reorder
    cases hmerged : (drainPass tcb.rcvNxt tcb.recv tcb.reorder).1 with
    | false => rfl
    | true =>
      rw [hmerged, if_pos rfl] at hused
      apply ih
      show slotsUsed (drainPass tcb.rcvNxt tcb.recv tcb.reorder).2.2.2 < fuel
      omega

/-! ## §3. One segment. -/

/-- The receive side of a block. -/
structure SameReceive (a b : TcpControlBlock) : Prop where
  state : b.state = a.state
  rcvNxt : b.rcvNxt = a.rcvNxt
  recv : b.recv = a.recv
  reorder : b.reorder = a.reorder
  finReceived : b.finReceived = a.finReceived

theorem ackOf_same (now : Nat) (tcb : TcpControlBlock) (seg : Segment) :
    SameReceive tcb (tcb.ackOf now seg) := by
  unfold ackOf
  split
  · obtain ⟨_, _, _, _, heq⟩ := processAck_eq now tcb seg.ack seg.window
    rw [heq]
    split <;> exact ⟨rfl, rfl, rfl, rfl, rfl⟩
  · exact ⟨rfl, rfl, rfl, rfl, rfl⟩

/-- The states in which the FIN of the peer is consumed. -/
def TcpState.pastFin : TcpState → Bool
  | .closeWait | .lastAck | .closing | .timeWait => true
  | _ => false

/-- The states of a connection after its handshake. -/
def TcpState.synchronised : TcpState → Bool
  | .established | .finWait1 | .finWait2 => true
  | state => state.pastFin

theorem synchronised_of_pastFin (h : state.pastFin) : state.synchronised := by
  unfold TcpState.synchronised
  split
  · rfl
  · rfl
  · rfl
  · exact h

/-- The states that a segment leads to, some of them only if all that was sent is acknowledged. -/
def stateMoves (acked : Bool) : TcpState → List TcpState
  | .synSent => [.synSent, .established]
  | .synReceived => [.synReceived, .established]
  | .established => [.established, .closeWait]
  | .finWait1 => .finWait1 :: if acked then [.finWait2, .timeWait] else [.closing]
  | .finWait2 => [.finWait2, .timeWait]
  | .closing => .closing :: if acked then [.timeWait] else []
  | state => [state]

/-- The block has received a prefix of the stream, and the FIN only after all of it. -/
structure StreamInv (irs : Seq) (stream returned : List UInt8) (tcb : TcpControlBlock) : Prop where
  synchronised : tcb.state.synchronised
  pastFin : tcb.state.pastFin = tcb.finReceived
  accepted : Accepted irs stream returned
    (if tcb.finReceived then tcb.rcvNxt - 1 else tcb.rcvNxt) tcb.recv
  slots : SlotsCarry irs stream tcb.reorder
  fin : tcb.finReceived → returned.length + tcb.recv.count = stream.length

/-- The segment carries a piece of the stream, and a FIN only at its end. -/
def SegmentCarries (irs : Seq) (stream : List UInt8) (seg : Segment) : Prop :=
  (seg.data ≠ [] → Carries irs stream seg.seq seg.data) ∧
    (seg.flags.fin → seg.seq + BitVec.ofNat 32 seg.data.length =
      irs + 1 + BitVec.ofNat 32 stream.length)

section

variable {irs : Seq} {stream returned : List UInt8} {tcb next : TcpControlBlock} {seg : Segment}
  {now : Nat}

theorem drainReorder_spec (fuel : Nat) (hlen : stream.length < 2 ^ 31)
    (h : Accepted irs stream returned tcb.rcvNxt tcb.recv)
    (hslots : SlotsCarry irs stream tcb.reorder) :
    Accepted irs stream returned (drainReorder fuel tcb).rcvNxt (drainReorder fuel tcb).recv ∧
      SlotsCarry irs stream (drainReorder fuel tcb).reorder := by
  induction fuel generalizing tcb with
  | zero => exact ⟨h, hslots⟩
  | succ fuel ih =>
    obtain ⟨haccepted, hcarry⟩ := drainPass_spec tcb.reorder hlen h hslots
    unfold drainReorder
    dsimp only
    split
    · exact ih haccepted hcarry
    · exact ⟨haccepted, hcarry⟩

theorem storeReorder_carry {slot : TcpReorderSlot} (slots : List TcpReorderSlot)
    (hslot : Carries irs stream slot.seq slot.data) (h : SlotsCarry irs stream slots) :
    SlotsCarry irs stream (storeReorder slot slots) := by
  induction slots with
  | nil => exact h
  | cons first rest ih =>
    have htail : SlotsCarry irs stream rest := fun s hs => h s (mem_cons_of_mem _ hs)
    unfold storeReorder
    split
    · exact forall_mem_cons.mpr ⟨h first mem_cons_self, ih htail⟩
    · exact forall_mem_cons.mpr ⟨fun _ => hslot, htail⟩

/-- `accept_data` with a piece of the stream. -/
theorem acceptData_spec (hlen : stream.length < 2 ^ 31)
    (hseg : seg.data ≠ [] → Carries irs stream seg.seq seg.data)
    (h : Accepted irs stream returned tcb.rcvNxt tcb.recv)
    (hslots : SlotsCarry irs stream tcb.reorder) :
    Accepted irs stream returned (tcb.acceptData seg.seq seg.data).2.rcvNxt
        (tcb.acceptData seg.seq seg.data).2.recv ∧
      SlotsCarry irs stream (tcb.acceptData seg.seq seg.data).2.reorder := by
  unfold acceptData
  by_cases hdata : seg.data = []
  · rw [if_pos hdata]
    exact ⟨h, hslots⟩
  rw [if_neg hdata]
  by_cases hseq : seg.seq = tcb.rcvNxt
  · rw [if_pos hseq]
    have hcarries := hseg hdata
    rw [hseq] at hcarries
    exact drainReorder_spec _ hlen (h.pushRoom hlen hcarries) hslots
  · rw [if_neg hseq]
    split
    · split
      · exact ⟨h, hslots⟩
      · exact ⟨h, storeReorder_carry _ ((hseg hdata).take TCP_MSS) hslots⟩
    · exact ⟨h, hslots⟩

/-- What is left of the invariant while the data of a segment is taken. -/
structure Taken (irs : Seq) (stream returned : List UInt8) (tcb taken : TcpControlBlock) :
    Prop where
  state : taken.state = tcb.state
  finReceived : taken.finReceived = false
  accepted : Accepted irs stream returned taken.rcvNxt taken.recv
  slots : SlotsCarry irs stream taken.reorder

theorem StreamInv.taken (h : StreamInv irs stream returned tcb) (now : Nat)
    (hlen : stream.length < 2 ^ 31)
    (hseg : SegmentCarries irs stream seg) (hopen : tcb.state.pastFin = false) :
    Taken irs stream returned tcb ((tcb.ackOf now seg).acceptData seg.seq seg.data).2 := by
  have hfin : tcb.finReceived = false := h.pastFin.symm.trans hopen
  have hsame := ackOf_same now tcb seg
  have haccepted := h.accepted
  rw [hfin, if_neg Bool.false_ne_true, ← hsame.rcvNxt, ← hsame.recv] at haccepted
  obtain ⟨hnew, hslots⟩ := acceptData_spec hlen hseg.1 haccepted (hsame.reorder ▸ h.slots)
  obtain ⟨nxt, ring, slots, heq⟩ := acceptData_eq (tcb.ackOf now seg) seg.seq seg.data
  refine ⟨?_, ?_, hnew, hslots⟩
  · rw [heq]
    exact hsame.state
  · rw [heq]
    exact hsame.finReceived.trans hfin

/-- The invariant after data, in an open state. -/
theorem Taken.inv (h : Taken irs stream returned tcb next) (hsync : state.synchronised)
    (hopen : state.pastFin = false) :
    StreamInv irs stream returned { next with state := state } := by
  refine ⟨hsync, hopen.trans h.finReceived.symm, ?_, h.slots, fun hfin => ?_⟩
  · show Accepted irs stream returned (if next.finReceived then _ else _) next.recv
    rw [h.finReceived]
    exact h.accepted
  · cases h.finReceived.symm.trans hfin

/-- A FIN that comes next is at the end of what was accepted. -/
theorem Taken.takeFin (h : Taken irs stream returned tcb next) (hlen : stream.length < 2 ^ 31)
    (hseg : SegmentCarries irs stream seg) (hfin : next.finNext seg) {deadline : Nat}
    (hpast : state.pastFin) : StreamInv irs stream returned
      { next.takeFin with state := state, timeWaitDeadlineTick := deadline } := by
  obtain ⟨hflag, hleq⟩ := Bool.and_eq_true_iff.mp hfin
  have hend : returned.length + next.recv.count = stream.length := by
    have hle := h.accepted.length_le
    rw [hseg.2 hflag, h.accepted.nxt, seqLeq_iff] at hleq
    bv_omega
  refine ⟨synchronised_of_pastFin hpast, hpast, ?_, h.slots, fun _ => hend⟩
  show Accepted irs stream returned (next.rcvNxt + 1 - 1) next.recv
  rw [BitVec.add_sub_cancel]
  exact h.accepted

/-- The send side changes, and the state, but not across the FIN. -/
theorem StreamInv.same (h : StreamInv irs stream returned tcb)
    (hsame : SameReceive { tcb with state := state } next) (hsync : state.synchronised)
    (hpast : state.pastFin = tcb.state.pastFin) : StreamInv irs stream returned next := by
  obtain ⟨hstate, hnxt, hrecv, hreorder, hfin⟩ := hsame
  constructor <;> simp only [hstate, hnxt, hrecv, hreorder, hfin]
  · exact hsync
  · exact hpast.trans h.pastFin
  · exact h.accepted
  · exact h.slots
  · exact h.fin

/-- Before the FIN of the peer, a segment brings data and maybe the FIN. -/
theorem handled_open (now : Nat) (hsync : tcb.state.synchronised)
    (hopen : tcb.state.pastFin = false) (hrst : seg.flags.rst = false) : ∃ past still deadline,
      past.pastFin ∧ still.synchronised ∧ still.pastFin = false ∧
      (still = .established → tcb.state = .established) ∧ [past, still] ⊆ stateMoves
        ((tcb.ackOf now seg).sndUna == (tcb.ackOf now seg).sndNxt) tcb.state ∧
      tcb.handled now seg = (let taken := ((tcb.ackOf now seg).acceptData seg.seq seg.data).2
        if taken.finNext seg then
          some { taken.takeFin with state := past, timeWaitDeadlineTick := deadline }
        else some { taken with state := still }) := by
  set acked := tcb.ackOf now seg
  obtain ⟨nxt, ring, slots, heq⟩ := acceptData_eq acked seg.seq seg.data
  have hkeep : (acked.acceptData seg.seq seg.data).2.state = tcb.state := by
    rw [heq]
    exact (ackOf_same now tcb seg).state
  have hall : ((acked.acceptData seg.seq seg.data).2.sndUna ==
      (acked.acceptData seg.seq seg.data).2.sndNxt) = (acked.sndUna == acked.sndNxt) := by
    rw [heq]
  unfold handled arrive
  rw [hrst, if_neg Bool.false_ne_true]
  generalize acked.acceptData seg.seq seg.data = taken at hkeep hall ⊢
  rw [← hall]
  have hself : taken.2 = { taken.2 with state := tcb.state } := by rw [← hkeep]
  cases hstate : tcb.state with
  | closed | listen | synSent | synReceived =>
    rw [hstate] at hsync
    cases hsync
  | closing | closeWait | lastAck | timeWait =>
    rw [hstate] at hopen
    cases hopen.symm
  | established =>
    refine ⟨.closeWait, .established, taken.2.timeWaitDeadlineTick, rfl, rfl, rfl, fun _ => rfl,
      by simp [stateMoves], ?_⟩
    rw [hstate] at hself
    cases hfin : taken.2.finNext seg with
    | true => simp [hfin, afterAck, takeFin]
    | false =>
      cases htaken : taken.1 with
      | true => simpa [hfin, htaken, afterAck] using hself
      | false => simpa [hfin, htaken] using hself
  | finWait1 =>
    rw [hstate] at hself
    cases hacked : taken.2.sndUna == taken.2.sndNxt with
    | true =>
      refine ⟨.timeWait, .finWait2, now + 2 * TCP_MSL_TICKS, rfl, rfl, rfl, nofun,
        by simp [stateMoves], ?_⟩
      cases hfin : taken.2.finNext seg with
      | true => simp [hfin, hacked, afterAck, enterTimeWait]
      | false => simp [hfin, hacked]
    | false =>
      refine ⟨.closing, .finWait1, taken.2.timeWaitDeadlineTick, rfl, rfl, rfl, nofun,
        by simp [stateMoves], ?_⟩
      cases hfin : taken.2.finNext seg with
      | true => simp [hfin, hacked, afterAck, takeFin]
      | false => simpa [hfin, hacked] using hself
  | finWait2 =>
    refine ⟨.timeWait, .finWait2, now + 2 * TCP_MSL_TICKS, rfl, rfl, rfl, nofun,
      by simp [stateMoves], ?_⟩
    rw [hstate] at hself
    cases hfin : taken.2.finNext seg with
    | true => simp [hfin, afterAck, enterTimeWait]
    | false => simpa [hfin] using hself

theorem handled_rst (hnext : tcb.handled now seg = some next) : seg.flags.rst = false := by
  refine Bool.eq_false_iff.mpr fun hrst => ?_
  unfold handled arrive at hnext
  rw [hrst, if_pos rfl] at hnext
  cases hnext

/-- After it, a segment moves the send side and the state only. -/
theorem handled_past (hpast : tcb.state.pastFin) (hnext : tcb.handled now seg = some next) :
    ∃ mid state deadline, (mid = tcb ∨ mid = tcb.ackOf now seg) ∧ state.pastFin ∧
      state ∈ stateMoves (mid.sndUna == mid.sndNxt) tcb.state ∧
      next = { mid with state := state, timeWaitDeadlineTick := deadline } := by
  have hsame := ackOf_same now tcb seg
  have hrst := handled_rst hnext
  unfold handled arrive at hnext
  rw [hrst, if_neg Bool.false_ne_true] at hnext
  generalize tcb.ackOf now seg = acked at hnext hsame ⊢
  have hself : acked = { acked with state := tcb.state } := by rw [← hsame.state]
  cases hstate : tcb.state with
  | closing =>
    rw [hstate] at hnext hself
    cases hall : acked.sndUna == acked.sndNxt with
    | true =>
      simp only [hall, if_true, Option.some.injEq] at hnext
      exact ⟨acked, .timeWait, _, .inr rfl, rfl, by rw [hall]; exact .tail _ (.head _), hnext.symm⟩
    | false =>
      simp only [hall, Bool.false_eq_true, if_false, Option.some.injEq] at hnext
      exact ⟨acked, .closing, _, .inr rfl, rfl, mem_cons_self, hnext.symm.trans hself⟩
  | closeWait =>
    rw [hstate] at hnext hself
    exact ⟨acked, .closeWait, _, .inr rfl, rfl, mem_cons_self,
      (Option.some.inj hnext).symm.trans hself⟩
  | lastAck =>
    rw [hstate] at hnext hself
    cases hall : acked.sndUna == acked.sndNxt with
    | true =>
      simp only [hall, if_true] at hnext
      cases hnext
    | false =>
      simp only [hall, Bool.false_eq_true, if_false, Option.some.injEq] at hnext
      exact ⟨acked, .lastAck, _, .inr rfl, rfl, mem_cons_self, hnext.symm.trans hself⟩
  | timeWait =>
    have hkeep : next = tcb := by
      rw [hstate] at hnext
      cases hfin : seg.flags.fin with
      | true => simpa [hfin, afterAck, eq_comm] using hnext
      | false => simpa [hfin, eq_comm] using hnext
    refine ⟨tcb, .timeWait, tcb.timeWaitDeadlineTick, .inl rfl, rfl, mem_cons_self, ?_⟩
    rw [hkeep, ← hstate]
  | _ =>
    rw [hstate] at hpast
    cases hpast

/-- One segment keeps the invariant. -/
theorem arrive_kept (h : StreamInv irs stream returned tcb) (hlen : stream.length < 2 ^ 31)
    (hseg : SegmentCarries irs stream seg) (hnext : tcb.handled now seg = some next) :
    StreamInv irs stream returned next := by
  cases hpast : tcb.state.pastFin with
  | true =>
    obtain ⟨mid, state, deadline, hmid, hstate, _, rfl⟩ := handled_past hpast hnext
    have hsame : SameReceive tcb mid := by
      cases hmid with
      | inl heq => exact heq ▸ ⟨rfl, rfl, rfl, rfl, rfl⟩
      | inr heq => exact heq ▸ ackOf_same now tcb seg
    exact h.same ⟨rfl, hsame.rcvNxt, hsame.recv, hsame.reorder, hsame.finReceived⟩
      (synchronised_of_pastFin hstate) (hstate.trans hpast.symm)
  | false =>
    have hrst := handled_rst hnext
    have htaken := h.taken now hlen hseg hpast
    obtain ⟨past, still, deadline, hp, hsync, hopen, _, _, heq⟩ :=
      handled_open now h.synchronised hpast hrst
    rw [heq] at hnext
    dsimp only at hnext
    split at hnext
    case isTrue hfin =>
        cases hnext
        exact htaken.takeFin hlen hseg hfin hp
    case isFalse =>
        cases hnext
        exact htaken.inv hsync hopen

end

/-! ## §4. Runs. -/

/-- What happens to an established block: segments arrive, its owner reads and closes. -/
inductive StreamOp where
  | segment (now : Nat) (seg : Segment)
  | receive (cap : Nat)
  | close (now : Nat)

/-- The block, until it is recycled, and what reads have returned. -/
abbrev StreamState := Option TcpControlBlock × List UInt8

def streamStep : StreamState → StreamOp → StreamState
  | (none, returned), _ => (none, returned)
  | (some tcb, returned), .segment now seg => (tcb.handled now seg, returned)
  | (some tcb, returned), .receive cap =>
    (some (tcb.tcpReceive cap).2, returned ++ (tcb.tcpReceive cap).1)
  | (some tcb, returned), .close now =>
    (some (((tcb.tcpClose now).map Prod.fst).getD tcb), returned)

def streamRun (s : StreamState) (ops : List StreamOp) : StreamState := ops.foldl streamStep s

def StreamOp.Carries (irs : Seq) (stream : List UInt8) : StreamOp → Prop
  | .segment _ seg => SegmentCarries irs stream seg
  | _ => True

/-- A block right after its handshake. -/
structure Fresh (irs : Seq) (tcb : TcpControlBlock) : Prop where
  state : tcb.state = .established
  rcvNxt : tcb.rcvNxt = irs + 1
  valid : tcb.recv.Valid
  empty : tcb.recv.count = 0
  slots : ∀ slot ∈ tcb.reorder, slot.inUse = false
  finReceived : tcb.finReceived = false

section

variable {irs : Seq} {stream returned : List UInt8} {tcb next : TcpControlBlock}

theorem Fresh.inv (h : Fresh irs tcb) : StreamInv irs stream [] tcb := by
  refine ⟨?_, ?_, ?_, ?_, fun hfin => ?_⟩
  · rw [h.state]
    rfl
  · rw [h.state, h.finReceived]
    rfl
  · rw [h.finReceived, if_neg Bool.false_ne_true]
    refine ⟨h.valid, ?_, ?_⟩
    · rw [contents_of_count_zero h.empty]
      exact nil_prefix
    · rw [h.rcvNxt, h.empty]
      exact (BitVec.add_zero _).symm
  · intro slot hslot huse
    cases (h.slots slot hslot).symm.trans huse
  · cases h.finReceived.symm.trans hfin

theorem receive_kept (h : StreamInv irs stream returned tcb) (cap : Nat) :
    StreamInv irs stream (returned ++ (tcb.tcpReceive cap).1) (tcb.tcpReceive cap).2 := by
  set taken := takeUpTo cap tcb.recv
  obtain ⟨hvalid, hcontents⟩ := takeUpTo_spec cap h.accepted.valid
  have hcount : tcb.recv.count = taken.1.length + taken.2.count := by
    rw [← length_contents, hcontents, length_append, length_contents]
  have hlength : (returned ++ (tcb.tcpReceive cap).1).length + (tcb.tcpReceive cap).2.recv.count =
      returned.length + tcb.recv.count := by
    rw [length_append]
    show returned.length + taken.1.length + taken.2.count = _
    omega
  refine ⟨h.synchronised, h.pastFin, ⟨hvalid, ?_, ?_⟩, h.slots, fun hfin => ?_⟩
  · show returned ++ taken.1 ++ taken.2.contents <+: _
    rw [append_assoc, ← hcontents]
    exact h.accepted.stream
  · rw [hlength]
    exact h.accepted.nxt
  · rw [hlength]
    exact h.fin hfin

/-- Closing our side leaves the receive side alone. -/
theorem emitNew_same {now : Nat} {flags : Flags} {data : List UInt8} {seg : Segment}
    (h : tcb.emitNew now flags data = some (next, seg)) : SameReceive tcb next := by
  obtain ⟨_, _, rfl, _⟩ := emitNew_eq h
  exact ⟨rfl, rfl, rfl, rfl, rfl⟩

theorem emitFin_same (now : Nat) (tcb : TcpControlBlock) (state : TcpState) :
    SameReceive { tcb with state := state } (tcb.emitFin now state).1 := by
  unfold emitFin
  dsimp only
  split
  case h_1 hemit =>
    have hsame := emitNew_same hemit
    exact ⟨hsame.state, hsame.rcvNxt, hsame.recv, hsame.reorder, hsame.finReceived⟩
  case h_2 => exact ⟨rfl, rfl, rfl, rfl, rfl⟩

theorem close_kept (h : StreamInv irs stream returned tcb) (now : Nat) :
    StreamInv irs stream returned (((tcb.tcpClose now).map Prod.fst).getD tcb) := by
  unfold tcpClose
  cases hstate : tcb.state with
  | established => exact h.same (emitFin_same now tcb _) rfl (by rw [hstate]; rfl)
  | closeWait => exact h.same (emitFin_same now tcb _) rfl (by rw [hstate]; rfl)
  | _ => exact h

/-- A run keeps the invariant as long as the block lives. -/
theorem streamRun_inv (hlen : stream.length < 2 ^ 31) (ops : List StreamOp)
    (hops : ∀ op ∈ ops, op.Carries irs stream) (s : StreamState)
    (h : s.2 <+: stream ∧ ∀ tcb, s.1 = some tcb → StreamInv irs stream s.2 tcb) :
    (streamRun s ops).2 <+: stream ∧
      ∀ tcb, (streamRun s ops).1 = some tcb → StreamInv irs stream (streamRun s ops).2 tcb := by
  induction ops generalizing s with
  | nil => exact h
  | cons op ops ih =>
    refine ih (fun o ho => hops o (mem_cons_of_mem _ ho)) (streamStep s op) ?_
    have hop := hops op mem_cons_self
    obtain ⟨block, returned⟩ := s
    cases block with
    | none => exact ⟨h.1, nofun⟩
    | some tcb =>
      have hinv := h.2 tcb rfl
      cases op with
      | segment =>
        exact ⟨h.1, fun next hnext => arrive_kept hinv hlen hop hnext⟩
      | receive cap =>
        have hkept := receive_kept hinv cap
        refine ⟨IsPrefix.trans ⟨_, rfl⟩ hkept.accepted.stream, fun next hnext => ?_⟩
        cases hnext
        exact hkept
      | close now =>
        refine ⟨h.1, fun next hnext => ?_⟩
        cases hnext
        exact close_kept hinv now

end

/-- The bytes returned are a prefix of the peer's stream, `rcv_nxt` counts what was accepted
and the FIN, the buffer does not overflow, and the end is reported after the last byte. -/
theorem receive_stream (irs : Seq) (stream : List UInt8) (hlen : stream.length < 2 ^ 31)
    (tcb : TcpControlBlock) (htcb : Fresh irs tcb) (ops : List StreamOp)
    (hops : ∀ op ∈ ops, op.Carries irs stream) : (streamRun (some tcb, []) ops).2 <+: stream ∧
      ∀ next, (streamRun (some tcb, []) ops).1 = some next → next.rcvNxt = irs + 1 + BitVec.ofNat 32
            ((streamRun (some tcb, []) ops).2.length + next.recv.count) +
          (if next.finReceived then 1 else 0) ∧ next.recv.count ≤ TCP_RECV_BUFFER ∧
        (next.tcpPeerClosed = true → (streamRun (some tcb, []) ops).2 = stream) := by
  obtain ⟨hfront, hinv⟩ := streamRun_inv hlen ops hops (some tcb, [])
    ⟨⟨stream, rfl⟩, fun t ht => by cases ht; exact htcb.inv⟩
  refine ⟨hfront, fun next hnext => ?_⟩
  have h := hinv next hnext
  refine ⟨?_, h.accepted.valid.count_le, fun hclosed => ?_⟩
  · rw [← h.accepted.nxt]
    cases next.finReceived with
    | true => exact (BitVec.sub_add_cancel _ _).symm
    | false => exact (BitVec.add_zero _).symm
  · -- Every state that reports the end is past the FIN.
    obtain ⟨hempty, hstate⟩ := Bool.and_eq_true_iff.mp hclosed
    have hfin : next.finReceived := by
      rw [← h.pastFin]
      have hpast := h.pastFin
      simp only [Bool.or_eq_true, beq_iff_eq] at hstate
      rcases hstate with (((hfin | hs) | hs) | hs) | hs
      · exact hpast.trans hfin
      all_goals rw [hs]; rfl
    have hall := h.fin hfin
    rw [eq_of_beq hempty, Nat.add_zero] at hall
    exact hfront.eq_of_length hall

/-- An established block whose sequence space wraps after two bytes. -/
def wrapBlock : TcpControlBlock :=
  { zero with active := true, state := .established, rcvNxt := 0xfffffffe }

/-- A segment of the peer. -/
def peerSegment (seq : Seq) (flags : Flags) (data : List UInt8) : Segment :=
  ⟨40000, 7000, seq, 0, flags, 1024, data⟩

/-- The tail of the stream comes first, then all of it, then the FIN. -/
def wrapOps : List StreamOp :=
  [.segment 0 (peerSegment 0xffffffff Flags.pushAck [2, 3]),
    .segment 0 (peerSegment 0xfffffffe Flags.pushAck [1, 2]),
    .segment 0 (peerSegment 0xfffffffe Flags.pushAck [1]), .receive 2,
    .segment 0 (peerSegment 0xffffffff Flags.finAck [2, 3]), .receive 2]

theorem receive_stream_wrap : (∀ op ∈ wrapOps, op.Carries 0xfffffffd [1, 2, 3]) ∧
    (streamRun (some wrapBlock, []) wrapOps).2 <+: [1, 2, 3] := by
  have hops : ∀ op ∈ wrapOps, op.Carries 0xfffffffd [1, 2, 3] := by
    have hfirst : Carries 0xfffffffd [1, 2, 3] 0xfffffffe [1] :=
      ⟨0, by decide, by decide, by decide⟩
    have hfront : Carries 0xfffffffd [1, 2, 3] 0xfffffffe [1, 2] :=
      ⟨0, by decide, by decide, by decide⟩
    have htail : Carries 0xfffffffd [1, 2, 3] 0xffffffff [2, 3] :=
      ⟨1, by decide, by decide, by decide⟩
    simp only [wrapOps, forall_mem_cons, not_mem_nil, false_implies, implies_true, and_true]
    exact ⟨⟨fun _ => htail, nofun⟩, ⟨fun _ => hfront, nofun⟩, ⟨fun _ => hfirst, nofun⟩, trivial,
      ⟨fun _ => htail, fun _ => by decide⟩, trivial⟩
  refine ⟨hops, (receive_stream 0xfffffffd [1, 2, 3] (by decide) wrapBlock ?_ wrapOps hops).1⟩
  exact ⟨rfl, rfl, ⟨by decide, by decide, by decide⟩, rfl, by decide, rfl⟩

end BigOS.Net
