/-
  BigOS.Ipc.Pipe.Stream — the bytes that come out of a pipe are those put in.

  One invariant carries the stream: what reads have returned, followed by what
  is in the buffer, is what writes have stored.  It is kept by every event.

  A write that stores some of its bytes and then stops (the reader has gone, the
  buffer is full and it may not wait, or its wait is interrupted) returns
  `Success` and reports zero bytes; `CutShort` says, from the state before the
  event, when that happens.

  Main results:
    • `step_inv`, `run_inv` — the stream invariant,
    • `step_adds` — an event adds a wrong report exactly when it cuts a write short,
    • `pipe_byte_stream` — the two for every run.
-/
import BigOS.Ipc.Pipe.Model

namespace BigOS.Ipc

open BigOS.Lib List

/-! ## §1. The stream invariant. -/

/-- A writer in a queue has stored the bytes it counts. -/
def Writer.Counted (w : Writer) : Prop := w.stored.length = w.done

structure Inv (s : State) : Prop where
  ring : s.pipe.ring.Valid
  stream : s.delivered ++ s.pipe.ring.contents = s.stored
  waiting : ∀ w ∈ s.writeWq, w.Counted
  woken : ∀ w ∈ s.wokenWriters, w.1.Counted

section

variable {s : State} {tid len : Nat} {src rest stored : List UInt8} {done : Nat}
  {canWait : Bool}

theorem delivered_finish (r : Return) : (s.finish r).delivered = s.delivered ++ r.bytes := by
  unfold State.delivered State.finish
  simp

section

variable (h : Inv s) {r : Return}

include h

/-- A return that delivers nothing. -/
theorem Inv.finish (hr : r.bytes = []) : Inv (s.finish r) := by
  refine ⟨h.ring, ?_, h.waiting, h.woken⟩
  rw [delivered_finish, hr, append_nil]
  exact h.stream

theorem Inv.wakeReaders : Inv s.wakeReaders := ⟨h.ring, h.stream, h.waiting, h.woken⟩

theorem Inv.wakeWriters : Inv s.wakeWriters := by
  refine ⟨h.ring, h.stream, fun w hw => absurd hw not_mem_nil, fun w hw => ?_⟩
  rcases mem_append.mp hw with hw | hw
  · exact h.woken w hw
  · obtain ⟨w', hw', rfl⟩ := mem_map.mp hw
    exact h.waiting w' hw'

theorem Inv.store (hroom : s.pipe.ring.count < PIPE_CAPACITY) (b : UInt8) : Inv (s.store b) := by
  refine ⟨h.ring.push hroom, ?_, h.waiting, h.woken⟩
  show s.delivered ++ (s.pipe.ring.push b).contents = s.stored ++ [b]
  rw [Ring.contents_push h.ring hroom, ← append_assoc, h.stream]

/-- The bytes taken out are delivered by the same event. -/
theorem copyRead_inv : Inv (copyRead s tid len) := by
  obtain ⟨hvalid, hcontents⟩ := Ring.takeUpTo_spec len h.ring
  have hwoken := h.wakeWriters
  refine ⟨hvalid, ?_, hwoken.waiting, hwoken.woken⟩
  unfold copyRead
  rw [delivered_finish]
  show s.delivered ++ (Ring.takeUpTo len s.pipe.ring).1 ++
    (Ring.takeUpTo len s.pipe.ring).2.contents = s.stored
  rw [append_assoc, ← hcontents, h.stream]

theorem finishRead_inv : Inv (finishRead s tid len) := by
  unfold finishRead
  split
  · exact h.finish rfl
  · exact copyRead_inv h

theorem pipeRead_inv (dstNull : Bool) : Inv (pipeRead s tid len dstNull canWait) := by
  unfold pipeRead
  split
  · exact h.finish rfl
  split
  · exact h.finish rfl
  split
  · exact h.finish rfl
  split
  · split
    · exact h.finish rfl
    split
    · exact finishRead_inv h
    · exact ⟨h.ring, h.stream, h.waiting, h.woken⟩
  · exact finishRead_inv h

theorem writeLoop_inv (hcounted : stored.length = done) :
    Inv (writeLoop tid src canWait rest done stored s) := by
  induction rest generalizing s done stored with
  | nil => exact h.finish rfl
  | cons b rest ih =>
    unfold writeLoop
    split
    · exact h.finish rfl
    split
    · split
      · exact h.finish rfl
      refine ⟨h.ring, h.stream, fun w hw => ?_, h.woken⟩
      rcases mem_append.mp hw with hw | hw
      · exact h.waiting w hw
      · rw [mem_singleton.mp hw]
        exact hcounted
    · rename_i hfull
      have hroom : s.pipe.ring.count < PIPE_CAPACITY := Nat.lt_of_le_of_ne h.ring.count_le hfull
      apply ih (h.store hroom b).wakeReaders
      rw [length_append, hcounted]
      rfl

theorem pipeWrite_inv (srcNull : Bool) : Inv (pipeWrite s tid src srcNull canWait) := by
  unfold pipeWrite
  split
  · exact h.finish rfl
  split
  · exact h.finish rfl
  split
  · exact h.finish rfl
  · exact writeLoop_inv h rfl

theorem resumeRead_inv (r : Reader) (point : Point) : Inv (resumeRead s r point) := by
  cases point with
  | interrupted => exact h.finish rfl
  | tested => exact finishRead_inv h
  | copies => exact copyRead_inv h

theorem resumeWrite_inv {w : Writer} (hw : w.Counted) (ok : Bool) :
    Inv (resumeWrite s w ok canWait) := by
  unfold resumeWrite
  split
  · exact writeLoop_inv h hw
  · exact h.finish rfl

theorem step_inv (e : Event) : Inv (step s e) := by
  cases e with
  | read tid len dstNull => exact pipeRead_inv h dstNull
  | write tid src srcNull => exact pipeWrite_inv h srcNull
  | enterReader tid len dstNull =>
    dsimp only [step, enterRead]
    split
    · exact ⟨h.ring, h.stream, h.waiting, h.woken⟩
    · exact h
  | testReader i =>
    dsimp only [step]
    split
    · split
      · exact h
      · exact ⟨h.ring, h.stream, h.waiting, h.woken⟩
    · exact h
  | resumeReader i =>
    dsimp only [step]
    cases s.wokenReaders[i]? with
    | none => exact h
    | some r =>
      have hrest : Inv { s with wokenReaders := s.wokenReaders.eraseIdx i } :=
        ⟨h.ring, h.stream, h.waiting, h.woken⟩
      exact resumeRead_inv hrest r.1 r.2
  | resumeWriter i canWait =>
    dsimp only [step]
    cases hw : s.wokenWriters[i]? with
    | none => exact h
    | some w =>
      have hrest : Inv { s with wokenWriters := s.wokenWriters.eraseIdx i } :=
        ⟨h.ring, h.stream, h.waiting, fun w hw => h.woken w (mem_of_mem_eraseIdx hw)⟩
      exact resumeWrite_inv hrest (h.woken w (mem_of_getElem? hw)) w.2
  | interruptReader i =>
    dsimp only [step]
    cases s.readWq[i]? with
    | none => exact h
    | some => exact ⟨h.ring, h.stream, h.waiting, h.woken⟩
  | interruptWriter i =>
    dsimp only [step]
    cases hw : s.writeWq[i]? with
    | none => exact h
    | some w =>
      refine ⟨h.ring, h.stream, fun w hw => h.waiting w (mem_of_mem_eraseIdx hw), ?_⟩
      intro w' hw'
      rcases mem_append.mp hw' with hw' | hw'
      · exact h.woken w' hw'
      · rw [mem_singleton.mp hw']
        exact h.waiting w (mem_of_getElem? hw)
  | closeRead =>
    dsimp only [step, closeRead]
    split
    · exact Inv.wakeWriters ⟨h.ring, h.stream, h.waiting, h.woken⟩
    · exact h
  | closeWrite =>
    dsimp only [step, closeWrite]
    split
    · exact Inv.wakeReaders ⟨h.ring, h.stream, h.waiting, h.woken⟩
    · exact h

theorem run_inv (events : List Event) : Inv (run s events) := by
  induction events generalizing s with
  | nil => exact h
  | cons e events ih => exact ih (step_inv h e)

end

end

theorem create_inv : Inv create := by
  refine ⟨⟨by decide, by decide, by decide⟩, rfl, ?_, ?_⟩
  · exact fun w hw => absurd hw not_mem_nil
  · exact fun w hw => absurd hw not_mem_nil

/-! ## §2. What a write reports. -/

/-- A write that returns `Success` reports what it has stored. -/
def Return.Exact : Return → Prop
  | .read .. => True
  | .write _ _ status bytesWritten stored => status = .success → bytesWritten = stored.length

/-- Going on with `rest` after `done` bytes would stop part-way. -/
def StopsPartWay (s : State) (canWait : Bool) (done : Nat) (rest : List UInt8) : Prop :=
  if s.pipe.readOpen then
    canWait = false ∧ PIPE_CAPACITY < s.pipe.ring.count + rest.length ∧
      (0 < done ∨ s.pipe.ring.count < PIPE_CAPACITY)
  else 0 < done ∧ rest ≠ []

/-- The event lets a write stop after it has stored some of its bytes, but not
all: the read end is closed, the buffer fills up and the write may not wait, or
its wait is interrupted. -/
def CutShort (s : State) : Event → Prop
  | .write _ src srcNull canWait =>
    s.pipe.writeOpen ∧ srcNull = false ∧ StopsPartWay s canWait 0 src
  | .resumeWriter i canWait =>
    match s.wokenWriters[i]? with
    | none => False
    | some (w, true) => StopsPartWay s canWait w.done w.rest
    | some (w, false) => 0 < w.done
  | _ => False

/-- The event adds returns that all have the property `Q` if and only if `p`
fails. -/
def Adds (Q : Return → Prop) (s s' : State) (p : Prop) : Prop :=
  ∃ new, s'.returns = s.returns ++ new ∧ ((∀ r ∈ new, Q r) ↔ ¬p)

/-- The returns of a run all have a property if and only if no event is bad,
when that is so for each event from a state with the invariant. -/
theorem run_adds {Q : Return → Prop} {bad : State → Event → Prop} {I : State → Prop}
    (hinv : ∀ s e, I s → I (step s e)) (hadds : ∀ s e, I s → Adds Q s (step s e) (bad s e))
    {s : State} (h : I s) (events : List Event) :
    (∀ r ∈ (run s events).returns, Q r) ↔ (∀ r ∈ s.returns, Q r) ∧ Never bad s events := by
  induction events generalizing s with
  | nil => exact ⟨fun hr => ⟨hr, trivial⟩, fun hr => hr.1⟩
  | cons e events ih =>
    obtain ⟨new, hreturns, hexact⟩ := hadds s e h
    have hstep : (∀ r ∈ (step s e).returns, Q r) ↔ (∀ r ∈ s.returns, Q r) ∧ ∀ r ∈ new, Q r := by
      rw [hreturns]
      exact forall_mem_append
    show (∀ r ∈ (run (step s e) events).returns, Q r) ↔
      (∀ r ∈ s.returns, Q r) ∧ ¬bad s e ∧ Never bad (step s e) events
    rw [ih (hinv s e h), hstep, hexact, and_assoc]

section

variable {s s' : State} {tid len : Nat} {src rest stored : List UInt8} {done : Nat}
  {canWait : Bool} {p : Prop} {Q : Return → Prop}

theorem Adds.nothing (h : s'.returns = s.returns) (hp : ¬p) : Adds Q s s' p :=
  ⟨[], by rw [h, append_nil], by simpa using hp⟩

theorem Adds.one (h : Q r ↔ ¬p) : Adds Q s (s.finish r) p := ⟨[r], rfl, by simpa using h⟩

theorem Adds.congr {p' : Prop} (h : Adds Q s s' p) (hp : p ↔ p') : Adds Q s s' p' := by
  obtain ⟨new, hreturns, hnew⟩ := h
  exact ⟨new, hreturns, hnew.trans (not_congr hp)⟩

theorem copyRead_adds : Adds Return.Exact s (copyRead s tid len) False :=
  ⟨[_], rfl, by simp [Return.Exact]⟩

theorem finishRead_adds : Adds Return.Exact s (finishRead s tid len) False := by
  unfold finishRead
  split
  · exact Adds.one ⟨fun _ => not_false, fun _ => trivial⟩
  · exact copyRead_adds

theorem pipeRead_adds (dstNull : Bool) :
    Adds Return.Exact s (pipeRead s tid len dstNull canWait) False := by
  have hread : ∀ status bytes,
      Adds Return.Exact s (s.finish (.read tid len status bytes s.pipe)) False :=
    fun _ _ => Adds.one ⟨fun _ => not_false, fun _ => trivial⟩
  unfold pipeRead
  split
  · exact hread _ _
  split
  · exact hread _ _
  split
  · exact hread _ _
  split
  · split
    · exact hread _ _
    split
    · exact finishRead_adds
    · exact Adds.nothing rfl not_false
  · exact finishRead_adds

/-- A write that stops early reports zero: that is wrong when it has stored
something and returns `Success`. -/
theorem exact_stopped {status : Status} (hstatus : status ≠ .success)
    (hcounted : stored.length = done) :
    (Return.write tid src (if 0 < done then .success else status) 0 stored).Exact ↔ ¬0 < done := by
  show (_ = Status.success → 0 = stored.length) ↔ _
  by_cases hdone : 0 < done
  · rw [if_pos hdone]
    constructor
    · intro h
      have := h rfl
      omega
    · intro h
      exact absurd hdone h
  · rw [if_neg hdone]
    exact ⟨fun _ => hdone, fun _ h => absurd h hstatus⟩

/-- A write that has no more bytes does not stop part-way. -/
theorem not_stopsPartWay_nil (hs : s.pipe.ring.count ≤ PIPE_CAPACITY) :
    ¬StopsPartWay s canWait done [] := by
  unfold StopsPartWay
  split
  · rintro ⟨_, hover, hroom⟩
    rw [length_nil] at hover
    omega
  · exact fun h => h.2 rfl

theorem writeLoop_adds (hs : s.pipe.ring.count ≤ PIPE_CAPACITY) (hcounted : stored.length = done) :
    Adds Return.Exact s (writeLoop tid src canWait rest done stored s)
      (StopsPartWay s canWait done rest) := by
  induction rest generalizing s done stored with
  | nil =>
    exact Adds.one ⟨fun _ => not_stopsPartWay_nil hs, fun _ _ => hcounted.symm⟩
  | cons b rest ih =>
    unfold writeLoop
    split
    · -- The read end is closed.
      rename_i hclosed
      have hopen : s.pipe.readOpen = false := by simpa using hclosed
      apply Adds.one
      rw [exact_stopped (by decide) hcounted]
      unfold StopsPartWay
      rw [hopen]
      simp
    rename_i hopen
    have hopen : s.pipe.readOpen := by simpa using hopen
    split
    · rename_i hfull
      split
      · -- Full, and the write may not wait.
        rename_i hwait
        have hwait : canWait = false := by simpa using hwait
        apply Adds.one
        rw [exact_stopped (by decide) hcounted]
        unfold StopsPartWay
        rw [hopen, if_pos rfl, hfull, length_cons]
        constructor
        · rintro hdone ⟨_, _, hdone' | hlt⟩
          · exact hdone hdone'
          · exact Nat.lt_irrefl _ hlt
        · intro h hdone
          exact h ⟨hwait, by omega, .inl hdone⟩
      · -- Full, and the write waits.
        rename_i hwait
        apply Adds.nothing rfl
        unfold StopsPartWay
        rw [hopen, if_pos rfl]
        rintro ⟨hno, _⟩
        rw [hno] at hwait
        exact hwait rfl
    · -- One byte is stored; whether the rest stops part-way is the same question.
      rename_i hfull
      have hroom : s.pipe.ring.count < PIPE_CAPACITY := Nat.lt_of_le_of_ne hs hfull
      have hlen : (stored ++ [b]).length = done + 1 := by
        rw [length_append, hcounted]
        rfl
      refine Adds.congr (ih (s := (s.store b).wakeReaders) hroom hlen) ?_
      unfold StopsPartWay
      show (if s.pipe.readOpen then canWait = false ∧
        PIPE_CAPACITY < s.pipe.ring.count + 1 + rest.length ∧
        (0 < done + 1 ∨ s.pipe.ring.count + 1 < PIPE_CAPACITY) else _) ↔ _
      rw [hopen, if_pos rfl, if_pos rfl, length_cons]
      constructor
      · rintro ⟨hw, hover, _⟩
        exact ⟨hw, by omega, .inr hroom⟩
      · rintro ⟨hw, hover, _⟩
        exact ⟨hw, by omega, .inl (Nat.succ_pos _)⟩

theorem pipeWrite_adds (hs : s.pipe.ring.count ≤ PIPE_CAPACITY) (srcNull : Bool) :
    Adds Return.Exact s (pipeWrite s tid src srcNull canWait)
      (s.pipe.writeOpen ∧ srcNull = false ∧ StopsPartWay s canWait 0 src) := by
  unfold pipeWrite
  split
  · rename_i hclosed
    have hopen : s.pipe.writeOpen = false := by simpa using hclosed
    exact Adds.one ⟨fun _ h => absurd (hopen.symm.trans h.1) (by decide), fun _ h =>
      absurd h (by decide)⟩
  rename_i hopen
  split
  · rename_i hempty
    subst hempty
    exact Adds.one ⟨fun _ h => not_stopsPartWay_nil hs h.2.2, fun _ _ => rfl⟩
  split
  · rename_i hnull
    exact Adds.one ⟨fun _ h => absurd (hnull.symm.trans h.2.1) (by decide),
      fun _ h => absurd h (by decide)⟩
  rename_i hnull
  refine (writeLoop_adds hs length_nil).congr ?_
  have hopen : s.pipe.writeOpen := by simpa using hopen
  have hnull : srcNull = false := by simpa using hnull
  exact ⟨fun h => ⟨hopen, hnull, h⟩, fun h => h.2.2⟩

/-- The event preempts a reader, interrupts a wait or closes an end. -/
def Event.quiet : Event → Bool
  | .enterReader .. | .testReader _ | .interruptReader _ => true
  | .interruptWriter _ | .closeRead | .closeWrite => true
  | _ => false

/-- No call returns in such an event. -/
theorem step_quiet {e : Event} (he : e.quiet) : (step s e).returns = s.returns := by
  cases e with
  | enterReader tid len dstNull =>
    dsimp only [step, enterRead]
    split <;> rfl
  | testReader i =>
    dsimp only [step]
    split
    · split <;> rfl
    · rfl
  | interruptReader i =>
    dsimp only [step]
    cases s.readWq[i]? <;> rfl
  | interruptWriter i =>
    dsimp only [step]
    cases s.writeWq[i]? <;> rfl
  | closeRead =>
    dsimp only [step, closeRead]
    split <;> rfl
  | closeWrite =>
    dsimp only [step, closeWrite]
    split <;> rfl
  | _ => cases he

/-- An event adds a wrong report exactly when it cuts a write short. -/
theorem step_adds (h : Inv s) (e : Event) : Adds Return.Exact s (step s e) (CutShort s e) := by
  cases e with
  | read tid len dstNull => exact pipeRead_adds dstNull
  | write tid src srcNull => exact pipeWrite_adds h.ring.count_le srcNull
  | resumeReader i =>
    dsimp only [step, CutShort]
    cases s.wokenReaders[i]? with
    | none => exact Adds.nothing rfl not_false
    | some r =>
      obtain ⟨r, point⟩ := r
      cases point with
      | interrupted => exact ⟨[_], rfl, by simp [Return.Exact]⟩
      | tested => exact finishRead_adds (s := { s with wokenReaders := s.wokenReaders.eraseIdx i })
      | copies => exact copyRead_adds (s := { s with wokenReaders := s.wokenReaders.eraseIdx i })
  | resumeWriter i canWait =>
    dsimp only [step, CutShort]
    cases hw : s.wokenWriters[i]? with
    | none => exact Adds.nothing rfl not_false
    | some w =>
      obtain ⟨w, ok⟩ := w
      have hcounted : w.Counted := h.woken (w, ok) (mem_of_getElem? hw)
      cases ok with
      | false =>
        exact ⟨[_], rfl, by simpa using exact_stopped (by decide) hcounted⟩
      | true =>
        exact writeLoop_adds (s := { s with wokenWriters := s.wokenWriters.eraseIdx i })
          h.ring.count_le hcounted
  | enterReader | testReader | interruptReader | interruptWriter | closeRead | closeWrite =>
    exact Adds.nothing (step_quiet rfl) not_false

theorem run_exact (h : Inv s) (events : List Event) : (∀ r ∈ (run s events).returns, r.Exact) ↔
      (∀ r ∈ s.returns, r.Exact) ∧ Never CutShort s events :=
  run_adds (fun _ e hs => step_inv hs e) (fun _ e hs => step_adds hs e) h events

end

/-- In every run reads return a prefix of what writes store, the indices and the
count of the buffer agree, and every successful write reports what it stored if
and only if no event cuts a write short. -/
theorem pipe_byte_stream (events : List Event) :
    (run create events).delivered <+: (run create events).stored ∧
    (run create events).pipe.ring.count ≤ PIPE_CAPACITY ∧
    ((run create events).pipe.ring.head + (run create events).pipe.ring.count) % PIPE_CAPACITY =
      (run create events).pipe.ring.tail ∧
    ((∀ r ∈ (run create events).returns, r.Exact) ↔ Never CutShort create events) := by
  have hinv := run_inv create_inv events
  refine ⟨⟨_, hinv.stream⟩, hinv.ring.count_le, hinv.ring.tail_eq, ?_⟩
  rw [run_exact create_inv]
  exact ⟨fun h => h.2, fun h => ⟨fun r hr => absurd hr not_mem_nil, h⟩⟩

/-- A write of 257 bytes to an empty pipe that may not wait stores 256 of them,
returns `Success` and reports none. -/
theorem cut_write_reports_zero :
    ¬∀ r ∈ (run create [.write 0 (List.replicate 257 0) false false]).returns, r.Exact := by
  rw [run_exact create_inv]
  rintro ⟨_, hnot, _⟩
  apply hnot
  refine ⟨rfl, rfl, ?_⟩
  show _ ∧ _ ∧ _
  refine ⟨rfl, ?_, .inr (by decide)⟩
  rw [length_replicate]
  decide

end BigOS.Ipc
