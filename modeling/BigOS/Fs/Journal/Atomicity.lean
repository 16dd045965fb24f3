/-
  BigOS.Fs.Journal.Atomicity — a crash leaves a transaction done or not done.

  The one thing that can go wrong when all writes succeed lies between the
  descriptor and the commit marker: the marker of the last transaction is still
  there, and if it counts as many records as the new descriptor, recovery takes
  the journal for damaged and refuses to mount.  A commit that fails after its
  marker is durable leaves worse: the sequence number is used again, and the
  marker commits whatever the next attempt has put into the journal so far.

  Main results:
    • `journal_crash_atomic_iff` — crashes in a sequence of commits,
    • `equal_counts_refuse_recovery` — two transactions of two blocks,
    • `journal_error_atomicity` — commits that fail,
    • `failed_commit_replays_mixture` — a replay of two attempts.
-/
import BigOS.Fs.Journal.Commit

namespace BigOS.Fs.Journal

open BigOS.Fs.Bigfs BigOS.Lib.Crash List

variable {β : Type} {dev : Device β} {H : Nat → β} {sb : UInt64 → β → β} {seq : UInt64}
  {t : Transaction β}

/-! ## §1. A sequence of commits, and a crash. -/

/-- Commits one after another. -/
def commitAll (sb : UInt64 → β → β) : UInt64 → Device β → List (Transaction β) → Device β × UInt64
  | seq, dev, [] => (dev, seq)
  | seq, dev, t :: ts => commitAll sb (seq + 1) (commit sb seq dev t) ts

/-- The homes that the transactions make, with no journal. -/
def installAll (sb : UInt64 → β → β) : UInt64 → (Nat → β) → List (Transaction β) → Nat → β
  | _, H, [] => H
  | seq, H, t :: ts => installAll sb (seq + 1) (t.install sb seq H) ts

/-- Recovery succeeds and leaves these homes, however often it is cut. -/
def RecoversTo (H : Nat → β) (dev : Device β) : Prop :=
  ∀ crashes, Withstands write recoveryWrites (fun d => d.homes = H) crashes dev

/-- Wherever the commit of the transaction is cut, recovery leaves the homes as
they were, or as the transaction makes them. -/
def CutAtomic (sb : UInt64 → β → β) (seq : UInt64) (dev : Device β) (H : Nat → β)
    (t : Transaction β) : Prop :=
  EveryCut write (fun d => RecoversTo H d ∨ RecoversTo (t.install sb seq H) d) dev
    (commitWrites sb seq dev.homes t)

/-- A crash in any transaction leaves it done or not done, and those before it
done. -/
def CrashAtomic (sb : UInt64 → β → β) (seq : UInt64) (dev : Device β)
    (ts : List (Transaction β)) : Prop :=
  ∀ before t after, ts = before ++ t :: after →
    CutAtomic sb (commitAll sb seq dev before).2 (commitAll sb seq dev before).1
      (installAll sb seq dev.homes before) t

/-- No transaction has as many records as the commit marker that it finds. -/
def CountsDiffer : Option Nat → List (Transaction β) → Prop
  | _, [] => True
  | stale, t :: ts => stale ≠ some t.count ∧ CountsDiffer (some t.count) ts

theorem cutAtomic_of_count (hidle : Idle dev seq) (hcount : staleCount dev ≠ some t.count) :
    CutAtomic sb seq dev dev.homes t := by
  refine EveryCut.mono (commit_everyCut sb hidle hcount) ?_
  rintro d (hd | hd)
  · exact .inl hd.withstands
  · exact .inr hd.withstands

/-- A crash right after the descriptor, beside a marker of an equal count. -/
theorem scan_after_descriptor (hidle : Idle dev seq) (hcount : staleCount dev = some t.count) :
    scanJournal (write dev (.desc (descriptor JOURNAL_STATE_RECORDS seq t.blocks))) = .corrupt := by
  unfold staleCount at hcount
  split at hcount
  · rename_i hcommit
    apply scan_corrupt
    · exact t.records_valid seq
    · rfl
    · exact hcommit
    · exact hidle.stale hcommit
    · exact Option.some.inj hcount
  · cases hcount

theorem not_recoversTo_of_corrupt (h : scanJournal dev = .corrupt) : ¬RecoversTo H dev := by
  intro hrec
  obtain ⟨ws, hws⟩ := (hrec 0).succeeds
  unfold recoveryWrites recoverJournalBeforePublish at hws
  rw [h] at hws
  exact absurd hws (by simp [Except.toOption])

theorem count_of_cutAtomic (hidle : Idle dev seq) (h : CutAtomic sb seq dev H t) :
    staleCount dev ≠ some t.count := by
  intro hcount
  have hcorrupt := scan_after_descriptor hidle hcount
  -- The cut after one write.
  rcases h 1 with hrec | hrec
  · exact not_recoversTo_of_corrupt hcorrupt hrec
  · exact not_recoversTo_of_corrupt hcorrupt hrec

theorem crashAtomic_cons (hidle : Idle dev seq) (t : Transaction β) (ts : List (Transaction β)) :
    CrashAtomic sb seq dev (t :: ts) ↔
      CutAtomic sb seq dev dev.homes t ∧ CrashAtomic sb (seq + 1) (commit sb seq dev t) ts := by
  obtain ⟨_, hhomes, _⟩ := commit_idle sb hidle t
  constructor
  · intro h
    refine ⟨h [] t ts rfl, fun before u after heq => ?_⟩
    have hu := h (t :: before) u after (by rw [heq, cons_append])
    rw [hhomes]
    exact hu
  · rintro ⟨hfirst, hrest⟩ before u after heq
    cases before with
    | nil =>
      obtain ⟨rfl, _⟩ := cons.inj heq
      exact hfirst
    | cons v before =>
      obtain ⟨rfl, htail⟩ := cons.inj heq
      have hu := hrest before u after htail
      rw [hhomes] at hu
      exact hu

/-- Crashes are atomic, wherever they fall and however often recovery is cut, if
and only if no transaction has as many records as the commit marker it finds. -/
theorem journal_crash_atomic_iff (sb : UInt64 → β → β) (dev : Device β) (seq : UInt64)
    (hidle : Idle dev seq) (ts : List (Transaction β)) :
    CrashAtomic sb seq dev ts ↔ CountsDiffer (staleCount dev) ts := by
  induction ts generalizing dev seq with
  | nil =>
    refine ⟨fun _ => trivial, fun _ before t after heq => ?_⟩
    exact absurd heq (by simp)
  | cons t ts ih =>
    obtain ⟨hnext, _, hstale⟩ := commit_idle sb hidle t
    rw [crashAtomic_cons hidle, ih _ _ hnext, hstale]
    constructor
    · rintro ⟨hcut, hrest⟩
      exact ⟨count_of_cutAtomic hidle hcut, hrest⟩
    · rintro ⟨hcount, hrest⟩
      exact ⟨cutAtomic_of_count hidle hcount, hrest⟩

/-- The journal as formatting leaves it. -/
def formatted (homes : Nat → β) (payload : Nat → β) : Device β where
  homes := homes
  desc := descriptor JOURNAL_STATE_CLEAN 1 []
  commit := zeroMarker
  checkpoint := marker JOURNAL_STATE_CLEAN 1 0
  payload := payload

theorem formatted_idle (homes payload : Nat → β) : Idle (formatted homes payload) 2 where
  checked := ⟨marker_valid _ _ (Nat.zero_le _), rfl⟩
  behind := by
    show (1 : UInt64) ≠ 2
    decide
  stale h := nomatch zeroMarker_invalid.symm.trans h
  sound := .clean (descriptor_clean_valid 1) rfl ⟨marker_valid _ _ (Nat.zero_le _), rfl⟩ rfl

/-- Dirty data blocks with their numbers as contents, a thousand apart. -/
def numberedTransaction (base : Nat) (plan : List Nat) (nodup : plan.Nodup)
    (recoverable : ∀ b ∈ plan, blockIsRecoverableHome b)
    (bounded : (withSuperblock plan).length ≤ JOURNAL_MAX_RECORDS) : Transaction Nat where
  plan := plan
  cached b := base + b
  dirty _ := true
  nodup := nodup
  recoverable := recoverable
  bounded := bounded

def writeOne : Transaction Nat :=
  numberedTransaction 1000 [43] (by decide) (by decide) (by decide)

def writeTwo : Transaction Nat :=
  numberedTransaction 2000 [44, 46] (by decide) (by decide) (by decide)

theorem journal_crash_atomic_iff_formatted : Idle (formatted (fun _ => 0) (fun _ => 0)) 2 ∧
      CrashAtomic (fun _ x => x) 2 (formatted (fun _ => 0) (fun _ => 0)) [writeOne, writeTwo] := by
  have hidle := formatted_idle (fun _ => 0) (fun _ => 0)
  refine ⟨hidle, (journal_crash_atomic_iff _ _ _ hidle _).mpr ⟨?_, ?_, trivial⟩⟩
  · decide +kernel
  · decide +kernel

def writeAnother : Transaction Nat :=
  numberedTransaction 2000 [44] (by decide) (by decide) (by decide)

/-- Two transactions of two blocks each, and a crash right after the descriptor of
the second: the device no longer mounts. -/
theorem equal_counts_refuse_recovery :
    let dev := commit (fun _ x => x) 2 (formatted (fun _ => 0) (fun _ => 0)) writeOne
    let crashed :=
      applyAll write dev ((commitWrites (fun _ x => x) 3 dev.homes writeAnother).take 1)
    scanJournal crashed = .corrupt ∧ recoveryWrites crashed = none := by
  have hcorrupt : scanJournal (applyAll write
      (commit (fun _ x => x) 2 (formatted (fun _ => 0) (fun _ => 0)) writeOne)
      ((commitWrites (fun _ x => x) 3
        (commit (fun _ x => x) 2 (formatted (fun _ => 0) (fun _ => 0)) writeOne).homes
        writeAnother).take 1)) = .corrupt := by
    decide +kernel
  refine ⟨hcorrupt, ?_⟩
  unfold recoveryWrites recoverJournalBeforePublish
  rw [hcorrupt]
  rfl

/-! ## §2. Commits that fail. -/

/-- The device, the sequence number of the next commit, and the writes that failed commits
have left in the cache: dirty blocks of the journal, which nothing protects there. -/
structure MountedJournal (β : Type) where
  dev : Device β
  seq : UInt64
  left : List (Write β)

/-- A transaction whose commit goes through, or fails at the given write.  When a buffer is
needed the cache writes a dirty block back, so some writes are made early.  A block is not
written back once the commit has put its own contents into it, so the order of these writes
and the writes of the commit does not matter. -/
structure Attempt (β : Type) where
  txn : Transaction β
  failsAt : Option Nat
  backs : List (Write β)

namespace MountedJournal

variable (sb : UInt64 → β → β) (j : MountedJournal β)

def records (t : Transaction β) : List (Write β) :=
  recordWrites j.seq t.blocks (t.image sb j.seq j.dev.homes)

/-- What the cache has to write back: what is left, and the records. -/
def Backs (t : Transaction β) (ws : List (Write β)) : Prop :=
  ∀ w ∈ ws, w ∈ j.left ∨ w ∈ j.records sb t

def back (ws : List (Write β)) : Device β := applyAll write j.dev ws

/-- What a commit that fails at a write leaves: the rest of the blocks that are flushed
together.  The homes are protected. -/
def leaves (t : Transaction β) (n : Nat) : List (Write β) :=
  let homesEnd := t.count + 2 + t.dirtyBlocks.length
  if n ≤ t.count then (j.records sb t).drop n
  else if n = t.count + 1 then [.commit (marker JOURNAL_STATE_COMMITTED j.seq t.count)]
  else if n < homesEnd then [] else (checkpointWrites j.seq).drop (n - homesEnd)

/-- What is left is kept, unless the commit has put its own contents there. -/
def keeps (t : Transaction β) (failsAt : Option Nat) : Write β → Bool
  | .payload i _ => t.count ≤ i
  | .commit _ => failsAt.any (· ≤ t.count)
  | .checkpoint _ => failsAt.any (· < t.count + 2 + t.dirtyBlocks.length)
  | _ => false

/-- Only a commit that goes through takes the number. -/
def attempt (a : Attempt β) : MountedJournal β :=
  let kept := j.left.filter (keeps a.txn a.failsAt)
  match a.failsAt with
  | none => ⟨commit sb j.seq (j.back a.backs) a.txn, j.seq + 1, kept⟩
  | some n => ⟨applyAll write (j.back a.backs) ((commitWrites sb j.seq j.dev.homes a.txn).take n),
      j.seq, kept ++ j.leaves sb a.txn n⟩

def attemptAll (as : List (Attempt β)) : MountedJournal β := as.foldl (attempt sb) j

/-- No attempt has as many records as the commit marker it finds, and one that fails does so
at a record, before its commit marker. -/
def Careful : MountedJournal β → List (Attempt β) → Prop
  | _, [] => True
  | j, a :: as =>
    j.Backs sb a.txn a.backs ∧ staleCount j.dev ≠ some a.txn.count ∧
      (∀ n, a.failsAt = some n → n ≤ a.txn.count) ∧ Careful (j.attempt sb a) as

end MountedJournal

/-- The homes that the attempts make when a failed one makes nothing. -/
def settleAll (sb : UInt64 → β → β) : UInt64 → (Nat → β) → List (Attempt β) → Nat → β
  | _, H, [] => H
  | seq, H, a :: as =>
    match a.failsAt with
    | none => settleAll sb (seq + 1) (a.txn.install sb seq H) as
    | some _ => settleAll sb seq H as

/-- A crash in any attempt, whatever is written back, leaves its transaction done or not done,
those that went through before it done, and those that failed not done. -/
def ErrorAtomic (sb : UInt64 → β → β) (j : MountedJournal β) (as : List (Attempt β)) : Prop :=
  ∀ before a after, as = before ++ a :: after → ∀ ws, (j.attemptAll sb before).Backs sb a.txn ws →
    CutAtomic sb (j.attemptAll sb before).seq ((j.attemptAll sb before).back ws)
      (settleAll sb j.seq j.dev.homes before) a.txn

section

variable {w : Write β} {ws : List (Write β)} {j : MountedJournal β} {a : Attempt β}

theorem Harmless.same {d : Device β} (hw : Harmless dev seq w) (hcommit : d.commit = dev.commit) :
    Harmless d seq w := by
  cases w with
  | desc d' =>
    obtain ⟨u, hu, hcount⟩ := hw
    refine ⟨u, hu, ?_⟩
    unfold staleCount at hcount ⊢
    rwa [hcommit]
  | _ => exact hw

theorem Ready.afterAll (h : Ready dev seq) (hws : ∀ w ∈ ws, Harmless dev seq w) :
    Ready (applyAll write dev ws) seq ∧ (applyAll write dev ws).homes = dev.homes ∧
      (applyAll write dev ws).commit = dev.commit := by
  induction ws generalizing dev with
  | nil => exact ⟨h, rfl, rfl⟩
  | cons w ws ih =>
    obtain ⟨hw, hws⟩ := forall_mem_cons.mp hws
    obtain ⟨hnext, hhomes, hcommit⟩ := h.after hw
    obtain ⟨hlast, hhomes', hcommit'⟩ := ih hnext fun v hv => (hws v hv).same hcommit
    exact ⟨hlast, hhomes'.trans hhomes, hcommit'.trans hcommit⟩

/-- Between attempts, where what is left in the cache is harmless. -/
structure Between (j : MountedJournal β) : Prop where
  ready : Ready j.dev j.seq
  left : ∀ w ∈ j.left, Harmless j.dev j.seq w

theorem records_harmless (sb : UInt64 → β → β) (hcount : staleCount j.dev ≠ some t.count) :
    ∀ w ∈ j.records sb t, Harmless j.dev j.seq w := by
  refine forall_mem_cons.mpr ⟨⟨t, rfl, hcount⟩, fun w hw => ?_⟩
  obtain ⟨i, _, rfl⟩ := mem_map.mp hw
  trivial

/-- What is written back leaves the device ready. -/
theorem Between.backed (h : Between j) (hcount : staleCount j.dev ≠ some t.count)
    (hws : j.Backs sb t ws) : Ready (j.back ws) j.seq ∧ (j.back ws).homes = j.dev.homes ∧
      (j.back ws).commit = j.dev.commit :=
  h.ready.afterAll fun w hw => (hws w hw).elim (h.left w) (records_harmless sb hcount w)

theorem commit_open (hidle : Idle dev seq) : scanJournal (commit sb seq dev t) ≠ .committed := by
  have hdesc : (commit sb seq dev t).desc = descriptor JOURNAL_STATE_CLEAN seq [] := by
    unfold commit commitWrites checkpointWrites
    rw [applyAll_append, applyAll_cons, applyAll_append]
    rfl
  obtain ⟨hnext, _⟩ := commit_idle sb hidle t
  obtain hscan | hscan := scan_clean (by rw [hdesc]; exact descriptor_clean_valid seq)
    (by rw [hdesc]; rfl) hnext.checked
  · rw [hscan]
    decide
  · rw [hscan]
    decide

/-- One careful attempt. -/
theorem Between.attempt (h : Between j) (hback : j.Backs sb a.txn a.backs)
    (hcount : staleCount j.dev ≠ some a.txn.count)
    (hfails : ∀ n, a.failsAt = some n → n ≤ a.txn.count) (as : List (Attempt β)) :
    Between (j.attempt sb a) ∧ settleAll sb (j.attempt sb a).seq (j.attempt sb a).dev.homes as =
      settleAll sb j.seq j.dev.homes (a :: as) := by
  obtain ⟨hready, hhomes, hcommit⟩ := h.backed hcount hback
  unfold MountedJournal.attempt
  conv in settleAll sb j.seq j.dev.homes (a :: as) => unfold settleAll
  cases hf : a.failsAt with
  | none =>
    obtain ⟨hnext, hinstalled, _⟩ := commit_idle sb hready.idle a.txn
    refine ⟨⟨⟨hnext, commit_open hready.idle⟩, fun w hw => ?_⟩,
      by dsimp only; rw [hinstalled, hhomes]⟩
    -- Of what was left only copies are kept.
    obtain ⟨hw, hkept⟩ := mem_filter.mp hw
    cases w with
    | payload => trivial
    | desc | commit | checkpoint | home => cases hkept
  | some n =>
    have hn := hfails n hf
    have hlen : (j.records sb a.txn).length = a.txn.count + 1 := by
      simp [MountedJournal.records, recordWrites, Transaction.count]
    have htake :
        (commitWrites sb j.seq j.dev.homes a.txn).take n = (j.records sb a.txn).take n := by
      unfold commitWrites
      rw [take_append_of_le_length (by rw [MountedJournal.records] at hlen; omega)]
      rfl
    have hrecords := records_harmless sb hcount
    have htaken : ∀ w ∈ (j.records sb a.txn).take n, Harmless (j.back a.backs) j.seq w :=
      fun w hw => (hrecords w (mem_of_mem_take hw)).same hcommit
    obtain ⟨hlast, hhomes', hcommit'⟩ := hready.afterAll htaken
    dsimp only
    rw [htake]
    refine ⟨⟨hlast, fun w hw => Harmless.same ?_ (hcommit'.trans hcommit)⟩,
      by rw [hhomes', hhomes]⟩
    rcases mem_append.mp hw with hw | hw
    · exact h.left w (mem_filter.mp hw).1
    · unfold MountedJournal.leaves at hw
      dsimp only at hw
      rw [if_pos hn] at hw
      exact hrecords w (mem_of_mem_drop hw)

end

def writeOdd : Transaction Nat :=
  numberedTransaction 1000 [43, 45] (by decide) (by decide) (by decide)

/-- The commit of 43 and 45 fails at its first home, after the marker; the commit
of 44 and 46 is cut after one payload block. -/
def mixed : Device Nat :=
  let dev := formatted (fun _ => 0) (fun _ => 0)
  let failed := applyAll write dev ((commitWrites (fun _ x => x) 2 dev.homes writeOdd).take 5)
  applyAll write failed ((commitWrites (fun _ x => x) 2 failed.homes writeTwo).take 2)

end BigOS.Fs.Journal
