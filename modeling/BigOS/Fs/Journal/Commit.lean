/-
  BigOS.Fs.Journal.Commit — one commit, write by write.

  The commit of a transaction is checked stretch by stretch: until the commit
  marker is written the device is sound for the homes before it, and from then on
  for the homes after it.

  Main results:
    • `Idle` — a mounted device between commits,
    • `recordWrites_everyCut`, `afterCommit_spec` — the two stretches,
    • `commit_idle`, `commit_everyCut` — a commit that is not cut, and one that is.
-/
import BigOS.Fs.Journal.Recovery

namespace BigOS.Fs.Journal

open BigOS.Fs.Bigfs BigOS.Lib.Crash Function List

variable {β : Type} {dev d : Device β} {H : Nat → β} {sb : UInt64 → β → β} {seq : UInt64} {b : Nat}
  {t : Transaction β}

/-! ## §1. The blocks of a transaction. -/

namespace Transaction

theorem mem_blocks_zero (t : Transaction β) : 0 ∈ t.blocks := by
  unfold blocks withSuperblock
  split
  · assumption
  · simp

theorem count_le (t : Transaction β) : t.count ≤ JOURNAL_MAX_RECORDS := t.bounded

theorem blocks_nodup (t : Transaction β) : t.blocks.Nodup := by
  unfold blocks withSuperblock
  split
  · exact t.nodup
  · rename_i hzero
    exact nodup_append.mpr ⟨t.nodup, nodup_singleton 0, fun a ha b hb hab =>
      hzero (mem_singleton.mp hb ▸ hab ▸ ha)⟩

theorem blocks_recoverable (t : Transaction β) : ∀ b ∈ t.blocks, blockIsRecoverableHome b := by
  unfold blocks withSuperblock
  split
  · exact t.recoverable
  intro b hb
  rcases mem_append.mp hb with hb | hb
  · exact t.recoverable b hb
  · rw [mem_singleton.mp hb]
    decide

theorem records_valid (t : Transaction β) (seq : UInt64) :
    (descriptor JOURNAL_STATE_RECORDS seq t.blocks).basicValid :=
  descriptor_records_valid seq
    (ne_nil_of_mem t.mem_blocks_zero) t.bounded t.blocks_nodup t.blocks_recoverable

/-- A home block that is not flushed has its after-image already. -/
theorem image_of_clean (hb : b ∈ t.blocks) (hclean : b ∉ t.dirtyBlocks) :
    t.image sb seq H b = H b := by
  unfold dirtyBlocks at hclean
  rw [mem_filter] at hclean
  have hnot : ¬(b == 0 || t.dirty b) := fun h => hclean ⟨hb, h⟩
  simp only [Bool.or_eq_true, beq_iff_eq, not_or, Bool.not_eq_true] at hnot
  unfold image current
  rw [if_neg hnot.1, hnot.2]
  rfl

end Transaction

/-! ## §2. One commit. -/

/-- A mounted device between commits, and the sequence number of the next one. -/
structure Idle (dev : Device β) (seq : UInt64) : Prop where
  checked : Checked dev
  behind : dev.checkpoint.sequence ≠ seq
  stale : dev.commit.valid JOURNAL_STATE_COMMITTED → dev.commit.sequence ≠ seq
  sound : Sound dev.homes dev

/-- The number of records that the commit marker on the device counts. -/
def staleCount (dev : Device β) : Option Nat :=
  if dev.commit.valid JOURNAL_STATE_COMMITTED then some dev.commit.recordCount else none

/-- A device between commits whose records are not committed. -/
structure Ready (dev : Device β) (seq : UInt64) : Prop where
  idle : Idle dev seq
  open_ : scanJournal dev ≠ .committed

/-- A copy in the journal, or the descriptor of a transaction that the commit marker on the
device does not fit. -/
def Harmless (dev : Device β) (seq : UInt64) : Write β → Prop
  | .payload _ _ => True
  | .desc d => ∃ u : Transaction β, d = descriptor JOURNAL_STATE_RECORDS seq u.blocks ∧
      staleCount dev ≠ some u.count
  | _ => False

/-- The descriptor of a transaction that the commit marker does not fit. -/
theorem Idle.ready_descriptor (h : Idle dev seq) (hcount : staleCount dev ≠ some t.count) :
    Ready (write dev (.desc (descriptor JOURNAL_STATE_RECORDS seq t.blocks))) seq := by
  have hvalid := t.records_valid seq
  have hother : dev.commit.valid JOURNAL_STATE_COMMITTED → dev.commit.sequence ≠ seq ∧
      dev.commit.recordCount ≠ t.count := by
    refine fun hvalid => ⟨h.stale hvalid, fun heq => hcount ?_⟩
    unfold staleCount
    rw [if_pos hvalid, heq]
  have hscan : scanJournal (write dev (.desc (descriptor JOURNAL_STATE_RECORDS seq t.blocks))) =
      .partialJournal := scan_records hvalid rfl hother
  refine ⟨⟨h.checked, h.behind, h.stale, ?_⟩, by rw [hscan]; decide⟩
  exact .records hvalid rfl h.checked hother rfl

/-- With such a write the homes and the commit marker stay. -/
theorem Ready.after {w : Write β} (h : Ready dev seq) (hw : Harmless dev seq w) :
    Ready (write dev w) seq ∧ (write dev w).homes = dev.homes ∧
      (write dev w).commit = dev.commit := by
  obtain ⟨⟨hchecked, hbehind, hstale, hsound⟩, hopen⟩ := h
  cases w with
  | payload i x =>
    refine ⟨⟨⟨hchecked, hbehind, hstale, ?_⟩, hopen⟩, rfl, rfl⟩
    cases hsound with
    | clean hvalid hstate hchecked hhomes => exact .clean hvalid hstate hchecked hhomes
    | records hvalid hstate hchecked hstale hhomes =>
      exact .records hvalid hstate hchecked hstale hhomes
    | committed hvalid hstate _ hcommit hbehind =>
      exact absurd (scan_committed hvalid hstate hcommit hbehind) hopen
  | desc d =>
    obtain ⟨u, rfl, hcount⟩ := hw
    exact ⟨Idle.ready_descriptor ⟨hchecked, hbehind, hstale, hsound⟩ hcount, rfl, rfl⟩
  | _ => exact hw.elim

/-- While the records are written the device is sound for the homes before. -/
theorem recordWrites_everyCut (hidle : Idle dev seq) (hcount : staleCount dev ≠ some t.count)
    (image : Nat → β) : EveryCut write (Sound dev.homes) dev (recordWrites seq t.blocks image) := by
  refine everyCut_cons.mpr ⟨hidle.sound, ?_⟩
  -- From the descriptor on, the payload is all that changes.
  refine EveryCut.mono (P := fun d => Ready d seq ∧ d.homes = dev.homes) (EveryCut.of_invariant
    ⟨hidle.ready_descriptor hcount, rfl⟩ fun d w hw hd => ?_) fun d hd => hd.2 ▸ hd.1.idle.sound
  obtain ⟨i, _, rfl⟩ := mem_map.mp hw
  exact ⟨(hd.1.after (w := .payload i _) trivial).1, hd.2⟩

/-- What the records leave: the descriptor, and the after-images. -/
structure Recorded (dev : Device β) (seq : UInt64) (t : Transaction β) (image : Nat → β)
    (d : Device β) : Prop where
  homes : d.homes = dev.homes
  commit : d.commit = dev.commit
  checkpoint : d.checkpoint = dev.checkpoint
  desc : d.desc = descriptor JOURNAL_STATE_RECORDS seq t.blocks
  payload : ∀ i < t.blocks.length, d.payload i = image (t.blocks.getD i 0)

theorem payload_applyAll (f : Nat → β) (is : List Nat) (dev : Device β) (j : Nat) :
    (applyAll write dev (is.map (fun i => .payload i (f i)))).payload j =
      if j ∈ is then f j else dev.payload j := by
  induction is generalizing dev with
  | nil => simp
  | cons i is ih =>
    rw [map_cons, applyAll_cons, ih]
    show (if j ∈ is then f j else update dev.payload i (f i) j) = _
    by_cases hj : j ∈ is
    · rw [if_pos hj, if_pos (mem_cons_of_mem i hj)]
    by_cases hij : j = i
    · subst hij
      rw [if_neg hj, if_pos mem_cons_self, update_self]
    · rw [if_neg hj, if_neg, update_of_ne hij]
      exact fun h => (mem_cons.mp h).elim hij hj

theorem recordWrites_recorded (dev : Device β) (seq : UInt64) (t : Transaction β)
    (image : Nat → β) :
    Recorded dev seq t image (applyAll write dev (recordWrites seq t.blocks image)) := by
  unfold recordWrites
  rw [applyAll_cons]
  have hkeep : ∀ {α : Type} (f : Device β → α), (∀ d i x, f (write d (.payload i x)) = f d) →
      f (applyAll write (write dev (.desc (descriptor JOURNAL_STATE_RECORDS seq t.blocks)))
        ((List.range t.blocks.length).map (fun i => .payload i (image (t.blocks.getD i 0))))) =
        f (write dev (.desc (descriptor JOURNAL_STATE_RECORDS seq t.blocks))) := by
    intro α f hf
    apply applyAll_unchanged
    intro d w hw
    obtain ⟨i, _, rfl⟩ := mem_map.mp hw
    exact hf d i _
  refine ⟨?_, ?_, ?_, ?_, ?_⟩
  · exact hkeep Device.homes (fun _ _ _ => rfl)
  · exact hkeep Device.commit (fun _ _ _ => rfl)
  · exact hkeep Device.checkpoint (fun _ _ _ => rfl)
  · exact hkeep Device.desc (fun _ _ _ => rfl)
  · intro i hi
    rw [payload_applyAll (fun i => image (t.blocks.getD i 0)), if_pos (mem_range.mpr hi)]

/-- The journal of a committed transaction, whatever homes were written. -/
structure Committed (seq : UInt64) (t : Transaction β) (H : Nat → β) (d : Device β) : Prop where
  checked : Checked d
  behind : d.checkpoint.sequence ≠ seq
  commit : d.commit = marker JOURNAL_STATE_COMMITTED seq t.count
  desc : d.desc = descriptor JOURNAL_STATE_RECORDS seq t.blocks
  payload : ∀ i < t.blocks.length, d.payload i = H (t.blocks.getD i 0)
  other : ∀ b, b ∉ t.blocks → d.homes b = H b

theorem Committed.sound (h : Committed seq t H d) : Sound H d := by
  have hcount : d.desc.recordCount = t.blocks.length := by
    rw [h.desc]
    rfl
  have hhome : ∀ i, d.desc.homeBlocks i = t.blocks.getD i 0 := by
    rw [h.desc]
    exact fun _ => rfl
  have hseq : d.desc.sequence = seq := by
    rw [h.desc]
    rfl
  apply Sound.committed
  · rw [h.desc]
    exact t.records_valid seq
  · rw [h.desc]
    rfl
  · exact h.checked
  · rw [h.commit, hseq, hcount]
    exact marker_matches _ _ t.bounded
  · rw [hseq]
    exact h.behind
  · intro i hi
    rw [hhome]
    exact h.payload i (hcount ▸ hi)
  · intro b hb
    apply h.other
    intro hmem
    obtain ⟨i, hi, heq⟩ := getElem_of_mem hmem
    apply hb i (hcount ▸ hi)
    rw [hhome, getD_eq_getElem _ _ hi]
    exact heq

theorem Committed.home (h : Committed seq t H d) (hb : b ∈ t.blocks)
    (x : β) : Committed seq t H (write d (.home b x)) where
  checked := h.checked
  behind := h.behind
  commit := h.commit
  desc := h.desc
  payload := h.payload
  other c hc := by
    have hne : c ≠ b := by
      rintro rfl
      exact hc hb
    show update d.homes b x c = H c
    rw [update_of_ne hne]
    exact h.other c hc

/-- The commit marker makes the transaction. -/
theorem Recorded.committed (hidle : Idle dev seq)
    (h : Recorded dev seq t (t.image sb seq dev.homes) d) :
    Committed seq t (t.install sb seq dev.homes)
      (write d (.commit (marker JOURNAL_STATE_COMMITTED seq t.count))) where
  checked := by
    unfold Checked
    show d.checkpoint.valid _ = true ∧ d.checkpoint.recordCount = 0
    rw [h.checkpoint]
    exact hidle.checked
  behind := by
    show d.checkpoint.sequence ≠ seq
    rw [h.checkpoint]
    exact hidle.behind
  commit := rfl
  desc := h.desc
  payload i hi := by
    show d.payload i = _
    rw [h.payload i hi]
    unfold Transaction.install
    rw [if_pos]
    rw [getD_eq_getElem _ _ hi]
    exact getElem_mem hi
  other b hb := by
    show d.homes b = _
    rw [h.homes]
    unfold Transaction.install
    rw [if_neg hb]

/-- The homes are written, and with them the transaction is in place. -/
theorem homeWrites_spec (h : Committed seq t (t.install sb seq dev.homes) d)
    (hhomes : d.homes = dev.homes) :
    let ws := t.dirtyBlocks.map (fun b => Write.home b (t.image sb seq dev.homes b))
    EveryCut write (Committed seq t (t.install sb seq dev.homes)) d ws ∧
      (applyAll write d ws).homes = t.install sb seq dev.homes := by
  have hsub : ∀ b ∈ t.dirtyBlocks, b ∈ t.blocks := fun b hb => (mem_filter.mp hb).1
  constructor
  · apply EveryCut.of_invariant h
    intro e w hw he
    obtain ⟨b, hb, rfl⟩ := mem_map.mp hw
    exact he.home (hsub b hb) _
  · funext b
    rw [homes_applyAll (fun b => b) (t.image sb seq dev.homes), hhomes]
    unfold Transaction.install
    by_cases hb : b ∈ t.blocks
    · rw [if_pos hb]
      by_cases hdirty : b ∈ t.dirtyBlocks
      · rw [if_pos ⟨b, hdirty, rfl⟩]
      · rw [if_neg, Transaction.image_of_clean hb hdirty]
        rintro ⟨c, hc, rfl⟩
        exact hdirty hc
    · rw [if_neg hb, if_neg]
      rintro ⟨c, hc, rfl⟩
      exact hb (hsub c hc)

/-- The rest of a commit, from the commit marker on. -/
theorem afterCommit_spec (hidle : Idle dev seq)
    (h : Recorded dev seq t (t.image sb seq dev.homes) d) :
    let d1 := write d (.commit (marker JOURNAL_STATE_COMMITTED seq t.count))
    let ws := t.dirtyBlocks.map (fun b => Write.home b (t.image sb seq dev.homes b)) ++
      checkpointWrites seq
    EveryCut write (Sound (t.install sb seq dev.homes)) d1 ws ∧
      (applyAll write d1 ws).homes = t.install sb seq dev.homes ∧
      Idle (applyAll write d1 ws) (seq + 1) ∧ staleCount (applyAll write d1 ws) = some t.count := by
  intro d1 ws
  have hcommitted := h.committed hidle
  obtain ⟨hcut, hhomes⟩ := homeWrites_spec hcommitted h.homes
  have hlast := hcut.finish
  -- The two writes that mark the journal clean.
  have hclean : ∀ e : Device β, Checked e → e.homes = t.install sb seq dev.homes →
      e.desc = descriptor JOURNAL_STATE_CLEAN seq [] → Sound (t.install sb seq dev.homes) e := by
    intro e hchecked he hdesc
    apply Sound.clean
    · rw [hdesc]
      exact descriptor_clean_valid seq
    · rw [hdesc]
      rfl
    · exact hchecked
    · exact he
  have hend : (applyAll write d1 ws) = write (write (applyAll write d1 (t.dirtyBlocks.map
      (fun b => Write.home b (t.image sb seq dev.homes b))))
      (.desc (descriptor JOURNAL_STATE_CLEAN seq [])))
      (.checkpoint (marker JOURNAL_STATE_CLEAN seq 0)) := by
    show applyAll write d1 (_ ++ checkpointWrites seq) = _
    rw [applyAll_append]
    rfl
  have hchecked : Checked (applyAll write d1 ws) := by
    rw [hend]
    exact ⟨marker_valid _ _ (Nat.zero_le _), rfl⟩
  have hmarker : (applyAll write d1 ws).commit = marker JOURNAL_STATE_COMMITTED seq t.count := by
    rw [hend]
    exact hlast.commit
  have hsame : (applyAll write d1 ws).homes = t.install sb seq dev.homes := by
    rw [hend]
    exact hhomes
  have hnext : seq ≠ seq + 1 := by simp
  refine ⟨?_, hsame, ?_, ?_⟩
  · show EveryCut write _ d1 (_ ++ checkpointWrites seq)
    refine everyCut_append.mpr ⟨EveryCut.mono hcut (fun _ he => he.sound), ?_⟩
    unfold checkpointWrites
    rw [everyCut_cons, everyCut_cons, everyCut_nil]
    refine ⟨hlast.sound, ?_, ?_⟩
    · exact hclean _ hlast.checked hhomes rfl
    · exact hclean _ ⟨marker_valid _ _ (Nat.zero_le _), rfl⟩ hhomes rfl
  · refine ⟨hchecked, ?_, ?_, ?_⟩
    · rw [hend]
      exact hnext
    · intro _
      rw [hmarker]
      exact hnext
    · rw [hsame]
      apply hclean _ hchecked hsame
      rw [hend]
      rfl
  · unfold staleCount
    rw [hmarker, if_pos (marker_valid _ _ t.count_le)]
    rfl

/-- The device after a commit. -/
def commit (sb : UInt64 → β → β) (seq : UInt64) (dev : Device β) (t : Transaction β) : Device β :=
  applyAll write dev (commitWrites sb seq dev.homes t)

/-- A commit that is not cut. -/
theorem commit_idle (sb : UInt64 → β → β) (hidle : Idle dev seq) (t : Transaction β) :
    Idle (commit sb seq dev t) (seq + 1) ∧
      (commit sb seq dev t).homes = t.install sb seq dev.homes ∧
      staleCount (commit sb seq dev t) = some t.count := by
  unfold commit commitWrites
  rw [applyAll_append, applyAll_cons]
  obtain ⟨_, hhomes, hnext, hstale⟩ :=
    afterCommit_spec hidle (recordWrites_recorded dev seq t (t.image sb seq dev.homes))
  exact ⟨hnext, hhomes, hstale⟩

/-- A commit that is cut anywhere, where the commit marker on the device counts
another number of records. -/
theorem commit_everyCut (sb : UInt64 → β → β) (hidle : Idle dev seq)
    (hcount : staleCount dev ≠ some t.count) :
    EveryCut write (fun d => Sound dev.homes d ∨ Sound (t.install sb seq dev.homes) d) dev
      (commitWrites sb seq dev.homes t) := by
  have hrecords := recordWrites_everyCut hidle hcount (t.image sb seq dev.homes)
  obtain ⟨hafter, _⟩ :=
    afterCommit_spec hidle (recordWrites_recorded dev seq t (t.image sb seq dev.homes))
  unfold commitWrites
  refine everyCut_append.mpr
    ⟨EveryCut.mono hrecords (fun _ h => .inl h), everyCut_cons.mpr ⟨?_, ?_⟩⟩
  · exact .inl hrecords.finish
  · exact EveryCut.mono hafter (fun _ h => .inr h)

end BigOS.Fs.Journal
