/-
  BigOS.Fs.Journal.Recovery — what recovery makes of a device.

  A device is sound for some contents of its homes if recovery gives it those
  contents: the journal is clean and the homes have them, or the journal holds
  records that nothing commits, or it holds committed records and replaying them
  gives them.  Recovery keeps this at every one of its writes, so it may be cut
  and repeated as often as one likes.

  Main results:
    • `Sound`, `Sound.recovers` — the invariant and what recovery does with it,
    • `Sound.withstands` — crashes during recovery,
    • `scan_corrupt` — a descriptor beside a commit marker of an equal count.
-/
import BigOS.Fs.Journal.Model
import Mathlib.Data.List.GetD
import Mathlib.Data.List.Nodup

namespace BigOS.Fs.Journal

open BigOS.Fs.Bigfs BigOS.Lib.Crash Function List

variable {β : Type} {dev : Device β} {H : Nat → β} {sequence : UInt64} {blocks : List Nat} {n : Nat}

/-! ## §1. What is written is valid. -/

theorem descriptor_checksum (state : UInt32) (sequence : UInt64) (blocks : List Nat) :
    (descriptor state sequence blocks).computeChecksum =
      (descriptor state sequence blocks).checksum := by
  simp only [descriptor, JournalDescriptor.computeChecksum]

theorem descriptor_clean_valid (sequence : UInt64) :
    (descriptor JOURNAL_STATE_CLEAN sequence []).basicValid := by
  unfold JournalDescriptor.basicValid
  rw [descriptor_checksum]
  simp [descriptor]

theorem descriptor_records_valid (sequence : UInt64) (hpos : blocks ≠ [])
    (hle : blocks.length ≤ JOURNAL_MAX_RECORDS) (hnodup : blocks.Nodup)
    (hrec : ∀ b ∈ blocks, blockIsRecoverableHome b) :
    (descriptor JOURNAL_STATE_RECORDS sequence blocks).basicValid := by
  have hlen : blocks.length ≠ 0 := fun h => hpos (length_eq_zero_iff.mp h)
  have hpay : blocks.length ≤ JOURNAL_PAYLOAD_BLOCKS := le_trans hle (by decide)
  -- The homes are recoverable, and no two of them are equal.
  have hhomes : (range blocks.length).all (fun i =>
      blockIsRecoverableHome (blocks.getD i 0) &&
        (range blocks.length).all (fun j =>
          !(decide (i < j) && blocks.getD i 0 == blocks.getD j 0))) = true := by
    simp only [all_eq_true, mem_range, Bool.and_eq_true, Bool.not_eq_true',
      Bool.and_eq_false_iff, decide_eq_false_iff_not, beq_eq_false_iff_ne]
    intro i hi
    rw [getD_eq_getElem _ _ hi]
    refine ⟨hrec _ (getElem_mem hi), fun j hj => ?_⟩
    rw [getD_eq_getElem _ _ hj]
    by_cases hij : i < j
    · right
      intro heq
      have := (List.Nodup.getElem_inj_iff hnodup).mp heq
      omega
    · exact .inl hij
  unfold JournalDescriptor.basicValid
  rw [descriptor_checksum]
  have hstate : (JOURNAL_STATE_RECORDS == JOURNAL_STATE_CLEAN) = false := by decide
  simp only [descriptor, beq_self_eq_true, hstate, Bool.true_and, Bool.or_true, Bool.true_or,
    Bool.false_and, Bool.not_false, Bool.and_true]
  simp only [hle, hpay, decide_true, Bool.true_and, bne, hstate, Bool.not_false]
  rw [hhomes]
  simp [hlen]

theorem marker_valid (state : UInt32) (sequence : UInt64)
    (h : n ≤ JOURNAL_MAX_RECORDS) : (marker state sequence n).valid state := by
  unfold JournalMarker.valid
  simp [marker, JournalMarker.computeChecksum, h]

theorem marker_matches (state : UInt32) (sequence : UInt64)
    (h : n ≤ JOURNAL_MAX_RECORDS) : (marker state sequence n).matches state sequence n := by
  unfold JournalMarker.matches
  rw [marker_valid state sequence h]
  simp [marker]

theorem zeroMarker_invalid : zeroMarker.valid JOURNAL_STATE_COMMITTED = false := by decide

/-! ## §2. Sound devices. -/

/-- The checkpoint marker is one of a clean journal. -/
def Checked (dev : Device β) : Prop :=
  dev.checkpoint.valid JOURNAL_STATE_CLEAN ∧ dev.checkpoint.recordCount = 0

/-- Recovery gives the homes these contents. -/
inductive Sound (H : Nat → β) (dev : Device β) : Prop where
  /-- The journal is clean. -/
  | clean (hvalid : dev.desc.basicValid) (hstate : dev.desc.state = JOURNAL_STATE_CLEAN)
      (hchecked : Checked dev) (hhomes : dev.homes = H)
  /-- The journal has records, and the commit marker is of another transaction. -/
  | records (hvalid : dev.desc.basicValid)
      (hstate : dev.desc.state = JOURNAL_STATE_RECORDS) (hchecked : Checked dev)
      (hstale : dev.commit.valid JOURNAL_STATE_COMMITTED →
        dev.commit.sequence ≠ dev.desc.sequence ∧ dev.commit.recordCount ≠ dev.desc.recordCount)
      (hhomes : dev.homes = H)
  /-- The records are committed, and all of them are in the journal. -/
  | committed (hvalid : dev.desc.basicValid)
      (hstate : dev.desc.state = JOURNAL_STATE_RECORDS) (hchecked : Checked dev)
      (hcommit : dev.commit.matches JOURNAL_STATE_COMMITTED dev.desc.sequence
        dev.desc.recordCount)
      (hbehind : dev.checkpoint.sequence ≠ dev.desc.sequence)
      (hpayload : ∀ i < dev.desc.recordCount, dev.payload i = H (dev.desc.homeBlocks i))
      (hother : ∀ b, (∀ i < dev.desc.recordCount, dev.desc.homeBlocks i ≠ b) → dev.homes b = H b)

/-- Writing the given contents to some homes. -/
theorem homes_applyAll {ι : Type} (f : ι → Nat) (H : Nat → β) (is : List ι) (dev : Device β)
    (b : Nat) : (applyAll write dev (is.map (fun i => .home (f i) (H (f i))))).homes b =
      if ∃ i ∈ is, f i = b then H b else dev.homes b := by
  induction is generalizing dev with
  | nil => simp
  | cons i is ih =>
    rw [map_cons, applyAll_cons, ih]
    by_cases hrest : ∃ j ∈ is, f j = b
    · obtain ⟨j, hj, hb⟩ := hrest
      rw [if_pos ⟨j, hj, hb⟩, if_pos ⟨j, mem_cons_of_mem i hj, hb⟩]
    rw [if_neg hrest]
    show update dev.homes (f i) (H (f i)) b = _
    by_cases hi : f i = b
    · rw [if_pos ⟨i, mem_cons_self, hi⟩, ← hi, update_self]
    rw [update_of_ne (Ne.symm hi), if_neg]
    rintro ⟨j, hj, hb⟩
    rcases mem_cons.mp hj with rfl | hj
    · exact hi hb
    · exact hrest ⟨j, hj, hb⟩

theorem scan_clean (hvalid : dev.desc.basicValid)
    (hstate : dev.desc.state = JOURNAL_STATE_CLEAN) (hchecked : Checked dev) :
    scanJournal dev = .clean ∨ scanJournal dev = .checkpointed := by
  unfold scanJournal
  simp only [hvalid, hstate, hchecked.1, hchecked.2, Bool.not_true, Bool.false_eq_true, if_false,
    beq_self_eq_true, if_true, Bool.and_self]
  split
  · exact .inl rfl
  · exact .inr rfl

/-- The descriptor has records. -/
theorem records_ne_clean (hstate : dev.desc.state = JOURNAL_STATE_RECORDS) :
    (dev.desc.state == JOURNAL_STATE_CLEAN) = false := by
  rw [hstate]
  decide

section

variable (hvalid : dev.desc.basicValid) (hstate : dev.desc.state = JOURNAL_STATE_RECORDS)

include hvalid hstate

theorem scan_records
    (hstale : dev.commit.valid JOURNAL_STATE_COMMITTED → dev.commit.sequence ≠ dev.desc.sequence ∧
      dev.commit.recordCount ≠ dev.desc.recordCount) : scanJournal dev = .partialJournal := by
  unfold scanJournal JournalMarker.matches
  simp only [hvalid, records_ne_clean hstate, Bool.not_true, Bool.false_eq_true, if_false]
  cases hcommit : dev.commit.valid JOURNAL_STATE_COMMITTED with
  | false => simp
  | true =>
    obtain ⟨hseq, hcount⟩ := hstale hcommit
    simp [hseq, hcount]

theorem scan_committed
    (hcommit : dev.commit.matches JOURNAL_STATE_COMMITTED dev.desc.sequence dev.desc.recordCount)
    (hbehind : dev.checkpoint.sequence ≠ dev.desc.sequence) : scanJournal dev = .committed := by
  have hopen : dev.checkpoint.matches JOURNAL_STATE_CLEAN dev.desc.sequence 0 = false := by
    unfold JournalMarker.matches
    simp [hbehind]
  unfold scanJournal
  simp [hvalid, records_ne_clean hstate, hcommit, hopen, Bool.and_false]

/-- A commit marker of another transaction with as many records is taken for
damage. -/
theorem scan_corrupt (hcommit : dev.commit.valid JOURNAL_STATE_COMMITTED)
    (hseq : dev.commit.sequence ≠ dev.desc.sequence)
    (hcount : dev.commit.recordCount = dev.desc.recordCount) : scanJournal dev = .corrupt := by
  unfold scanJournal JournalMarker.matches
  simp only [hvalid, records_ne_clean hstate, hcommit, hcount, Bool.not_true, Bool.false_eq_true,
    if_false]
  simp [hseq]

end

/-- The writes that mark the journal clean, over homes that are right. -/
theorem checkpointJournalClean_sound (sequence : UInt64) (hchecked : Checked dev)
    (hhomes : dev.homes = H) (hsound : Sound H dev) :
    EveryCut write (Sound H) dev (checkpointJournalClean sequence) ∧
      (applyAll write dev (checkpointJournalClean sequence)).homes = H := by
  have hvalid := descriptor_clean_valid sequence
  constructor
  · unfold checkpointJournalClean
    rw [everyCut_cons, everyCut_cons, everyCut_cons, everyCut_nil]
    refine ⟨hsound, ?_, ?_, ?_⟩
    · exact .clean hvalid rfl hchecked hhomes
    · exact .clean hvalid rfl hchecked hhomes
    · exact .clean hvalid rfl ⟨marker_valid _ _ (Nat.zero_le _), rfl⟩ hhomes
  · exact hhomes

/-- Recovery of a sound device succeeds, gives the homes their contents, and keeps
the device sound at every write. -/
theorem Sound.recovers (h : Sound H dev) :
    ∃ ws, recoveryWrites dev = some ws ∧ (applyAll write dev ws).homes = H ∧
      EveryCut write (Sound H) dev ws := by
  have hself := h
  unfold recoveryWrites recoverJournalBeforePublish
  cases h with
  | clean hvalid hstate hchecked hhomes =>
    refine ⟨[], ?_, hhomes, everyCut_nil.mpr hself⟩
    rcases scan_clean hvalid hstate hchecked with hscan | hscan <;> rw [hscan]
    · rfl
    · rfl
  | records hvalid hstate hchecked hstale hhomes =>
    rw [scan_records hvalid hstate hstale]
    obtain ⟨hcut, hend⟩ := checkpointJournalClean_sound dev.desc.sequence hchecked hhomes hself
    exact ⟨_, rfl, hend, hcut⟩
  | committed hvalid hstate hchecked hcommit hbehind hpayload hother =>
    rw [scan_committed hvalid hstate hcommit hbehind]
    -- What is replayed are the contents of the homes.
    have hreplay : (range dev.desc.recordCount).map
        (fun i => Write.home (dev.desc.homeBlocks i) (dev.payload i)) =
        (range dev.desc.recordCount).map
          (fun i => Write.home (dev.desc.homeBlocks i) (H (dev.desc.homeBlocks i))) := by
      apply map_congr_left
      intro i hi
      rw [hpayload i (mem_range.mp hi)]
    refine ⟨replayCommittedJournal dev, rfl, ?_⟩
    unfold replayCommittedJournal
    rw [hreplay]
    generalize hws : (range dev.desc.recordCount).map
      (fun i => Write.home (dev.desc.homeBlocks i) (H (dev.desc.homeBlocks i))) = ws
    -- The replayed homes have them, and the other homes had them.
    have hhomes : (applyAll write dev ws).homes = H := by
      funext b
      rw [← hws, homes_applyAll]
      split
      · rfl
      · rename_i hnone
        apply hother
        intro i hi heq
        exact hnone ⟨i, mem_range.mpr hi, heq⟩
    -- Each replayed home leaves the journal as it is.
    have hcut : EveryCut write (Sound H) dev ws := by
      have hfixed : EveryCut write (fun d => d.desc = dev.desc ∧ d.commit = dev.commit ∧
          d.checkpoint = dev.checkpoint ∧ d.payload = dev.payload ∧
          ∀ b, (∀ i < dev.desc.recordCount, dev.desc.homeBlocks i ≠ b) → d.homes b = H b) dev
          ws := by
        apply EveryCut.of_invariant
        · exact ⟨rfl, rfl, rfl, rfl, hother⟩
        · intro d w hw hd
          obtain ⟨i, hi, rfl⟩ := mem_map.mp (hws ▸ hw)
          refine ⟨hd.1, hd.2.1, hd.2.2.1, hd.2.2.2.1, fun b hb => ?_⟩
          show update d.homes _ _ b = H b
          rw [update_of_ne (Ne.symm (hb i (mem_range.mp hi)))]
          exact hd.2.2.2.2 b hb
      refine EveryCut.mono hfixed ?_
      rintro ⟨homes, desc, commit, checkpoint, payload⟩ ⟨rfl, rfl, rfl, rfl, hout⟩
      exact .committed hvalid hstate hchecked hcommit hbehind hpayload hout
    have hchecked' : Checked (applyAll write dev ws) := by
      unfold Checked
      rw [applyAll_unchanged (f := Device.checkpoint)]
      · exact hchecked
      · intro d w hw
        obtain ⟨i, _, rfl⟩ := mem_map.mp (hws ▸ hw)
        rfl
    obtain ⟨hcut', hend⟩ :=
      checkpointJournalClean_sound dev.desc.sequence hchecked' hhomes hcut.finish
    rw [applyAll_append]
    exact ⟨hend, everyCut_append.mpr ⟨hcut, hcut'⟩⟩

/-- Recovery may be cut and repeated any number of times. -/
theorem Sound.withstands (h : Sound H dev) (crashes : Nat) :
    Withstands write recoveryWrites (fun d => d.homes = H) crashes dev :=
  withstands_of_invariant (fun _ hd => hd.recovers) h crashes

end BigOS.Fs.Journal
