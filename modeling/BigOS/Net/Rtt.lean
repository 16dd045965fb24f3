/-
  BigOS.Net.Rtt — the round-trip estimator (`rtt_update` in `core/net/tcp.cc`).

  The smoothed round trip and its variance are updated with truncating shifts on 32-bit
  words.  `RttEstimate` is the same estimator over the natural numbers, where nothing
  can wrap; samples below 2^29 ticks keep the two equal.  The bounds survive the
  rounding because `x - x / k` grows with `x`.

  Main results:
    • `Within.update` — one sample keeps the bounds,
    • `Holds.update` — one sample keeps the two estimators equal,
    • `rtt_bounds` — the estimator along a run of samples.
-/
import BigOS.Net.Tcp

namespace BigOS.Net

open TcpControlBlock

/-- What the estimator holds, over the natural numbers. -/
structure RttEstimate where
  srtt : Nat
  rttvar : Nat

namespace RttEstimate

/-- The estimate after one more sample: α = 1/8, β = 1/4, both rounded down. -/
def update (e : RttEstimate) (r : Nat) : RttEstimate :=
  let err := if r < e.srtt then e.srtt - r else r - e.srtt
  ⟨e.srtt - e.srtt / 8 + r / 8, e.rttvar - e.rttvar / 4 + err / 4⟩

/-- `srtt + max(G, 4 * rttvar)`, with one tick as `G`. -/
def timeout (e : RttEstimate) : Nat := e.srtt + max 1 (4 * e.rttvar)

/-- The estimate after a run of samples, the first of which starts it. -/
def ofSamples (first : BitVec 32) (rest : List (BitVec 32)) : RttEstimate :=
  rest.foldl (fun e r => e.update r.toNat) ⟨first.toNat, first.toNat / 2⟩

/-- The smoothed round trip is between two bounds, its variance below a third. -/
structure Within (lo hi m : Nat) (e : RttEstimate) : Prop where
  lower : lo ≤ e.srtt
  upper : e.srtt ≤ hi
  spread : e.rttvar ≤ m

end RttEstimate

/-- The block holds the estimate, and its timeout is the clamp of the true one. -/
structure TcpControlBlock.Holds (tcb : TcpControlBlock) (e : RttEstimate) : Prop where
  valid : tcb.rttValid
  srtt : tcb.srtt.toNat = e.srtt
  rttvar : tcb.rttvar.toNat = e.rttvar
  rto : tcb.rto.toNat = max TCP_RTO_MIN.toNat (min TCP_RTO_MAX.toNat e.timeout)

open RttEstimate

variable {tcb : TcpControlBlock} {e : RttEstimate} {r : BitVec 32} {lo hi m : Nat}

/-- What is taken off grows slower than what it is taken from. -/
theorem sub_div_mono {x y k : Nat} (hk : 0 < k) (h : x ≤ y) : x - x / k ≤ y - y / k := by
  obtain ⟨d, rfl⟩ := Nat.exists_eq_add_of_le h
  have hstep : (x + d) / k ≤ x / k + d := by
    rw [← Nat.add_mul_div_right x d hk]
    exact Nat.div_le_div_right (Nat.add_le_add_left (Nat.le_mul_of_pos_right d hk) x)
  have hle := Nat.div_le_self x k
  omega

theorem RttEstimate.Within.update {r : Nat} (h : Within lo hi m e) (hspan : hi - lo ≤ m)
    (hr : lo ≤ r ∧ r ≤ hi) : Within lo hi m (e.update r) := by
  obtain ⟨hlower, hupper, hspread⟩ := h
  have herr : (if r < e.srtt then e.srtt - r else r - e.srtt) ≤ m := by split <;> omega
  have hdown := sub_div_mono (k := 8) (by decide) hlower
  have hup := sub_div_mono (k := 8) (by decide) hupper
  have hdecay := sub_div_mono (k := 4) (by decide) hspread
  have hmin := Nat.div_le_div_right (c := 8) hr.1
  have hmax := Nat.div_le_div_right (c := 8) hr.2
  have hgain := Nat.div_le_div_right (c := 4) herr
  constructor <;> simp only [RttEstimate.update] <;> omega

theorem clampRto_toNat (rto : BitVec 32) :
    (clampRto rto).toNat = max TCP_RTO_MIN.toNat (min TCP_RTO_MAX.toNat rto.toNat) := by
  have hmin : TCP_RTO_MIN.toNat = 20 := rfl
  have hmax : TCP_RTO_MAX.toNat = 12000 := rfl
  unfold clampRto
  simp only [BitVec.lt_def]
  split_ifs <;> omega

/-- The timeout follows from the two estimates of the same update: below 2^29 neither
the shift nor the sum wraps. -/
theorem holds_of_estimates (hvalid : (tcb.rttUpdate r).rttValid)
    (hs : (tcb.rttUpdate r).srtt.toNat = e.srtt) (hv : (tcb.rttUpdate r).rttvar.toNat = e.rttvar)
    (hw : Within lo hi m e) (hhi : hi < 2 ^ 29) (hm : m < 2 ^ 29) : (tcb.rttUpdate r).Holds e := by
  have hupper := hw.upper
  have hspread := hw.spread
  have hfour : ((tcb.rttUpdate r).rttvar <<< 2).toNat = 4 * e.rttvar := by
    rw [BitVec.toNat_shiftLeft, Nat.shiftLeft_eq, hv, Nat.mod_eq_of_lt (by omega)]
    omega
  have hrto : (tcb.rttUpdate r).rto = clampRto ((tcb.rttUpdate r).srtt + if (1 : BitVec 32) <
      (tcb.rttUpdate r).rttvar <<< 2 then (tcb.rttUpdate r).rttvar <<< 2 else 1) := rfl
  refine ⟨hvalid, hs, hv, ?_⟩
  rw [hrto, clampRto_toNat, BitVec.toNat_add, apply_ite BitVec.toNat, hs, hfour, timeout]
  simp only [BitVec.lt_def, hfour, show (1 : BitVec 32).toNat = 1 from rfl]
  split <;> omega

/-- Without a valid estimate the sample becomes the estimate. -/
theorem rttUpdate_first (hfresh : tcb.rttValid = false) (hr : r.toNat < 2 ^ 29) :
    (tcb.rttUpdate r).Holds ⟨r.toNat, r.toNat / 2⟩ := by
  refine holds_of_estimates ?_ ?_ ?_ ⟨le_rfl, le_rfl, le_rfl⟩ hr
    (lt_of_le_of_lt (Nat.div_le_self ..) hr)
  · simp [rttUpdate, hfresh]
  · simp [rttUpdate, hfresh]
  · simp [rttUpdate, hfresh, Nat.shiftRight_eq_div_pow]

theorem TcpControlBlock.Holds.update (h : tcb.Holds e) (hw : Within lo hi m e) (hhi : hi < 2 ^ 29)
    (hm : m < 2 ^ 29) (hspan : hi - lo ≤ m) (hr : lo ≤ r.toNat ∧ r.toNat ≤ hi) :
    (tcb.rttUpdate r).Holds (e.update r.toNat) := by
  have hupper := hw.upper
  have hspread := hw.spread
  have hvar := h.rttvar
  refine holds_of_estimates (by simp [rttUpdate, h.valid]) ?_ ?_ (hw.update hspan hr) hhi hm <;>
    simp only [rttUpdate, h.valid, if_true, RttEstimate.update, BitVec.toNat_add, BitVec.toNat_sub,
      BitVec.toNat_ushiftRight, Nat.shiftRight_eq_div_pow, apply_ite BitVec.toNat, BitVec.lt_def,
      h.srtt]
  · omega
  · split <;> omega

theorem rtt_run (samples : List (BitVec 32)) (h : tcb.Holds e) (hw : Within lo hi m e)
    (hhi : hi < 2 ^ 29) (hm : m < 2 ^ 29) (hspan : hi - lo ≤ m)
    (hs : ∀ r ∈ samples, lo ≤ r.toNat ∧ r.toNat ≤ hi) :
    (samples.foldl rttUpdate tcb).Holds (samples.foldl (fun e r => e.update r.toNat) e) ∧
      Within lo hi m (samples.foldl (fun e r => e.update r.toNat) e) := by
  induction samples generalizing tcb e with
  | nil => exact ⟨h, hw⟩
  | cons r rest ih =>
    have hr := hs r (List.mem_cons_self ..)
    exact ih (h.update hw hhi hm hspan hr) (hw.update hspan hr)
      fun x hx => hs x (List.mem_cons_of_mem _ hx)

/-- The estimator of a fresh block, with `lo` and `hi` the smallest and the largest
sample: the words hold the true values, and the sum before the clamp fits. -/
theorem rtt_bounds (hfresh : tcb.rttValid = false) (first : BitVec 32) (rest : List (BitVec 32))
    (hsmall : ∀ r ∈ first :: rest, r.toNat < 2 ^ 29)
    (hlo : IsLeast {n | ∃ r ∈ first :: rest, r.toNat = n} lo)
    (hhi : IsGreatest {n | ∃ r ∈ first :: rest, r.toNat = n} hi) :
    let next := (first :: rest).foldl rttUpdate tcb
    next.Holds (ofSamples first rest) ∧ (ofSamples first rest).timeout < 2 ^ 32 ∧
      lo ≤ next.srtt.toNat ∧ next.srtt.toNat ≤ hi ∧
      next.rttvar.toNat ≤ max (first.toNat / 2) (hi - lo) := by
  have hbound : ∀ r ∈ first :: rest, lo ≤ r.toNat ∧ r.toNat ≤ hi :=
    fun r hr => ⟨hlo.2 ⟨r, hr, rfl⟩, hhi.2 ⟨r, hr, rfl⟩⟩
  have hfirst := hbound first (List.mem_cons_self ..)
  have hhi29 : hi < 2 ^ 29 := by
    obtain ⟨r, hr, rfl⟩ := hhi.1
    exact hsmall r hr
  obtain ⟨hholds, hw⟩ := rtt_run (m := max (first.toNat / 2) (hi - lo)) rest
    (rttUpdate_first hfresh (by omega)) ⟨hfirst.1, hfirst.2, le_max_left ..⟩ hhi29 (by omega)
    (le_max_right ..) fun r hr => hbound r (List.mem_cons_of_mem _ hr)
  have hupper := hw.upper
  have hspread := hw.spread
  refine ⟨hholds, ?_, hholds.srtt ▸ hw.lower, hholds.srtt ▸ hupper, hholds.rttvar ▸ hspread⟩
  simp only [timeout, ofSamples]
  omega

theorem rtt_bounds_two : 40 ≤ ([100, 40].foldl rttUpdate zero).srtt.toNat ∧
    ([100, 40].foldl rttUpdate zero).srtt.toNat ≤ 100 := by
  have hleast : IsLeast {n | ∃ r ∈ [(100 : BitVec 32), 40], r.toNat = n} 40 := by
    simp [IsLeast, lowerBounds]
    omega
  have hgreatest : IsGreatest {n | ∃ r ∈ [(100 : BitVec 32), 40], r.toNat = n} 100 := by
    simp [IsGreatest, upperBounds]
    omega
  obtain ⟨-, -, hlo, hhi, -⟩ := @rtt_bounds zero _ _ rfl 100 [40] (by simp) hleast hgreatest
  exact ⟨hlo, hhi⟩

end BigOS.Net
