import Mathlib.Algebra.GroupWithZero.Nat
import Mathlib.Data.Nat.Count
import Mathlib.Data.Nat.Log
import SharedSlab.Backoff
import SharedSlab.Proofs.PowersOfTwo

set_option autoImplicit false

namespace SharedSlab.Backoff

variable {limit n k m : Nat} {b : Backoff}

/-- How many calls of a period spin: one for each 64-bit power of two below the limit. -/
def spinningCalls (limit : Nat) : Nat := Nat.count (2 ^ · < limit) 64

theorem count_two_pow_lt (limit n : Nat) :
    Nat.count (2 ^ · < limit) n = min n (Nat.clog 2 limit) := by
  induction n with
  | zero => rw [Nat.count_zero, Nat.zero_min]
  | succ n ih =>
    rw [Nat.count_succ, ih]
    split
    · next hlt =>
      have hclog := (Nat.lt_clog_iff_pow_lt (by decide)).2 hlt
      omega
    · next hge =>
      have hclog := (Nat.lt_clog_iff_pow_lt (by decide)).not.2 hge
      omega

theorem spinningCalls_eq_clog (fits : limit < wordLimit) :
    spinningCalls limit = Nat.clog 2 limit := by
  rw [spinningCalls, count_two_pow_lt]
  exact min_eq_right (Nat.clog_le_of_le_pow fits.le)

theorem spinningCalls_le_iff (fits : limit < wordLimit) :
    spinningCalls limit ≤ k ↔ limit ≤ 2 ^ k := by
  rw [spinningCalls_eq_clog fits]
  exact Nat.clog_le_iff_le_pow (by decide)

theorem two_pow_lt_limit (fits : limit < wordLimit) (hk : k < spinningCalls limit) :
    2 ^ k < limit :=
  not_le.1 ((spinningCalls_le_iff fits).not.1 (not_le.2 hk))

theorem two_pow_spinningCalls_lt (fits : limit < wordLimit) :
    2 ^ spinningCalls limit - 1 < 2 * max limit 1 := by
  cases hcalls : spinningCalls limit with
  | zero => omega
  | succ k =>
    have hlast : 2 ^ k < limit := two_pow_lt_limit fits (by omega)
    rw [Nat.pow_succ]
    omega

/-- The backoff with `k` calls of a period behind it. -/
def inPeriod (limit k : Nat) : Backoff := ⟨min (2 ^ k) (wordLimit - 1), limit⟩

theorem reset_eq_inPeriod (b : Backoff) : b.reset = inPeriod b.limit 0 := rfl

theorem new_eq_inPeriod (limit : Nat) : new limit = inPeriod limit 0 := rfl

theorem snooze_fst (b : Backoff) : b.snooze.1 = b.isExhausted := by
  rw [snooze]
  split
  · next h => exact h.symm
  · next h => exact (Bool.eq_false_of_not_eq_true h).symm

theorem isExhausted_inPeriod (fits : limit < wordLimit) :
    (inPeriod limit k).isExhausted = true ↔ spinningCalls limit ≤ k := by
  rw [spinningCalls_le_iff fits, isExhausted, decide_eq_true_iff]
  change limit ≤ min (2 ^ k) (wordLimit - 1) ↔ _
  rw [le_min_iff, and_iff_left (Nat.le_sub_one_of_lt fits)]

theorem doubled_step (k : Nat) :
    min (min (2 ^ k) (wordLimit - 1) * 2) (wordLimit - 1) = min (2 ^ (k + 1)) (wordLimit - 1) := by
  rw [Nat.pow_succ]
  omega

/-- A call yields at the end of the period only, and the position moves on in a circle. -/
theorem snooze_inPeriod (fits : limit < wordLimit) (hk : k ≤ spinningCalls limit) :
    (inPeriod limit k).snooze =
      (decide (k = spinningCalls limit), inPeriod limit ((k + 1) % (spinningCalls limit + 1))) := by
  rcases hk.eq_or_lt with rfl | hlt
  · have exhausted := (isExhausted_inPeriod fits).2 (le_refl (spinningCalls limit))
    rw [snooze, if_pos exhausted, reset_eq_inPeriod, Nat.mod_self, decide_eq_true rfl]
    rfl
  · have spinning := (isExhausted_inPeriod fits).not.2 (not_le.2 hlt)
    rw [snooze, if_neg spinning, Nat.mod_eq_of_lt (Nat.succ_lt_succ hlt), decide_eq_false hlt.ne,
      inPeriod, inPeriod, doubled_step]

theorem spins_inPeriod (fits : limit < wordLimit) (hk : k < spinningCalls limit) :
    (inPeriod limit k).spins = 2 ^ k := by
  -- a step below the limit was never cut at the largest word
  have hpow := two_pow_lt_limit fits hk
  rw [spins, if_neg ((isExhausted_inPeriod fits).not.2 (not_le.2 hk))]
  exact min_eq_left (by omega)

theorem spins_end (fits : limit < wordLimit) :
    (inPeriod limit (spinningCalls limit)).spins = 0 :=
  if_pos ((isExhausted_inPeriod fits).2 (le_refl _))

/-- A backoff that was called `n` times since it was new or last reset. -/
inductive Snoozed (limit : Nat) : Nat → Backoff → Prop
  | new : Snoozed limit 0 (new limit)
  | reset {n : Nat} {b : Backoff} (earlier : Snoozed limit n b) : Snoozed limit 0 b.reset
  | snooze {n : Nat} {b : Backoff} (earlier : Snoozed limit n b) :
    Snoozed limit (n + 1) b.snooze.2

theorem position_le (limit n : Nat) : n % (spinningCalls limit + 1) ≤ spinningCalls limit :=
  Nat.le_of_lt_succ (Nat.mod_lt _ (Nat.succ_pos _))

theorem Snoozed.eq_inPeriod (fits : limit < wordLimit) (h : Snoozed limit n b) :
    b = inPeriod limit (n % (spinningCalls limit + 1)) := by
  induction h with
  | new => rw [Nat.zero_mod, new_eq_inPeriod]
  | reset _ ih =>
    rw [Nat.zero_mod, reset_eq_inPeriod, ih]
    rfl
  | snooze _ ih => rw [ih, snooze_inPeriod fits (position_le limit _), Nat.mod_add_mod]

theorem snoozed_inPeriod (fits : limit < wordLimit) (hk : k ≤ spinningCalls limit) :
    Snoozed limit k (inPeriod limit k) := by
  induction k with
  | zero => exact .new
  | succ k ih =>
    have next := (ih (Nat.le_of_succ_le hk)).snooze
    rwa [snooze_inPeriod fits (Nat.le_of_succ_le hk), Nat.mod_eq_of_lt (Nat.lt_succ_of_le hk)]
      at next

theorem last_iff_dvd_succ (limit n : Nat) :
    n % (spinningCalls limit + 1) = spinningCalls limit ↔ spinningCalls limit + 1 ∣ n + 1 := by
  have hle := position_le limit n
  rw [Nat.dvd_iff_mod_eq_zero, ← Nat.mod_add_mod]
  constructor
  · intro hlast
    rw [hlast, Nat.mod_self]
  · intro hzero
    by_contra hne
    rw [Nat.mod_eq_of_lt (by omega)] at hzero
    omega

theorem Snoozed.yields_iff (fits : limit < wordLimit) (h : Snoozed limit n b) :
    b.snooze.1 = true ↔ spinningCalls limit + 1 ∣ n + 1 := by
  rw [h.eq_inPeriod fits, snooze_inPeriod fits (position_le limit n), decide_eq_true_iff]
  exact last_iff_dvd_succ limit n

theorem Snoozed.spins_eq (fits : limit < wordLimit) (h : Snoozed limit n b) :
    b.spins = if spinningCalls limit + 1 ∣ n + 1 then 0
      else 2 ^ (n % (spinningCalls limit + 1)) := by
  rw [h.eq_inPeriod fits]
  split
  · next last => rw [(last_iff_dvd_succ limit n).2 last, spins_end fits]
  · next other =>
    have hne := (last_iff_dvd_succ limit n).not.2 other
    exact spins_inPeriod fits ((position_le limit n).lt_of_ne hne)

theorem Snoozed.step_eq (fits : limit < wordLimit) (h : Snoozed limit n b) :
    b.step = min (2 ^ (n % (spinningCalls limit + 1))) (wordLimit - 1) :=
  congrArg step (h.eq_inPeriod fits)

theorem Snoozed.step_lt (fits : limit < wordLimit) (h : Snoozed limit n b) :
    b.step < wordLimit := by
  rw [h.step_eq fits]
  exact (min_le_right _ _).trans_lt (by decide)

def nextSpins (b : Backoff) : Nat → List Nat
  | 0 => []
  | n + 1 => b.spins :: b.snooze.2.nextSpins n

theorem nextSpins_inPeriod (fits : limit < wordLimit) (hrest : k + m = spinningCalls limit) :
    (inPeriod limit k).nextSpins (m + 1) = (List.range' k m).map (2 ^ ·) ++ [0] := by
  induction m generalizing k with
  | zero =>
    obtain rfl : k = spinningCalls limit := hrest
    rw [nextSpins, nextSpins, spins_end fits]
    rfl
  | succ m ih =>
    have hlt : k < spinningCalls limit := by omega
    rw [nextSpins, spins_inPeriod fits hlt, snooze_inPeriod fits hlt.le,
      Nat.mod_eq_of_lt (Nat.succ_lt_succ hlt), ih (by omega), List.range'_succ, List.map_cons,
      List.cons_append]

theorem sum_two_pow (n : Nat) : ((List.range n).map (2 ^ ·)).sum = 2 ^ n - 1 := by
  induction n with
  | zero => rfl
  | succ n ih =>
    have hpos := Nat.two_pow_pos n
    rw [List.range_succ, List.map_append, List.sum_append, ih, Nat.pow_succ]
    simp only [List.map_cons, List.map_nil, List.sum_cons, List.sum_nil]
    omega

theorem Snoozed.nextSpins_period (fits : limit < wordLimit) (h : Snoozed limit n b)
    (start : spinningCalls limit + 1 ∣ n) :
    b.nextSpins (spinningCalls limit + 1) =
      (List.range (spinningCalls limit)).map (2 ^ ·) ++ [0] := by
  rw [h.eq_inPeriod fits, Nat.mod_eq_zero_of_dvd start, List.range_eq_range']
  exact nextSpins_inPeriod fits (Nat.zero_add _)

example : (new 5).nextSpins 8 = [1, 2, 4, 0, 1, 2, 4, 0] := by decide

theorem Snoozed.sum_period (fits : limit < wordLimit) (h : Snoozed limit n b)
    (start : spinningCalls limit + 1 ∣ n) :
    (b.nextSpins (spinningCalls limit + 1)).sum = 2 ^ spinningCalls limit - 1 := by
  rw [h.nextSpins_period fits start, List.sum_append, sum_two_pow]
  rfl

/-- Each call by its number since the backoff was new or last reset: which calls yield, how long the
others spin, and what a whole period costs. -/
theorem snoozes_in_periods (fits : limit < wordLimit) (h : Snoozed limit n b) :
    (b.snooze.1 = true ↔ spinningCalls limit + 1 ∣ n + 1) ∧
    (b.isExhausted = true ↔ b.snooze.1 = true) ∧
    (b.spins = if spinningCalls limit + 1 ∣ n + 1 then 0
      else 2 ^ (n % (spinningCalls limit + 1))) ∧
    b.step = min (2 ^ (n % (spinningCalls limit + 1))) (wordLimit - 1) ∧
    b.step < wordLimit ∧
    (spinningCalls limit + 1 ∣ n →
      b.nextSpins (spinningCalls limit + 1) =
        (List.range (spinningCalls limit)).map (2 ^ ·) ++ [0] ∧
      (b.nextSpins (spinningCalls limit + 1)).sum = 2 ^ spinningCalls limit - 1) ∧
    2 ^ spinningCalls limit - 1 < 2 * max limit 1 := by
  refine ⟨h.yields_iff fits, ?_, h.spins_eq fits, h.step_eq fits, h.step_lt fits,
    fun start => ⟨h.nextSpins_period fits start, h.sum_period fits start⟩,
    two_pow_spinningCalls_lt fits⟩
  rw [snooze_fst]

/-- The largest limit: the last doubling stops at the largest word, and the next call yields. -/
theorem snoozes_in_periods_largest :
    Snoozed (wordLimit - 1) 64 ⟨wordLimit - 1, wordLimit - 1⟩ ∧
      (⟨wordLimit - 1, wordLimit - 1⟩ : Backoff).snooze = (true, new (wordLimit - 1)) ∧
      Snoozed (wordLimit - 1) 65 (new (wordLimit - 1)) ∧
      ((new (wordLimit - 1)).nextSpins 65).sum = 2 ^ 64 - 1 := by
  have fits : wordLimit - 1 < wordLimit := by decide
  have calls : spinningCalls (wordLimit - 1) = 64 := by decide
  have exhausted : Snoozed (wordLimit - 1) 64 ⟨wordLimit - 1, wordLimit - 1⟩ :=
    snoozed_inPeriod fits calls.ge
  have again : Snoozed (wordLimit - 1) 65 (new (wordLimit - 1)) := exhausted.snooze
  obtain ⟨yields, -⟩ := snoozes_in_periods fits exhausted
  obtain ⟨-, -, -, -, -, period, -⟩ := snoozes_in_periods fits again
  rw [calls] at yields period
  refine ⟨exhausted, Prod.ext (yields.2 (Nat.dvd_refl _)) rfl, again, (period (Nat.dvd_refl _)).2⟩

end SharedSlab.Backoff
