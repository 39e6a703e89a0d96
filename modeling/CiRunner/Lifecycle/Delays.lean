import Mathlib.Algebra.Order.Ring.Int
import Mathlib.Data.Int.ConditionallyCompleteOrder
import Mathlib.Order.Bounds.Basic
import Mathlib.Tactic.Positivity
import CiRunner.Lifecycle.Failures

/-! The delays before a request is tried again, in nanoseconds and with the arithmetic of
64-bit durations. The delay after a failure doubles with the number of retries; the delay
while a job waits doubles until it covers the age of the request. Neither loop wraps
around where the settings are below `2 ^ 62`, so both are a power of two times the base,
up to the maximum, and the lifecycle may compute with unbounded numbers. -/

namespace CiRunner.Lifecycle

open CiRunner.State (Time)

/-- A duration is doubled in 64 bits. -/
def double (delay : Int) : Int := (delay * 2).bmod (2 ^ 64)

/-- The loop over the retries that are left. -/
def retryLoop (max : Int) : Nat → Int → Int
  | 0, delay => delay
  | n + 1, delay => if max ≤ double delay then max else retryLoop max n (double delay)

def retryDelay (base max : Int) (retryCount : Nat) : Int :=
  let delay := retryLoop max (retryCount - 1) base
  if max < delay then max else delay

/-- The time of the next attempt, in nanoseconds. -/
def retryTime (base max : Int) (retryCount : Nat) (now : Int) : Int :=
  now + retryDelay base max retryCount

/-- The loop over the age of a request that waits; it is given up after some iterations. -/
def waitingLoop (max age : Int) : Nat → Int → Option Int
  | 0, _ => none
  | n + 1, delay =>
    if 0 < delay ∧ delay < max ∧ delay ≤ age then waitingLoop max age n (double delay)
    else some delay

/-- The delay of a request that waits, if the loop ends within so many iterations. -/
def waitingTime (base max age : Int) (iterations : Nat) : Option Int :=
  (waitingLoop max age iterations base).map (min · max)

variable {base max age delay : Int} {n k : Nat}

theorem double_of_lt (h : 0 < delay) (hlt : delay < 2 ^ 62) : double delay = delay * 2 := by
  unfold double
  rw [Int.bmod_eq_of_le] <;> omega

/-! ### Retries -/

theorem retryLoop_eq (hmax : max < 2 ^ 62) (n : Nat) (hpos : 0 < delay) (hlt : delay < 2 ^ 62) :
    min (retryLoop max n delay) max = min (delay * 2 ^ n) max := by
  induction n generalizing delay with
  | zero => simp [retryLoop]
  | succ n ih =>
    rw [retryLoop, double_of_lt hpos hlt, pow_succ', ← mul_assoc]
    split
    · rename_i hle
      have hone : (1 : Int) ≤ 2 ^ n := one_le_pow₀ (by decide)
      have hprod : delay * 2 * 1 ≤ delay * 2 * 2 ^ n :=
        mul_le_mul_of_nonneg_left hone (by omega)
      omega
    · exact ih (by omega) (by omega)

theorem retryDelay_eq (hbase : 0 < base) (hbase' : base < 2 ^ 62) (hmax : max < 2 ^ 62) (n : Nat) :
    retryDelay base max n = min (base * 2 ^ (n - 1)) max := by
  rw [← retryLoop_eq hmax (n - 1) hbase hbase']
  simp only [retryDelay]
  split <;> omega

theorem retryDelay_mono (hbase : 0 < base) (hbase' : base < 2 ^ 62) (hmax : max < 2 ^ 62) :
    Monotone (retryDelay base max) := by
  intro m n hmn
  rw [retryDelay_eq hbase hbase' hmax, retryDelay_eq hbase hbase' hmax]
  have hpow : (2 : Int) ^ (m - 1) ≤ 2 ^ (n - 1) := pow_le_pow_right₀ (by decide) (by omega)
  exact min_le_min_right _ (mul_le_mul_of_nonneg_left hpow hbase.le)

/-! ### Waiting -/

/-- The doublings after which a request has waited for less than the delay, or the delay has
reached its maximum. -/
def Covers (base max age : Int) (k : Nat) : Prop := age < base * 2 ^ k ∨ max ≤ base * 2 ^ k

theorem covers_max (hbase : 0 < base) (max age : Int) : Covers base max age max.toNat := by
  refine .inr ?_
  have hlt : max.toNat < 2 ^ max.toNat := Nat.lt_two_pow_self
  have hpow : (max.toNat : Int) < 2 ^ max.toNat := by exact_mod_cast hlt
  have hprod : (2 : Int) ^ max.toNat ≤ base * 2 ^ max.toNat :=
    le_mul_of_one_le_left (by positivity) (by omega)
  omega

theorem lt_of_not_covers (h : ¬ Covers base max age k) : base * 2 ^ k < max ∧ base * 2 ^ k ≤ age := by
  unfold Covers at h
  omega

theorem waitingLoop_eq (hbase : 0 < base) (hmax : max < 2 ^ 62) (hk : Covers base max age k)
    (hleast : ∀ j < k, ¬ Covers base max age j) {i : Nat} (hi : i ≤ k) (hn : k < i + n) :
    waitingLoop max age n (base * 2 ^ i) = some (base * 2 ^ k) := by
  induction n generalizing i with
  | zero => omega
  | succ n ih =>
    have hpos : 0 < base * 2 ^ i := mul_pos hbase (by positivity)
    rw [waitingLoop]
    by_cases heq : i = k
    · subst heq
      unfold Covers at hk
      rw [if_neg (by omega)]
    · obtain ⟨hlt, hle⟩ := lt_of_not_covers (hleast i (by omega))
      rw [if_pos ⟨hpos, hlt, hle⟩, double_of_lt hpos (by omega), mul_assoc, ← pow_succ]
      exact ih (by omega) (by omega)

/-- No value of the loop leaves the 64 bits, so that it is left after 63 iterations at most. -/
theorem pow_lt_of_least (hbase : 0 < base) (hbase' : base < 2 ^ 62) (hmax : max < 2 ^ 62)
    (hleast : ∀ j < k, ¬ Covers base max age j) : base * 2 ^ k < 2 ^ 63 ∧ k < 63 := by
  have hlt : base * 2 ^ k < 2 ^ 63 := by
    cases k with
    | zero => omega
    | succ j =>
      have hj := (lt_of_not_covers (hleast j (Nat.lt_succ_self j))).1
      rw [pow_succ, ← mul_assoc]
      omega
  refine ⟨hlt, ?_⟩
  have hpow : (2 : Int) ^ k < 2 ^ 63 :=
    lt_of_le_of_lt (le_mul_of_one_le_left (by positivity) (by omega)) hlt
  exact (pow_lt_pow_iff_right₀ (by decide)).mp hpow

theorem exists_least (hbase : 0 < base) (max age : Int) :
    ∃ k, Covers base max age k ∧ ∀ j < k, ¬ Covers base max age j := by
  have : DecidablePred (Covers base max age) := fun k => inferInstanceAs (Decidable (_ ∨ _))
  have hex : ∃ k, Covers base max age k := ⟨_, covers_max hbase max age⟩
  exact ⟨Nat.find hex, Nat.find_spec hex, fun _ hj => Nat.find_min hex hj⟩

theorem waitingTime_eq (hbase : 0 < base) (hmax : max < 2 ^ 62) (hk : Covers base max age k)
    (hleast : ∀ j < k, ¬ Covers base max age j) (hn : k < n) :
    waitingTime base max age n = some (min (base * 2 ^ k) max) := by
  have hloop := waitingLoop_eq (i := 0) (n := n) hbase hmax hk hleast (Nat.zero_le k) (by omega)
  rw [pow_zero, mul_one] at hloop
  rw [waitingTime, hloop, Option.map_some]

/-- A request that is older waits longer. -/
theorem min_pow_le {age' : Int} {k' : Nat} (hbase : 0 < base) (h : age ≤ age')
    (hleast : ∀ j < k, ¬ Covers base max age j) (hk' : Covers base max age' k') :
    min (base * 2 ^ k) max ≤ min (base * 2 ^ k') max := by
  by_cases hle : k ≤ k'
  · have hpow : (2 : Int) ^ k ≤ 2 ^ k' := pow_le_pow_right₀ (by decide) hle
    have hmul := mul_le_mul_of_nonneg_left hpow hbase.le
    omega
  · -- What covers the higher age covers the lower one, unless it is the maximum.
    have hmin := lt_of_not_covers (hleast k' (by omega))
    unfold Covers at hk'
    omega

/-! ### The lifecycle -/

theorem doubledDelay_eq (max n delay : Nat) :
    min (doubledDelay max n delay) max = min (delay * 2 ^ n) max := by
  induction n generalizing delay with
  | zero => simp [doubledDelay]
  | succ n ih =>
    rw [doubledDelay, pow_succ', ← mul_assoc]
    split
    · rename_i hle
      have hprod : delay * 2 ≤ delay * 2 * 2 ^ n := Nat.le_mul_of_pos_right _ (by positivity)
      rw [min_self, min_eq_right (hle.trans hprod)]
    · exact ih (delay * 2)

/-- The delays of the settings fit. -/
structure Settings.Fit (cfg : Settings) : Prop where
  base_pos : (0 : Int) < cfg.retryBaseDelay
  base_lt : (cfg.retryBaseDelay : Int) < 2 ^ 62
  max_lt : (cfg.retryMaxDelay : Int) < 2 ^ 62

theorem nextRetryAt_eq_retryTime {cfg : Settings} (h : cfg.Fit) (n : Nat) (now : Time) :
    (nextRetryAt cfg n now : Int) = retryTime cfg.retryBaseDelay cfg.retryMaxDelay n now := by
  rw [retryTime, retryDelay_eq h.base_pos h.base_lt h.max_lt, nextRetryAt, doubledDelay_eq]
  push_cast
  rfl

theorem coveringDelay_eq {base max age k n i : Nat} (hbase : 0 < base)
    (hk : Covers base max age k) (hleast : ∀ j < k, ¬ Covers base max age j) (hi : i ≤ k)
    (hn : k ≤ i + n) : coveringDelay max age n (base * 2 ^ i) = base * 2 ^ k := by
  induction n generalizing i with
  | zero =>
    obtain rfl : i = k := by omega
    rfl
  | succ n ih =>
    rw [coveringDelay]
    by_cases heq : i = k
    · subst heq
      have hcover : age < base * 2 ^ i ∨ max ≤ base * 2 ^ i := by
        unfold Covers at hk
        exact_mod_cast hk
      rw [if_neg (by omega)]
    · have hnot : ¬ (age < base * 2 ^ i ∨ max ≤ base * 2 ^ i) := by
        have hi := hleast i (by omega)
        unfold Covers at hi
        exact_mod_cast hi
      rw [if_pos ⟨Nat.mul_pos hbase (by positivity), by omega, by omega⟩, mul_assoc, ← pow_succ]
      exact ih (by omega) (by omega)

theorem waitingDelay_eq_waitingTime {cfg : Settings} (h : cfg.Fit) (age : Time) :
    waitingTime cfg.retryBaseDelay cfg.retryMaxDelay age 63 = some (waitingDelay cfg age : Int) := by
  obtain ⟨k, hk, hleast⟩ := exists_least h.base_pos cfg.retryMaxDelay age
  have hlt := (pow_lt_of_least h.base_pos h.base_lt h.max_lt hleast).2
  have hle : k ≤ cfg.retryMaxDelay := by
    by_contra hgt
    exact hleast _ (not_le.mp hgt) (covers_max h.base_pos cfg.retryMaxDelay age)
  have hcover := coveringDelay_eq (i := 0) (Int.natCast_pos.mp h.base_pos) hk hleast
    (Nat.zero_le k) (hle.trans (Nat.le_add_left _ 0))
  rw [pow_zero, mul_one] at hcover
  rw [waitingTime_eq h.base_pos h.max_lt hk hleast hlt, waitingDelay, hcover]
  push_cast
  rfl

theorem waitingDelay_eq_waitingTime_minute :
    let cfg : Settings := ⟨1, 1, 15, 300, "", 0, 0, 0, 0, 0, fun _ => ""⟩
    cfg.Fit ∧ waitingTime 15 300 60 63 = some (waitingDelay cfg 60 : Int) :=
  have h := ⟨by decide, by decide, by decide⟩
  ⟨h, waitingDelay_eq_waitingTime h 60⟩

/-! ### The delays -/

/-- Both delays are the base times a power of two, up to the maximum, with nothing lost in the 64
bits. -/
theorem retry_delays {base max : Int} (hbase : 0 < base) (hbase' : base < 2 ^ 62) (hmax : 0 < max)
    (hmax' : max < 2 ^ 62) :
    (∀ n ≥ 1, ∀ now, retryTime base max n now - now = min (base * 2 ^ (n - 1)) max ∧
      0 < retryTime base max n now - now ∧ retryTime base max n now - now ≤ max) ∧
    (∀ m n now, m ≤ n → retryTime base max m now ≤ retryTime base max n now) ∧
    (∀ age, ∃ k, IsLeast { k | age < base * 2 ^ k ∨ max ≤ base * 2 ^ k } k ∧ k < 63 ∧
      base * 2 ^ k < 2 ^ 63 ∧
      ∀ iterations > k, waitingTime base max age iterations = some (min (base * 2 ^ k) max)) ∧
    ∀ age age', age ≤ age' → ∀ iterations ≥ 63, ∃ d d',
      waitingTime base max age iterations = some d ∧
      waitingTime base max age' iterations = some d' ∧ d ≤ d' := by
  refine ⟨fun n _ now => ?_, fun m n now hmn => ?_, fun age => ?_, ?_⟩
  · have hpos : 0 < base * 2 ^ (n - 1) := mul_pos hbase (by positivity)
    rw [retryTime, retryDelay_eq hbase hbase' hmax', add_sub_cancel_left]
    omega
  · exact add_le_add_right (retryDelay_mono hbase hbase' hmax' hmn) now
  · obtain ⟨k, hk, hleast⟩ := exists_least hbase max age
    obtain ⟨hlt, hiter⟩ := pow_lt_of_least hbase hbase' hmax' hleast
    refine ⟨k, ⟨hk, fun j hj => ?_⟩, hiter, hlt, fun n hn => waitingTime_eq hbase hmax' hk hleast hn⟩
    exact not_lt.mp fun hjk => hleast j hjk hj
  · intro age age' hle n hn
    obtain ⟨k, hk, hleast⟩ := exists_least hbase max age
    obtain ⟨k', hk', hleast'⟩ := exists_least hbase max age'
    have hlt : k < n := lt_of_lt_of_le (pow_lt_of_least hbase hbase' hmax' hleast).2 hn
    have hlt' : k' < n := lt_of_lt_of_le (pow_lt_of_least hbase hbase' hmax' hleast').2 hn
    exact ⟨_, _, waitingTime_eq hbase hmax' hk hleast hlt,
      waitingTime_eq hbase hmax' hk' hleast' hlt', min_pow_le hbase hle hleast hk'⟩

/-- The default settings: fifteen seconds, doubled up to five minutes. A request that has waited for
a minute is looked at after two more. -/
theorem retry_delays_default :
    retryTime 15000000000 300000000000 4 0 = 120000000000 ∧
    waitingTime 15000000000 300000000000 60000000000 63 = some 120000000000 ∧
    ∀ n ≥ 1, ∀ now, retryTime 15000000000 300000000000 n now - now ≤ 300000000000 :=
  ⟨by decide, by decide, fun n hn now =>
    ((retry_delays (by decide : (0 : Int) < 15000000000) (by decide)
      (by decide : (0 : Int) < 300000000000) (by decide)).1 n hn now).2.2⟩

end CiRunner.Lifecycle
