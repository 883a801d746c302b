import Mathlib.Algebra.Order.Ring.Nat
import ResultChunks.Retry.Policy

/-!
# Backoff against its rule

The rule for the wait before a retry is short: the base delay, doubled for each retry of the class
before this one, and no longer than the longest delay (`ruledBackoff`). `backoff` computes it with two
cuts on the way. The cut of the product at the longest duration is never seen, since no longest delay
is longer than that. The cut of the factor at 32 bits is seen from the 33rd retry on, and only where
the base delay times the largest factor is still shorter than the longest delay: there the wait stands
still below what the rule says (`backoff_ruled_iff`).
-/

namespace ResultChunks

namespace Duration

variable {a b d : Duration} {k : Nat}

theorem eq_of_nanos (h : a.nanos = b.nanos) : a = b := by
  obtain ⟨n⟩ := a
  exact congrArg Duration.mk h

theorem nanos_shorter (a b : Duration) : (a.shorter b).nanos = min a.nanos b.nanos := by
  rw [shorter]
  split
  · rename_i h
    exact (Nat.min_eq_right h).symm
  · rename_i h
    exact (Nat.min_eq_left (Nat.le_of_lt (Nat.lt_of_not_le h))).symm

/-- A multiple that is cut off at the longest duration is as good as the exact one where it is cut off
again at a duration in range. -/
theorem nanos_shorter_mulCapped {m : Duration} (hm : m.InRange) :
    ((d.mulCapped k).shorter m).nanos = min (d.nanos * k) m.nanos := by
  have hle : m.nanos ≤ longest.nanos := Nat.le_sub_one_of_lt hm
  rw [nanos_shorter, mulCapped, nanos_shorter]
  dsimp only
  omega

end Duration

namespace RetryPolicy

/-- The largest factor: all of its 32 bits are set. -/
def maxFactor : Nat := Nat.pow 2 32 - 1

/-- The wait before the `n`-th retry of a class as the rule has it. -/
def ruledBackoff (p : RetryPolicy) (n : Nat) : Duration :=
  (⟨p.baseDelay.nanos * Nat.pow 2 (n - 1)⟩ : Duration).shorter p.maxDelay

/-- No longest delay goes beyond what the largest factor makes of the base delay. -/
def FactorSuffices (p : RetryPolicy) : Prop :=
  p.baseDelay = .zero ∨ p.maxDelay.nanos ≤ p.baseDelay.nanos * maxFactor

instance (p : RetryPolicy) : Decidable p.FactorSuffices := inferInstanceAs (Decidable (_ ∨ _))

variable {p : RetryPolicy} {m n : Nat}

/-! ## The factor -/

theorem backoffFactor_of_le (h : n ≤ 32) : backoffFactor n = Nat.pow 2 (n - 1) := if_pos h

theorem backoffFactor_of_gt (h : 32 < n) : backoffFactor n = maxFactor := if_neg (Nat.not_le.2 h)

/-- Powers that were not cut off are below the largest factor. -/
theorem pow_le_maxFactor (h : n ≤ 32) : Nat.pow 2 (n - 1) ≤ maxFactor := by
  have hpow : Nat.pow 2 (n - 1) ≤ Nat.pow 2 31 := Nat.pow_le_pow_right (by decide) (by omega)
  exact Nat.le_trans hpow (by decide)

/-- Powers that were cut off are above it. -/
theorem maxFactor_lt_pow (h : 32 < n) : maxFactor < Nat.pow 2 (n - 1) := by
  have hpow : Nat.pow 2 32 ≤ Nat.pow 2 (n - 1) := Nat.pow_le_pow_right (by decide) (by omega)
  exact Nat.lt_of_lt_of_le (by decide) hpow

theorem backoffFactor_mono (h : m ≤ n) : backoffFactor m ≤ backoffFactor n := by
  by_cases hn : n ≤ 32
  · rw [backoffFactor_of_le hn, backoffFactor_of_le (Nat.le_trans h hn)]
    exact Nat.pow_le_pow_right (by decide) (Nat.sub_le_sub_right h 1)
  · rw [backoffFactor_of_gt (Nat.lt_of_not_le hn)]
    by_cases hm : m ≤ 32
    · rw [backoffFactor_of_le hm]
      exact pow_le_maxFactor hm
    · exact Nat.le_of_eq (backoffFactor_of_gt (Nat.lt_of_not_le hm))

/-! ## The wait -/

theorem nanos_backoff (hmax : p.maxDelay.InRange) (n : Nat) :
    (p.backoff n).nanos = min (p.baseDelay.nanos * backoffFactor n) p.maxDelay.nanos :=
  Duration.nanos_shorter_mulCapped hmax

theorem nanos_ruledBackoff (p : RetryPolicy) (n : Nat) :
    (p.ruledBackoff n).nanos = min (p.baseDelay.nanos * Nat.pow 2 (n - 1)) p.maxDelay.nanos :=
  Duration.nanos_shorter _ _

/-- Up to the 32nd retry the rule is kept. -/
theorem backoff_of_le (hmax : p.maxDelay.InRange) (h : n ≤ 32) : p.backoff n = p.ruledBackoff n := by
  refine Duration.eq_of_nanos ?_
  rw [nanos_backoff hmax, nanos_ruledBackoff, backoffFactor_of_le h]

/-- Later it is kept as long as the largest factor suffices. -/
theorem backoff_of_suffices (hmax : p.maxDelay.InRange) (h : p.FactorSuffices) (hn : 32 < n) :
    p.backoff n = p.ruledBackoff n := by
  refine Duration.eq_of_nanos ?_
  rw [nanos_backoff hmax, nanos_ruledBackoff, backoffFactor_of_gt hn]
  rcases h with hzero | hlong
  · rw [hzero, Duration.zero, Nat.zero_mul, Nat.zero_mul]
  · -- both products are cut off
    have hpow := Nat.mul_le_mul_left p.baseDelay.nanos (Nat.le_of_lt (maxFactor_lt_pow hn))
    rw [Nat.min_eq_right hlong, Nat.min_eq_right (Nat.le_trans hlong hpow)]

/-- **Where it does not suffice, the wait stands still** below what the rule says. -/
theorem backoff_of_not_suffices (hmax : p.maxDelay.InRange) (h : ¬ p.FactorSuffices) (hn : 32 < n) :
    p.backoff n = ⟨p.baseDelay.nanos * maxFactor⟩ ∧ p.backoff n < p.ruledBackoff n := by
  rw [FactorSuffices, not_or, Nat.not_le] at h
  obtain ⟨hbase, hshort⟩ := h
  have hstill : (p.backoff n).nanos = p.baseDelay.nanos * maxFactor := by
    rw [nanos_backoff hmax, backoffFactor_of_gt hn, Nat.min_eq_left (Nat.le_of_lt hshort)]
  refine ⟨Duration.eq_of_nanos hstill, ?_⟩
  have hpos : 0 < p.baseDelay.nanos :=
    Nat.pos_of_ne_zero fun hzero => hbase (Duration.eq_of_nanos hzero)
  have hpow := Nat.mul_lt_mul_of_pos_left (maxFactor_lt_pow hn) hpos
  change (p.backoff n).nanos < (p.ruledBackoff n).nanos
  rw [hstill, nanos_ruledBackoff]
  exact Nat.lt_min.2 ⟨hpow, hshort⟩

/-- **Backoff follows its rule up to the 32nd retry, and for good exactly if the largest factor
suffices.** From the 33rd retry on the wait is otherwise the base delay times that factor, which is
less than the rule says. In any case waits do not become shorter from one retry to the next, and none
is longer than the longest delay. -/
theorem backoff_ruled_iff (hmax : p.maxDelay.InRange) :
    (∀ n, p.backoff n = p.ruledBackoff n ↔ n ≤ 32 ∨ p.FactorSuffices) ∧
      ((∀ n, 1 ≤ n → n < Nat.pow 2 32 → p.backoff n = p.ruledBackoff n) ↔ p.FactorSuffices) ∧
      (∀ n, 32 < n → ¬ p.FactorSuffices →
        p.backoff n = ⟨p.baseDelay.nanos * maxFactor⟩ ∧ p.backoff n < p.ruledBackoff n) ∧
      (∀ m n, m ≤ n → p.backoff m ≤ p.backoff n) ∧
      ∀ n, p.backoff n ≤ p.maxDelay := by
  have hruled : ∀ n, p.backoff n = p.ruledBackoff n ↔ n ≤ 32 ∨ p.FactorSuffices := by
    intro n
    by_cases hn : n ≤ 32
    · exact iff_of_true (backoff_of_le hmax hn) (Or.inl hn)
    · have hgt : 32 < n := Nat.lt_of_not_le hn
      refine ⟨fun heq => Or.inr ?_, fun h => backoff_of_suffices hmax (h.resolve_left hn) hgt⟩
      by_contra hnot
      have hlt := (backoff_of_not_suffices hmax hnot hgt).2
      rw [heq] at hlt
      exact Nat.lt_irrefl _ hlt
  refine ⟨hruled, ⟨fun hall => ?_, fun h n _ _ => (hruled n).2 (Or.inr h)⟩,
    fun n hn h => backoff_of_not_suffices hmax h hn, ?_, ?_⟩
  · -- the 33rd retry is the first one that shows the cut
    exact ((hruled 33).1 (hall 33 (by decide) (by decide))).resolve_left (by decide)
  · intro m n hmn
    have hfactor := Nat.mul_le_mul_left p.baseDelay.nanos (backoffFactor_mono hmn)
    change (p.backoff m).nanos ≤ (p.backoff n).nanos
    rw [nanos_backoff hmax, nanos_backoff hmax]
    omega
  · intro n
    change (p.backoff n).nanos ≤ p.maxDelay.nanos
    rw [nanos_backoff hmax]
    exact Nat.min_le_right _ _

namespace Sample

/-- From one millisecond up to some longest delay. -/
def fromOneMilli (max : Duration) : RetryPolicy := { baseDelay := .ofMillis 1, maxDelay := max }

end Sample

/-- The largest factor just suffices: one millisecond grows to the longest delay at the 33rd retry. -/
theorem backoff_ruled_just :
    (Sample.fromOneMilli (.ofMillis 4294967295)).maxDelay.InRange ∧
      (Sample.fromOneMilli (.ofMillis 4294967295)).backoff 33 = .ofMillis 4294967295 ∧
      ∀ n, 1 ≤ n → n < Nat.pow 2 32 →
        (Sample.fromOneMilli (.ofMillis 4294967295)).backoff n =
          (Sample.fromOneMilli (.ofMillis 4294967295)).ruledBackoff n := by
  have hmax : (Sample.fromOneMilli (.ofMillis 4294967295)).maxDelay.InRange := by decide
  obtain ⟨-, hall, -⟩ := backoff_ruled_iff hmax
  exact ⟨hmax, by decide, hall.2 (by decide)⟩

/-- **One millisecond more, and the 33rd retry waits less than the rule says**, and so do all later
ones. -/
theorem backoff_stands_still :
    (Sample.fromOneMilli (.ofMillis 4294967296)).validate = .ok () ∧
      (Sample.fromOneMilli (.ofMillis 4294967296)).baseDelay ≤
        (Sample.fromOneMilli (.ofMillis 4294967296)).maxDelay ∧
      (Sample.fromOneMilli (.ofMillis 4294967296)).ruledBackoff 33 = .ofMillis 4294967296 ∧
      (Sample.fromOneMilli (.ofMillis 4294967296)).backoff 33 = .ofMillis 4294967295 ∧
      (Sample.fromOneMilli (.ofMillis 4294967296)).backoff 34 = .ofMillis 4294967295 := by
  decide +kernel

end RetryPolicy

end ResultChunks
