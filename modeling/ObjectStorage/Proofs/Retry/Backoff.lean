import ObjectStorage.Retry.Policy

/-! # The law of pauses

The pause before a retry is drawn from the upper half of a ceiling. The ceiling is the shortest pause, doubled
for each retry made so far, and the longest pause if that is less. Its factor is held in 32 bits and its
nanoseconds in 64 bits, and what they do not hold is cut off.
-/
namespace ObjectStorage.RetryPolicy

/-- The shortest pause doubled for each retry made so far, but no more than the longest pause. -/
def doubled (p : RetryPolicy) (retry : Nat) : Nat := min (p.minPeriod.nanos * Nat.pow 2 retry) p.maxPeriod.nanos

/-- What the doubled pause is when 32 bits hold the factor and 64 bits the nanoseconds. -/
def heldCeiling (p : RetryPolicy) (retry : Nat) : Nat :=
  min (min (p.minPeriod.nanos * min (Nat.pow 2 retry) (Nat.pow 2 32 - 1)) p.maxPeriod.nanos) (Nat.pow 2 64 - 1)

theorem growth_eq (retry : Nat) : growth retry = min (Nat.pow 2 retry) (Nat.pow 2 32 - 1) := by
  unfold growth
  split
  · rename_i hlt
    have hle : Nat.pow 2 retry ≤ Nat.pow 2 31 := Nat.pow_le_pow_right (by decide) (by omega)
    have hbits : Nat.pow 2 31 ≤ Nat.pow 2 32 - 1 := by decide
    rw [Nat.min_eq_left (Nat.le_trans hle hbits)]
  · rename_i hge
    have hle : Nat.pow 2 32 ≤ Nat.pow 2 retry := Nat.pow_le_pow_right (by decide) (by omega)
    rw [Nat.min_eq_right (by omega)]

theorem min_backoffCeiling (p : RetryPolicy) (retry : Nat) :
    min (p.backoffCeiling retry) (Nat.pow 2 64 - 1) = p.heldCeiling retry := by
  have hlongest : Nat.pow 2 64 - 1 ≤ Duration.longest.nanos := by decide
  unfold backoffCeiling heldCeiling
  rw [growth_eq]
  generalize p.minPeriod.nanos * min (Nat.pow 2 retry) (Nat.pow 2 32 - 1) = grown
  omega

theorem backoffRange_eq (p : RetryPolicy) (retry : Nat) :
    p.backoffRange retry = if p.heldCeiling retry < 2 then (p.heldCeiling retry, p.heldCeiling retry)
      else (p.heldCeiling retry / 2, p.heldCeiling retry) := by
  have hheld := min_backoffCeiling p retry
  simp only [backoffRange, hheld]
  split
  · rename_i hlt
    have hbits : 2 ≤ Nat.pow 2 64 - 1 := by decide
    have hceiling : p.backoffCeiling retry = p.heldCeiling retry := by omega
    rw [hceiling]
  · rfl

theorem backoffRange_ordered (p : RetryPolicy) (retry : Nat) :
    p.heldCeiling retry / 2 ≤ (p.backoffRange retry).1 ∧ (p.backoffRange retry).1 ≤ (p.backoffRange retry).2 ∧
      (p.backoffRange retry).2 = p.heldCeiling retry := by
  rw [backoffRange_eq]
  split
  · exact ⟨Nat.div_le_self _ 2, Nat.le_refl _, rfl⟩
  · exact ⟨Nat.le_refl _, Nat.div_le_self _ 2, rfl⟩

theorem backoff_mem_range (p : RetryPolicy) (retry draw : Nat) :
    (p.backoffRange retry).1 ≤ (p.backoff retry draw).nanos ∧
      (p.backoff retry draw).nanos ≤ (p.backoffRange retry).2 := by
  obtain ⟨-, hordered, -⟩ := backoffRange_ordered p retry
  have hdraw : draw % ((p.backoffRange retry).2 - (p.backoffRange retry).1 + 1) <
      (p.backoffRange retry).2 - (p.backoffRange retry).1 + 1 := Nat.mod_lt draw (Nat.succ_pos _)
  simp only [backoff]
  constructor <;> omega

theorem backoff_le_heldCeiling (p : RetryPolicy) (retry draw : Nat) :
    (p.backoff retry draw).nanos ≤ p.heldCeiling retry := by
  obtain ⟨-, -, hhigh⟩ := backoffRange_ordered p retry
  exact hhigh ▸ (backoff_mem_range p retry draw).2

/-- Also when the shortest pause is longer. -/
theorem backoff_le_maxPeriod (p : RetryPolicy) (retry draw : Nat) :
    (p.backoff retry draw).nanos ≤ p.maxPeriod.nanos := by
  have hheld : p.heldCeiling retry ≤ p.maxPeriod.nanos :=
    Nat.le_trans (Nat.min_le_left _ _) (Nat.min_le_right _ _)
  exact Nat.le_trans (backoff_le_heldCeiling p retry draw) hheld

theorem heldCeiling_le_doubled (p : RetryPolicy) (retry : Nat) : p.heldCeiling retry ≤ p.doubled retry := by
  have hgrown : p.minPeriod.nanos * min (Nat.pow 2 retry) (Nat.pow 2 32 - 1) ≤ p.minPeriod.nanos * Nat.pow 2 retry :=
    Nat.mul_le_mul_left _ (Nat.min_le_left _ _)
  unfold heldCeiling doubled
  omega

/-- The ceiling is held in full if 64 bits hold it, and 32 bits its factor or as much of it as reaches the longest
pause. -/
theorem heldCeiling_eq_doubled_iff (p : RetryPolicy) (retry : Nat) :
    p.heldCeiling retry = p.doubled retry ↔ p.doubled retry < Nat.pow 2 64 ∧
      (retry < 32 ∨ p.minPeriod.nanos = 0 ∨ p.maxPeriod.nanos ≤ p.minPeriod.nanos * (Nat.pow 2 32 - 1)) := by
  have hbits : 0 < Nat.pow 2 64 := by decide
  unfold heldCeiling doubled
  rcases Nat.lt_or_ge retry 32 with hlt | hge
  · have hgrowth : min (Nat.pow 2 retry) (Nat.pow 2 32 - 1) = Nat.pow 2 retry := by
      rw [← growth_eq, growth, if_pos hlt]
    rw [hgrowth]
    generalize p.minPeriod.nanos * Nat.pow 2 retry = grown
    omega
  · have hgrowth : min (Nat.pow 2 retry) (Nat.pow 2 32 - 1) = Nat.pow 2 32 - 1 := by
      rw [← growth_eq, growth, if_neg (Nat.not_lt.2 hge)]
    have hfactor : Nat.pow 2 32 - 1 < Nat.pow 2 retry :=
      Nat.lt_of_lt_of_le (by decide) (Nat.pow_le_pow_right (by decide) hge)
    rw [hgrowth]
    rcases Nat.eq_zero_or_pos p.minPeriod.nanos with hzero | hpos
    · simp only [hzero, Nat.zero_mul, Nat.zero_min, hbits, true_or, or_true, and_self]
    · have hgrown : p.minPeriod.nanos * (Nat.pow 2 32 - 1) < p.minPeriod.nanos * Nat.pow 2 retry :=
        Nat.mul_lt_mul_of_pos_left hfactor hpos
      generalize p.minPeriod.nanos * Nat.pow 2 retry = grown at hgrown ⊢
      generalize p.minPeriod.nanos * (Nat.pow 2 32 - 1) = held at hgrown ⊢
      omega

/-- The pause before a retry, for any policy and any draw, is in the upper half of the ceiling that is held. That is
the doubled pause as far as the factor fits in 32 bits and the nanoseconds in 64, and there is always a pause to
draw. -/
theorem backoff_law (p : RetryPolicy) (retry : Nat) :
    (∀ draw, p.heldCeiling retry / 2 ≤ (p.backoff retry draw).nanos ∧
      (p.backoff retry draw).nanos ≤ p.heldCeiling retry) ∧
    p.heldCeiling retry ≤ p.doubled retry ∧
    (p.heldCeiling retry = p.doubled retry ↔ p.doubled retry < Nat.pow 2 64 ∧
      (retry < 32 ∨ p.minPeriod.nanos = 0 ∨ p.maxPeriod.nanos ≤ p.minPeriod.nanos * (Nat.pow 2 32 - 1))) ∧
    growth retry < Nat.pow 2 32 ∧ p.backoffCeiling retry ≤ Duration.longest.nanos ∧
    (p.backoffRange retry).1 ≤ (p.backoffRange retry).2 ∧ (p.backoffRange retry).2 < Nat.pow 2 64 := by
  obtain ⟨hlow, hordered, hhigh⟩ := backoffRange_ordered p retry
  have hgrowth : growth retry ≤ Nat.pow 2 32 - 1 := by
    rw [growth_eq]
    exact Nat.min_le_right _ _
  have hheld : p.heldCeiling retry ≤ Nat.pow 2 64 - 1 := Nat.min_le_right _ _
  refine ⟨fun draw => ⟨Nat.le_trans hlow (backoff_mem_range p retry draw).1, backoff_le_heldCeiling p retry draw⟩,
    heldCeiling_le_doubled p retry, heldCeiling_eq_doubled_iff p retry, ?_, ?_, hordered, ?_⟩
  · exact Nat.lt_of_le_of_lt hgrowth (by decide)
  · exact Nat.le_trans (Nat.min_le_left _ _) (Nat.min_le_right _ _)
  · rw [hhigh]
    exact Nat.lt_of_le_of_lt hheld (by decide)

def hasty : RetryPolicy := { minPeriod := ⟨1⟩, maxPeriod := .ofSecs 10 }

def unhurried : RetryPolicy := { minPeriod := ⟨Nat.pow 2 66⟩, maxPeriod := ⟨Nat.pow 2 66⟩ }

/-- Where the factor or the nanoseconds are cut off, every pause can be below the upper half of the doubled one. -/
theorem backoff_below_half :
    (∀ draw, (hasty.backoff 34 draw).nanos < hasty.doubled 34 / 2) ∧
      ∀ draw, (unhurried.backoff 0 draw).nanos < unhurried.doubled 0 / 2 := by
  constructor
  · intro draw
    have hcut : hasty.heldCeiling 34 < hasty.doubled 34 / 2 := by decide
    exact Nat.lt_of_le_of_lt (backoff_le_heldCeiling hasty 34 draw) hcut
  · intro draw
    have hcut : unhurried.heldCeiling 0 < unhurried.doubled 0 / 2 := by decide
    exact Nat.lt_of_le_of_lt (backoff_le_heldCeiling unhurried 0 draw) hcut

end ObjectStorage.RetryPolicy
