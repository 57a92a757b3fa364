import Mathlib.Data.List.Infix
import ObjectStorage.Text.Search

/-! # First occurrences

The search for a text in another one finds where it occurs first.
-/
namespace ObjectStorage.Text

/-- In a text a needle occurs after a head, and never before it. -/
structure FirstAfter (needle head s : List Char) : Prop where
  occurs : head ++ needle <+: s
  least : ∀ other, other ++ needle <+: s → head.length ≤ other.length

theorem firstAfter_of_isPrefix {needle head s : List Char} (h : needle <+: s) :
    FirstAfter needle head s ↔ head = [] := by
  constructor
  · intro hfirst
    exact List.eq_nil_of_length_eq_zero (Nat.le_zero.1 (hfirst.least [] h))
  · rintro rfl
    exact ⟨h, fun _ _ => Nat.zero_le _⟩

theorem firstAfter_cons_iff {needle head s : List Char} {c : Char} (h : ¬needle <+: c :: s) :
    FirstAfter needle head (c :: s) ↔ ∃ rest, head = c :: rest ∧ FirstAfter needle rest s := by
  constructor
  · rintro ⟨hoccurs, hleast⟩
    cases head with
    | nil => exact absurd hoccurs h
    | cons d rest =>
      obtain ⟨rfl, hrest⟩ := List.cons_prefix_cons.1 hoccurs
      refine ⟨rest, rfl, hrest, fun other hother => ?_⟩
      exact Nat.le_of_succ_le_succ (hleast (d :: other) ((List.prefix_cons_inj d).2 hother))
  · rintro ⟨rest, rfl, hoccurs, hleast⟩
    refine ⟨(List.prefix_cons_inj c).2 hoccurs, fun other hother => ?_⟩
    cases other with
    | nil => exact absurd hother h
    | cons d other => exact Nat.succ_le_succ (hleast other (List.cons_prefix_cons.1 hother).2)

theorem throughFirst_of_isPrefix {needle s : List Char} (h : needle <+: s) : throughFirst needle s = some needle := by
  cases s with
  | nil => simp [throughFirst, List.prefix_nil.1 h]
  | cons c s => simp [throughFirst, h]

/-- The search finds the first occurrence, if there is one. -/
theorem throughFirst_eq_some_iff {needle s t : List Char} :
    throughFirst needle s = some t ↔ ∃ head, FirstAfter needle head s ∧ t = head ++ needle := by
  induction s generalizing t with
  | nil =>
    by_cases h : needle <+: []
    · simp [throughFirst_of_isPrefix h, firstAfter_of_isPrefix h, eq_comm]
    · have hnone : throughFirst needle [] = none := by simpa [throughFirst] using h
      rw [hnone]
      refine iff_of_false (by simp) ?_
      rintro ⟨head, hfirst, -⟩
      obtain ⟨-, rfl⟩ := List.append_eq_nil_iff.1 (List.prefix_nil.1 hfirst.occurs)
      exact h List.nil_prefix
  | cons c s ih =>
    by_cases h : needle <+: c :: s
    · simp [throughFirst_of_isPrefix h, firstAfter_of_isPrefix h, eq_comm]
    · have hlater : throughFirst needle (c :: s) = (throughFirst needle s).map (c :: ·) := by
        simp [throughFirst, h]
      simp only [hlater, Option.map_eq_some_iff, ih, firstAfter_cons_iff h]
      constructor
      · rintro ⟨_, ⟨rest, hrest, rfl⟩, rfl⟩
        exact ⟨c :: rest, ⟨rest, rfl, hrest⟩, rfl⟩
      · rintro ⟨_, ⟨rest, rfl, hrest⟩, rfl⟩
        exact ⟨rest ++ needle, ⟨rest, hrest, rfl⟩, rfl⟩

theorem throughFirst_eq_none_iff {needle s : List Char} :
    throughFirst needle s = none ↔ ∀ head, ¬head ++ needle <+: s := by
  induction s with
  | nil => simp [throughFirst]
  | cons c s ih =>
    by_cases h : needle <+: c :: s
    · rw [throughFirst_of_isPrefix h]
      exact iff_of_false (by simp) fun hnowhere => hnowhere [] h
    · have hlater : throughFirst needle (c :: s) = (throughFirst needle s).map (c :: ·) := by
        simp [throughFirst, h]
      rw [hlater, Option.map_eq_none_iff, ih]
      constructor
      · intro hnowhere head hoccurs
        cases head with
        | nil => exact h hoccurs
        | cons d head => exact hnowhere head (List.cons_prefix_cons.1 hoccurs).2
      · intro hnowhere head hoccurs
        exact hnowhere (c :: head) ((List.prefix_cons_inj c).2 hoccurs)

end ObjectStorage.Text
