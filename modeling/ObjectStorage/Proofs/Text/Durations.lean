import ObjectStorage.Proofs.Text.Spellings

/-! # Durations read back

The text of a duration is a number and the largest unit that measures it exactly. Reading the text gives the
same duration, as long as that fits 64 bits of nanoseconds; a longer one is refused.
-/
namespace ObjectStorage

/-- The unit that so many nanoseconds are written in: the largest one that measures them exactly, and the second
if there are none. -/
structure TimeUnit.Suits (u : TimeUnit) (n : Nat) : Prop where
  dvd : u.nanos ∣ n
  largest : n ≠ 0 → ∀ v : TimeUnit, v.nanos ∣ n → v.nanos ≤ u.nanos
  zero : n = 0 → u = .second

namespace Duration

theorem units_sorted : units.Pairwise fun u v => v.2 ≤ u.2 := by decide

theorem exists_exactUnit (n : Nat) : ∃ u : TimeUnit, exactUnit n units = some (u.name, u.nanos) ∧ u.nanos ∣ n ∧
    ∀ v : TimeUnit, v.nanos ∣ n → v.nanos ≤ u.nanos := by
  have hsome : (exactUnit n units).isSome := by simp [exactUnit, units, Nat.mod_one]
  obtain ⟨⟨name, scale⟩, hfound⟩ := Option.isSome_iff_exists.1 hsome
  obtain ⟨u, rfl, rfl⟩ := TimeUnit.mem_units_iff.1 (List.mem_of_find?_eq_some hfound)
  obtain ⟨hexact, before, after, hunits, hbefore⟩ := List.find?_eq_some_iff_append.1 hfound
  refine ⟨u, hfound, Nat.dvd_of_mod_eq_zero (by simpa using hexact), ?_⟩
  intro v hv
  have hmem : (v.name, v.nanos) ∈ before ++ (u.name, u.nanos) :: after := by
    rw [← hunits]
    exact TimeUnit.mem_units_iff.2 ⟨v, rfl, rfl⟩
  have hsorted := units_sorted
  rw [hunits, List.pairwise_append, List.pairwise_cons] at hsorted
  rcases List.mem_append.1 hmem with hmem | hmem
  · simpa [Nat.mod_eq_zero_of_dvd hv] using hbefore _ hmem
  · rcases List.mem_cons.1 hmem with heq | hmem
    · exact Nat.le_of_eq (congrArg Prod.snd heq)
    · exact hsorted.2.1.1 _ hmem

namespace Spelling

def plain (n : Nat) (u : TimeUnit) : Spelling where
  before := []
  digits := Nat.toDigits 10 n
  unit := u
  after := []
  blank_before := by simp [Text.AllBlank]
  digits_ne_nil := Nat.toDigits_ne_nil
  isDigit := fun _ hc => Nat.isDigit_of_mem_toDigits (by decide) (by decide) hc
  blank_after := by simp [Text.AllBlank]

@[simp] theorem number_plain (n : Nat) (u : TimeUnit) : (plain n u).number = n := Nat.ofDigitChars_ten_toDigits

@[simp] theorem nanos_plain (n : Nat) (u : TimeUnit) : (plain n u).nanos = n * u.nanos := by
  rw [nanos, number_plain]
  rfl

theorem text_plain (n : Nat) (u : TimeUnit) : (plain n u).text = toString n ++ u.name := by
  rw [← String.toList_inj]
  simp [text, core, plain]

end Spelling

theorem exists_format (d : Duration) : ∃ n, ∃ u : TimeUnit,
    d.format = (Spelling.plain n u).text ∧ (Spelling.plain n u).nanos = d.nanos ∧ u.Suits d.nanos := by
  by_cases hzero : d.nanos = 0
  · refine ⟨0, .second, by simp [format, hzero, Spelling.text_plain]; rfl, by simp [hzero], ?_⟩
    exact ⟨hzero ▸ Nat.dvd_zero _, fun hne => absurd hzero hne, fun _ => rfl⟩
  · obtain ⟨u, hfound, hdvd, hlargest⟩ := exists_exactUnit d.nanos
    refine ⟨d.nanos / u.nanos, u, ?_, by simp [Nat.div_mul_cancel hdvd], ?_⟩
    · simp only [format, hzero, ↓reduceIte, hfound, Spelling.text_plain]
    · exact ⟨hdvd, fun _ => hlargest, fun h => absurd h hzero⟩

/-- What is written of a duration is read as the same duration, unless it is longer than a text can say. -/
theorem parse_format (d : Duration) (hd : d.nanos < numberLimit) :
    parse d.format = if d.nanos < nanosLimit then .ok d else .error (.tooLarge d.format) := by
  obtain ⟨n, u, hformat, hnanos, -⟩ := d.exists_format
  have hnumber : (Spelling.plain n u).number < numberLimit :=
    Nat.lt_of_le_of_lt (hnanos ▸ Spelling.number_le_nanos _) hd
  have hcore : String.ofList (Spelling.plain n u).core = d.format := by
    rw [hformat]
    simp [Spelling.text, Spelling.plain]
  rw [hformat, Spelling.parse_text, hnanos, Spelling.excess, if_pos hnumber, hcore, ← hformat]

def exceedsText (d : Duration) : Bool := nanosLimit ≤ d.nanos

/-- What can be given for a duration: a text, or a number of milliseconds that fits 64 bits. -/
def Given (d : Duration) : Prop := d.exceedsText = true → ∃ ms < Nat.pow 2 64, d = .ofMillis ms

theorem given_of_lt {d : Duration} (h : d.nanos < nanosLimit) : d.Given := by
  intro hlong
  exact absurd h (Nat.not_lt_of_le (of_decide_eq_true hlong))

theorem given_ofMillis {ms : Nat} (h : ms < Nat.pow 2 64) : (ofMillis ms).Given := fun _ => ⟨ms, h, rfl⟩

theorem Given.lt_numberLimit {d : Duration} (h : d.Given) : d.nanos < numberLimit := by
  cases hlong : d.exceedsText with
  | false => exact Nat.lt_trans (Nat.lt_of_not_le (of_decide_eq_false hlong)) (by decide)
  | true =>
    obtain ⟨ms, hms, rfl⟩ := h hlong
    exact Nat.lt_trans (Nat.mul_lt_mul_of_pos_right hms (by decide)) (by decide)

/-- What is written of a given duration is read as the same duration, unless no text can say it. -/
theorem Given.parse_format {d : Duration} (h : d.Given) :
    parse d.format = if d.exceedsText then .error (.tooLarge d.format) else .ok d := by
  rw [Duration.parse_format d h.lt_numberLimit]
  by_cases hlt : d.nanos < nanosLimit
  · simp [exceedsText, hlt, Nat.not_le_of_lt hlt]
  · simp [exceedsText, hlt, Nat.le_of_not_lt hlt]

end Duration
end ObjectStorage
