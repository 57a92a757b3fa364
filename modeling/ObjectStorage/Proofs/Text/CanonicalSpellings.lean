import ObjectStorage.Proofs.Text.Durations

/-! # Canonical spellings

The text that is written of a duration is its canonical spelling: no blanks, no zeros in front, and the largest
unit that measures it exactly. A duration has one of them, no two durations have the same, and no spelling of the
duration is shorter.
-/
namespace ObjectStorage

namespace TimeUnit

theorem nanos_injective {u v : TimeUnit} (h : u.nanos = v.nanos) : u = v := by
  revert h
  cases u <;> cases v <;> decide

theorem length_name_le {u v : TimeUnit} (h : u.nanos ≤ v.nanos) : v.name.length ≤ u.name.length := by
  revert h
  cases u <;> cases v <;> decide

theorem Suits.unique {u v : TimeUnit} {n : Nat} (hu : u.Suits n) (hv : v.Suits n) : u = v := by
  by_cases hn : n = 0
  · rw [hu.zero hn, hv.zero hn]
  · exact nanos_injective (Nat.le_antisymm (hv.largest hn u hu.dvd) (hu.largest hn v hv.dvd))

end TimeUnit

namespace Duration

namespace Spelling

structure IsCanonical (s : Spelling) : Prop where
  before : s.before = []
  after : s.after = []
  no_zero : s.digits.head? = some '0' → s.digits = ['0']
  suits : s.unit.Suits s.nanos

theorem isCanonical_plain {n : Nat} {u : TimeUnit} (h : u.Suits (plain n u).nanos) : (plain n u).IsCanonical := by
  refine ⟨rfl, rfl, ?_, h⟩
  intro hhead
  have hzero : n = 0 := Nat.eq_zero_of_not_pos fun hpos => Text.head?_toDigits hpos hhead
  simp [plain, hzero]

theorem length_text (s : Spelling) :
    s.text.length = s.before.length + (s.digits.length + s.unit.name.length) + s.after.length := by
  simp [text, core, String.length_ofList, Nat.add_assoc]

namespace IsCanonical
variable {s t : Spelling}

theorem digits_eq (h : s.IsCanonical) : s.digits = Nat.toDigits 10 s.number :=
  (Text.toDigits_ofDigitChars s.digits_ne_nil s.isDecimalDigit h.no_zero).symm

theorem text_eq (h : s.IsCanonical) : s.text = (plain s.number s.unit).text := by
  rw [text, core, h.before, h.after, h.digits_eq]
  rfl

/-- A duration has one canonical spelling. -/
theorem text_unique (hs : s.IsCanonical) (ht : t.IsCanonical) (h : s.nanos = t.nanos) : s.text = t.text := by
  have hunit : s.unit = t.unit := hs.suits.unique (h ▸ ht.suits)
  have hnumber : s.number = t.number := by
    apply Nat.eq_of_mul_eq_mul_right s.unit.nanos_pos
    calc s.number * s.unit.nanos
      _ = t.number * t.unit.nanos := h
      _ = t.number * s.unit.nanos := by rw [hunit]
  rw [hs.text_eq, ht.text_eq, hnumber, hunit]

theorem nanos_unit_le (hs : s.IsCanonical) (h : s.nanos = t.nanos) (hne : s.nanos ≠ 0) :
    t.unit.nanos ≤ s.unit.nanos :=
  hs.suits.largest hne t.unit (h ▸ Nat.dvd_mul_left _ _)

theorem number_le (hs : s.IsCanonical) (h : s.nanos = t.nanos) : s.number ≤ t.number := by
  by_cases hzero : s.nanos = 0
  · have hle := s.number_le_nanos
    omega
  · apply Nat.le_of_mul_le_mul_right _ s.unit.nanos_pos
    calc s.number * s.unit.nanos
      _ = t.number * t.unit.nanos := h
      _ ≤ t.number * s.unit.nanos := Nat.mul_le_mul_left _ (hs.nanos_unit_le h hzero)

/-- Not even the name of the unit: the second, which stands for no time at all, has one letter. -/
theorem length_name_le (hs : s.IsCanonical) (h : s.nanos = t.nanos) : s.unit.name.length ≤ t.unit.name.length := by
  by_cases hzero : s.nanos = 0
  · have hsecond : ∀ u : TimeUnit, TimeUnit.second.name.length ≤ u.name.length := by
      intro u
      cases u <;> decide
    rw [hs.suits.zero hzero]
    exact hsecond t.unit
  · exact TimeUnit.length_name_le (hs.nanos_unit_le h hzero)

theorem length_le (hs : s.IsCanonical) (h : s.nanos = t.nanos) : s.text.length ≤ t.text.length := by
  have hdigits : s.digits.length ≤ t.digits.length := by
    rw [hs.digits_eq]
    exact Text.length_toDigits_le t.digits_ne_nil t.isDecimalDigit (hs.number_le h)
  have hname := hs.length_name_le h
  rw [length_text, length_text, hs.before, hs.after]
  simp only [List.length_nil]
  omega

theorem utf8ByteSize_eq_length (hs : s.IsCanonical) : s.text.utf8ByteSize = s.text.length := by
  have hname (u : TimeUnit) : u.name.toList.all (fun c => c.toNat ≤ 127) = true := by
    cases u <;> decide
  apply Text.utf8ByteSize_eq_length
  intro c hc
  rw [text, core, hs.before, hs.after, String.toList_ofList, List.nil_append, List.append_nil] at hc
  rcases List.mem_append.1 hc with hc | hc
  · have hdigit := Text.isDecimalDigit_iff_toNat.1 (s.isDecimalDigit c hc)
    omega
  · exact of_decide_eq_true (List.all_eq_true.1 (hname s.unit) c hc)

end IsCanonical
end Spelling

theorem exists_canonical (d : Duration) : ∃ s : Spelling, s.IsCanonical ∧ s.nanos = d.nanos ∧ s.text = d.format := by
  obtain ⟨n, u, hformat, hnanos, hsuits⟩ := d.exists_format
  exact ⟨.plain n u, Spelling.isCanonical_plain (hnanos ▸ hsuits), hnanos, hformat.symm⟩

/-- Also those that are too long to be read. -/
theorem format_injective {d e : Duration} (h : e.format = d.format) : e = d := by
  obtain ⟨s, -, hs, hstext⟩ := d.exists_canonical
  obtain ⟨t, -, ht, httext⟩ := e.exists_canonical
  have hnanos : t.nanos = s.nanos := Spelling.nanos_eq_of_text (by rw [httext, hstext, h])
  rw [hs, ht] at hnanos
  exact congrArg mk hnanos

theorem map_format_parse_eq_iff {text : String} {d : Duration} :
    (parse text).map format = .ok d.format ↔ parse text = .ok d := by
  cases parse text with
  | error f => exact ⟨nofun, nofun⟩
  | ok e =>
    constructor
    · intro h
      exact congrArg Except.ok (format_injective (Except.ok.inj h))
    · intro h
      rw [Except.ok.inj h]
      rfl

/-- The text of any duration is its canonical spelling and that of no other. It is read as the same duration if that
fits 64 bits of nanoseconds. Of the texts that are read, all spellings of the duration are rendered as this one and
no other text is, and it is the shortest of them. -/
theorem format_canonical (d : Duration) :
    (∀ text, text = d.format ↔ ∃ s : Spelling, s.IsCanonical ∧ s.nanos = d.nanos ∧ s.text = text) ∧
    (d.nanos = 0 → d.format = "0s") ∧
    (∀ e : Duration, e.format = d.format ↔ e = d) ∧
    (parse d.format = .ok d ↔ d.nanos ≤ Nat.pow 2 64 - 1) ∧
    ((∃ f, parse d.format = .error f) ↔ Nat.pow 2 64 - 1 < d.nanos) ∧
    ∀ text, ((parse text).map format = .ok d.format ↔ parse text = .ok d) ∧
      (parse text = .ok d → d.format.length ≤ text.length ∧ d.format.utf8ByteSize ≤ text.utf8ByteSize) := by
  have hlimit : nanosLimit = Nat.pow 2 64 - 1 + 1 := by decide
  obtain ⟨s, hcanonical, hnanos, htext⟩ := d.exists_canonical
  have hparse := s.parse_text
  rw [htext, hnanos] at hparse
  refine ⟨?_, fun hzero => by simp [format, hzero], fun e => ⟨format_injective, fun h => by rw [h]⟩, ?_, ?_, ?_⟩
  · intro text
    constructor
    · rintro rfl
      exact ⟨s, hcanonical, hnanos, htext⟩
    · rintro ⟨t, ht, htnanos, rfl⟩
      rw [← htext, ht.text_unique hcanonical (htnanos.trans hnanos.symm)]
  · rw [hparse]
    split
    · simp only [true_iff]
      omega
    · simp only [reduceCtorEq, false_iff]
      omega
  · rw [hparse]
    split
    · simp only [reduceCtorEq, exists_false, false_iff]
      omega
    · simp only [Except.error.injEq, exists_eq', true_iff]
      omega
  · intro text
    refine ⟨map_format_parse_eq_iff, fun h => ?_⟩
    obtain ⟨t, rfl, ht⟩ := exists_spelling h
    have hle := hcanonical.length_le (hnanos.trans ht.symm)
    rw [← htext, hcanonical.utf8ByteSize_eq_length]
    exact ⟨hle, Nat.le_trans hle (Text.length_le_utf8ByteSize t.text)⟩

/-- Of several units that measure a duration exactly the largest one is written. -/
example : ((parse "\t0090m").map format).toOption = some "90m" ∧
    ((parse "7200000ms").map format).toOption = some "2h" := by decide +kernel

end Duration
end ObjectStorage
