import ObjectStorage.Duration
import ObjectStorage.Proofs.Text.Numerals

/-! # Spellings of durations

A duration is spelled by digits, a unit right behind them, and blanks around both. Every spelling is read, as long
as the duration fits 64 bits of nanoseconds, and no other text is.
-/
namespace ObjectStorage

inductive TimeUnit where
  | hour
  | minute
  | second
  | millisecond
  | microsecond
  | nanosecond
deriving DecidableEq, Repr

namespace TimeUnit

def name : TimeUnit → String
  | hour => "h"
  | minute => "m"
  | second => "s"
  | millisecond => "ms"
  | microsecond => "us"
  | nanosecond => "ns"

def nanos : TimeUnit → Nat
  | hour => 60 * 60 * 1000000000
  | minute => 60 * 1000000000
  | second => 1000000000
  | millisecond => 1000000
  | microsecond => 1000
  | nanosecond => 1

theorem nanos_pos (u : TimeUnit) : 0 < u.nanos := by
  cases u <;> decide

theorem name_injective {u v : TimeUnit} (h : u.name = v.name) : u = v := by
  revert h
  cases u <;> cases v <;> decide

theorem lookup_name (u : TimeUnit) : Duration.units.lookup u.name = some u.nanos := by
  cases u <;> rfl

theorem mem_units_iff {name : String} {scale : Nat} :
    (name, scale) ∈ Duration.units ↔ ∃ u : TimeUnit, u.name = name ∧ u.nanos = scale := by
  constructor
  · intro h
    simp only [Duration.units, List.mem_cons, List.not_mem_nil, or_false, Prod.mk.injEq] at h
    rcases h with ⟨rfl, rfl⟩ | ⟨rfl, rfl⟩ | ⟨rfl, rfl⟩ | ⟨rfl, rfl⟩ | ⟨rfl, rfl⟩ | ⟨rfl, rfl⟩
    · exact ⟨hour, rfl, rfl⟩
    · exact ⟨minute, rfl, rfl⟩
    · exact ⟨second, rfl, rfl⟩
    · exact ⟨millisecond, rfl, rfl⟩
    · exact ⟨microsecond, rfl, rfl⟩
    · exact ⟨nanosecond, rfl, rfl⟩
  · rintro ⟨u, rfl, rfl⟩
    cases u <;> decide

theorem exists_of_lookup {name : String} {scale : Nat} (h : Duration.units.lookup name = some scale) :
    ∃ u : TimeUnit, u.name = name ∧ u.nanos = scale := by
  obtain ⟨before, after, hunits, -⟩ := List.lookup_eq_some_iff.1 h
  exact mem_units_iff.1 (by rw [hunits]; simp)

/-- The name of a unit neither starts with a digit nor ends with a blank. -/
theorem exists_name (u : TimeUnit) : ∃ c d, u.name.toList.head? = some c ∧ Text.isDecimalDigit c = false ∧
    u.name.toList.getLast? = some d ∧ Text.isBlank d = false := by
  cases u <;> exact ⟨_, _, rfl, by decide, rfl, by decide⟩

end TimeUnit

namespace Duration

/-- A spelling of a duration, part by part. -/
structure Spelling where
  before : List Char
  digits : List Char
  unit : TimeUnit
  after : List Char
  blank_before : Text.AllBlank before
  digits_ne_nil : digits ≠ []
  isDigit : ∀ c ∈ digits, c.isDigit = true
  blank_after : Text.AllBlank after

namespace Spelling
variable (s : Spelling)

def core : List Char := s.digits ++ s.unit.name.toList

def text : String := String.ofList (s.before ++ s.core ++ s.after)

def number : Nat := Nat.ofDigitChars 10 s.digits 0

def nanos : Nat := s.number * s.unit.nanos

theorem isDecimalDigit : ∀ c ∈ s.digits, Text.isDecimalDigit c = true :=
  fun c hc => Text.isDecimalDigit_iff.2 (s.isDigit c hc)

theorem number_le_nanos : s.number ≤ s.nanos := Nat.le_mul_of_pos_right _ s.unit.nanos_pos

theorem trimmed_core : Text.Trimmed s.core := by
  obtain ⟨-, d, -, -, hlast, hblank⟩ := s.unit.exists_name
  obtain ⟨e, digits, hdigits⟩ := List.exists_cons_of_ne_nil s.digits_ne_nil
  constructor
  · intro c hc
    obtain rfl : e = c := by simpa [core, hdigits] using hc
    exact Text.isBlank_of_isDecimalDigit (s.isDecimalDigit e (by rw [hdigits]; exact .head _))
  · intro c hc
    obtain rfl : d = c := by simpa [core, List.getLast?_append, hlast] using hc
    exact hblank

theorem trimBlanks_text : Text.trimBlanks s.text.toList = s.core := by
  rw [text, String.toList_ofList, Text.trimBlanks_padded s.blank_before s.trimmed_core s.blank_after]

theorem takeWhile_core : s.core.takeWhile Text.isDecimalDigit = s.digits := by
  obtain ⟨c, -, hfirst, hdigit, -⟩ := s.unit.exists_name
  obtain ⟨name, hname⟩ := List.head?_eq_some_iff.1 hfirst
  rw [core, List.takeWhile_append_of_pos s.isDecimalDigit, hname, List.takeWhile_cons_of_neg (by simp [hdigit]),
    List.append_nil]

theorem dropWhile_core : s.core.dropWhile Text.isDecimalDigit = s.unit.name.toList := by
  obtain ⟨c, -, hfirst, hdigit, -⟩ := s.unit.exists_name
  obtain ⟨name, hname⟩ := List.head?_eq_some_iff.1 hfirst
  rw [core, List.dropWhile_append_of_pos s.isDecimalDigit, hname, List.dropWhile_cons_of_neg (by simp [hdigit])]

theorem eq_of_text {s t : Spelling} (h : s.text = t.text) : s.digits = t.digits ∧ s.unit = t.unit := by
  have hcore : s.core = t.core := by rw [← s.trimBlanks_text, ← t.trimBlanks_text, h]
  constructor
  · rw [← s.takeWhile_core, ← t.takeWhile_core, hcore]
  · apply TimeUnit.name_injective
    rw [← String.toList_inj, ← s.dropWhile_core, ← t.dropWhile_core, hcore]

theorem nanos_eq_of_text {s t : Spelling} (h : s.text = t.text) : s.nanos = t.nanos := by
  obtain ⟨hdigits, hunit⟩ := eq_of_text h
  rw [nanos, nanos, number, number, hdigits, hunit]

/-- What is too large to be read: the duration, or already the number of its units. -/
def excess : Fault :=
  if s.number < numberLimit then .tooLarge (String.ofList s.core) else .notANumber (String.ofList s.core)

/-- Every spelling is read if its duration is not too long. -/
theorem parse_text : parse s.text = if s.nanos < nanosLimit then .ok ⟨s.nanos⟩ else .error s.excess := by
  obtain ⟨c, -, hfirst, -⟩ := s.unit.exists_name
  obtain ⟨name, hname⟩ := List.head?_eq_some_iff.1 hfirst
  have hunit : String.ofList (c :: name) = s.unit.name := by rw [← hname, String.ofList_toList]
  have hread : Text.readDigits? 10 s.digits = some s.number :=
    Text.readDigits?_of_digits s.digits_ne_nil s.isDecimalDigit
  have hnanos : s.number * s.unit.nanos = s.nanos := rfl
  rw [parse, trimBlanks_text, parseTrimmed]
  simp only [dropWhile_core, takeWhile_core, hname, hread, hunit, TimeUnit.lookup_name, hnanos]
  by_cases hnumber : s.number < numberLimit
  · simp only [excess, hnumber, ↓reduceIte]
  · have hle := s.number_le_nanos
    have hlong : ¬ s.nanos < nanosLimit := by
      have hlimits : nanosLimit ≤ numberLimit := by decide
      omega
    simp only [excess, hnumber, hlong, ↓reduceIte]

end Spelling

theorem exists_spelling {text : String} {d : Duration} (h : parse text = .ok d) :
    ∃ s : Spelling, s.text = text ∧ s.nanos = d.nanos := by
  obtain ⟨before, after, hbefore, hafter, htext⟩ := Text.exists_trimBlanks text.toList
  rw [parse, parseTrimmed] at h
  generalize Text.trimBlanks text.toList = trimmed at h htext
  have hcut := List.takeWhile_append_dropWhile (p := Text.isDecimalDigit) (l := trimmed)
  have hdigits : ∀ c ∈ trimmed.takeWhile Text.isDecimalDigit, Text.isDecimalDigit c = true :=
    List.all_eq_true.1 List.all_takeWhile
  generalize trimmed.takeWhile Text.isDecimalDigit = digits at h hcut hdigits
  cases hsuffix : trimmed.dropWhile Text.isDecimalDigit with
  | nil => simp [hsuffix] at h
  | cons c suffix =>
    have hne : digits ≠ [] := by
      rintro rfl
      simp [hsuffix, Text.readDigits?] at h
    simp only [hsuffix, Text.readDigits?_of_digits hne hdigits] at h
    split at h
    · cases hlookup : units.lookup (String.ofList (c :: suffix)) with
      | none => simp only [hlookup, reduceCtorEq] at h
      | some scale =>
        obtain ⟨u, hname, rfl⟩ := TimeUnit.exists_of_lookup hlookup
        simp only [hlookup] at h
        split at h
        · refine ⟨⟨before, digits, u, after, hbefore, hne, fun c hc => Text.isDecimalDigit_iff.1 (hdigits c hc),
            hafter⟩, ?_, congrArg nanos (Except.ok.inj h)⟩
          rw [Spelling.text, Spelling.core, hname, String.toList_ofList, ← hsuffix, hcut, ← htext,
            String.ofList_toList]
        · cases h
    · cases h

theorem parse_lt {text : String} {d : Duration} (h : parse text = .ok d) : d.nanos < nanosLimit := by
  unfold parse parseTrimmed at h
  grind

/-- What is read of a text: it is read if it spells a duration that fits 64 bits of nanoseconds, and as that
duration, and any other text is refused. -/
theorem parse_spellings (text : String) :
    (∀ d, parse text = .ok d ↔ ∃ s : Spelling, s.text = text ∧ s.nanos ≤ Nat.pow 2 64 - 1 ∧ d = ⟨s.nanos⟩) ∧
    ((∃ f, parse text = .error f) ↔ ∀ s : Spelling, s.text = text → Nat.pow 2 64 - 1 < s.nanos) ∧
    ∀ s : Spelling, s.text = text → Nat.pow 2 64 - 1 < s.nanos → parse text = .error s.excess := by
  have hlimit : nanosLimit = Nat.pow 2 64 - 1 + 1 := by decide
  have hread : ∀ d, parse text = .ok d ↔
      ∃ s : Spelling, s.text = text ∧ s.nanos ≤ Nat.pow 2 64 - 1 ∧ d = ⟨s.nanos⟩ := by
    intro d
    constructor
    · intro h
      obtain ⟨s, rfl, hnanos⟩ := exists_spelling h
      have hlt := parse_lt h
      exact ⟨s, rfl, by omega, by rw [hnanos]⟩
    · rintro ⟨s, rfl, hshort, rfl⟩
      rw [s.parse_text, if_pos (by omega)]
  have hlong : ∀ s : Spelling, s.text = text → Nat.pow 2 64 - 1 < s.nanos → parse text = .error s.excess := by
    rintro s rfl hlong
    rw [s.parse_text, if_neg (by omega)]
  refine ⟨hread, ?_, hlong⟩
  constructor
  · rintro ⟨f, hf⟩ s hs
    apply Nat.lt_of_not_le
    intro hshort
    have hok := (hread ⟨s.nanos⟩).2 ⟨s, hs, hshort, rfl⟩
    rw [hf] at hok
    cases hok
  · intro h
    cases hparse : parse text with
    | error f => exact ⟨f, rfl⟩
    | ok d =>
      obtain ⟨s, hs, hshort, -⟩ := (hread d).1 hparse
      exact absurd (h s hs) (Nat.not_lt_of_le hshort)

/-- Zeros in front and a blank that is not ASCII. -/
example : (parse "\u00a0 007m\n").toOption = some (.ofSecs 420) := by decide +kernel

end Duration
end ObjectStorage
