import ObjectStorage.Proofs.Text.Blanks
import ObjectStorage.Text.Digits

/-! # Numerals

Decimal digits stand for a number. A number is written in one way without zeros in front, and in no way with fewer
digits.
-/
namespace ObjectStorage.Text

theorem isDecimalDigit_iff {c : Char} : isDecimalDigit c = true ↔ c.isDigit = true := by
  simp only [isDecimalDigit, Char.isDigit_iff_toNat, Bool.and_eq_true, decide_eq_true_eq, Char.le_def,
    UInt32.le_iff_toNat_le]
  rfl

theorem isDecimalDigit_iff_toNat {c : Char} : isDecimalDigit c = true ↔ 48 ≤ c.toNat ∧ c.toNat ≤ 57 :=
  isDecimalDigit_iff.trans Char.isDigit_iff_toNat

theorem isDecimalDigit_of_mem_toDigits {n : Nat} : ∀ c ∈ Nat.toDigits 10 n, isDecimalDigit c = true :=
  fun _ hc => isDecimalDigit_iff.2 (Nat.isDigit_of_mem_toDigits (by decide) (by decide) hc)

theorem isBlank_of_isDecimalDigit {c : Char} (h : isDecimalDigit c = true) : isBlank c = false := by
  obtain ⟨hlow, hhigh⟩ := isDecimalDigit_iff_toNat.1 h
  exact isBlank_of_visible (by omega) (by omega)

theorem readDigits?_of_digits {s : List Char} (hne : s ≠ []) (h : ∀ c ∈ s, isDecimalDigit c = true) :
    readDigits? 10 s = some (Nat.ofDigitChars 10 s 0) :=
  readDigits?_of_isDigit hne fun c hc => isDecimalDigit_iff.1 (h c hc)

theorem readDigits?_toDigits (n : Nat) : readDigits? 10 (Nat.toDigits 10 n) = some n := by
  have hread := readDigits?_of_digits Nat.toDigits_ne_nil (isDecimalDigit_of_mem_toDigits (n := n))
  rwa [Nat.ofDigitChars_ten_toDigits] at hread

theorem head?_toDigits {n : Nat} (hn : 0 < n) : (Nat.toDigits 10 n).head? ≠ some '0' := by
  induction n using Nat.strongRecOn with
  | ind n ih =>
    rw [Nat.toDigits_eq_if (by decide)]
    split
    · rename_i hlt
      have hdigit : ∀ d < 10, 0 < d → d.digitChar ≠ '0' := by decide
      simpa using hdigit n hlt hn
    · rw [List.head?_append]
      have hhead := ih (n / 10) (by omega) (by omega)
      cases hdigits : Nat.toDigits 10 (n / 10) with
      | nil => exact absurd hdigits Nat.toDigits_ne_nil
      | cons c digits => simpa [hdigits] using hhead

theorem exists_digit {c : Char} (h : isDecimalDigit c = true) :
    ∃ d < 10, c = d.digitChar ∧ c.toNat - '0'.toNat = d := by
  obtain ⟨hlow, hhigh⟩ := isDecimalDigit_iff_toNat.1 h
  have hzero : '0'.toNat = 48 := rfl
  have hchar : ∀ d < 10, d.digitChar.toNat = 48 + d := by decide
  refine ⟨c.toNat - 48, by omega, ?_, by rw [hzero]⟩
  rw [← Char.toNat_inj, hchar _ (by omega)]
  omega

theorem ofDigitChars_lt {s : List Char} (h : ∀ c ∈ s, isDecimalDigit c = true) :
    Nat.ofDigitChars 10 s 0 < Nat.pow 10 s.length := by
  induction s with
  | nil => decide
  | cons c s ih =>
    obtain ⟨d, hd, -, hvalue⟩ := exists_digit (h c List.mem_cons_self)
    have hlt := ih fun x hx => h x (List.mem_cons_of_mem c hx)
    calc Nat.ofDigitChars 10 (c :: s) 0
      _ = Nat.ofDigitChars 10 s d := by rw [Nat.ofDigitChars_cons, hvalue, Nat.mul_zero, Nat.zero_add]
      _ = Nat.pow 10 s.length * d + Nat.ofDigitChars 10 s 0 := Nat.ofDigitChars_eq_ofDigitChars_zero
      _ < Nat.pow 10 s.length * d + Nat.pow 10 s.length := Nat.add_lt_add_left hlt _
      _ = Nat.pow 10 s.length * (d + 1) := rfl
      _ ≤ Nat.pow 10 s.length * 10 := Nat.mul_le_mul_left _ hd

/-- The numeral of a number has no more digits than what stands for that number or a larger one. -/
theorem length_toDigits_le {s : List Char} (hne : s ≠ []) (h : ∀ c ∈ s, isDecimalDigit c = true) {n : Nat}
    (hn : n ≤ Nat.ofDigitChars 10 s 0) : (Nat.toDigits 10 n).length ≤ s.length := by
  have hlength : 0 < s.length := List.length_pos_iff.2 hne
  exact (Nat.length_toDigits_le_iff (by decide) hlength).2 (Nat.lt_of_le_of_lt hn (ofDigitChars_lt h))

theorem toDigits_append {s : List Char} (h : ∀ c ∈ s, isDecimalDigit c = true) {n : Nat} (hn : 0 < n) :
    Nat.toDigits 10 n ++ s = Nat.toDigits 10 (Nat.ofDigitChars 10 s n) := by
  induction s generalizing n with
  | nil => simp
  | cons c s ih =>
    obtain ⟨d, hd, rfl, hvalue⟩ := exists_digit (h c List.mem_cons_self)
    have hnumeral : Nat.toDigits 10 n ++ [d.digitChar] = Nat.toDigits 10 (10 * n + d) := by
      rw [← Nat.toDigits_of_lt_base hd, Nat.toDigits_append_toDigits (by decide) hn hd]
    have hrest := ih (fun x hx => h x (List.mem_cons_of_mem _ hx)) (n := 10 * n + d) (by omega)
    rw [Nat.ofDigitChars_cons, hvalue, ← hrest, ← hnumeral, List.append_assoc, List.singleton_append]

/-- Digits without a zero in front are the numeral of their number. -/
theorem toDigits_ofDigitChars {s : List Char} (hne : s ≠ []) (h : ∀ c ∈ s, isDecimalDigit c = true)
    (hzero : s.head? = some '0' → s = ['0']) : Nat.toDigits 10 (Nat.ofDigitChars 10 s 0) = s := by
  cases s with
  | nil => exact absurd rfl hne
  | cons c s =>
    obtain ⟨d, hd, rfl, hvalue⟩ := exists_digit (h c List.mem_cons_self)
    rcases Nat.eq_zero_or_pos d with rfl | hpos
    · rw [hzero rfl]
      decide
    · have hnumeral := toDigits_append (fun x hx => h x (List.mem_cons_of_mem _ hx)) hpos
      rw [Nat.ofDigitChars_cons, hvalue, Nat.mul_zero, Nat.zero_add, ← hnumeral, Nat.toDigits_of_lt_base hd,
        List.singleton_append]

end ObjectStorage.Text
