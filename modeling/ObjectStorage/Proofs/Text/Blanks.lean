import ObjectStorage.Text.Blank

/-! # Blanks, pieces and sizes

A text is what is left of it when the blanks at its ends are cut off, with those blanks around it. A text is cut
into the one list of pieces without the separator that it is joined from. A text has as many bytes as characters
if all its characters are ASCII, and never fewer.
-/
namespace ObjectStorage.Text

def AllBlank (s : List Char) : Prop := ∀ c ∈ s, isBlank c = true

instance (s : List Char) : Decidable (AllBlank s) := decidable_of_iff (s.all isBlank = true) List.all_eq_true

/-- There is no blank at either end. -/
structure Trimmed (s : List Char) : Prop where
  first : ∀ c ∈ s.head?, isBlank c = false
  last : ∀ c ∈ s.getLast?, isBlank c = false

/-- The characters of ASCII that are seen are no blanks. -/
theorem isBlank_of_visible {c : Char} (hlow : 33 ≤ c.toNat) (hhigh : c.toNat ≤ 126) : isBlank c = false := by
  simp only [isBlank, Bool.or_eq_false_iff, Bool.and_eq_false_iff, beq_eq_false_iff_ne, ne_eq, decide_eq_false_iff_not,
    Char.le_def, UInt32.le_iff_toNat_le, ← Char.toNat_inj]
  simp
  omega

theorem trimmed_nil : Trimmed [] := ⟨nofun, nofun⟩

/-! ## Blanks at the ends -/

theorem dropBlanks_append {b : List Char} (hb : AllBlank b) (s : List Char) : dropBlanks (b ++ s) = dropBlanks s :=
  List.dropWhile_append_of_pos hb

theorem dropBlanks_eq_self {s : List Char} (h : ∀ c ∈ s.head?, isBlank c = false) : dropBlanks s = s := by
  cases s with
  | nil => rfl
  | cons c s => exact List.dropWhile_cons_of_neg (by simp [h c rfl])

theorem dropBlanks_blank {b : List Char} (hb : AllBlank b) : dropBlanks b = [] := by
  have hdrop := dropBlanks_append hb []
  rwa [List.append_nil] at hdrop

theorem exists_dropBlanks (s : List Char) : ∃ b, AllBlank b ∧ s = b ++ dropBlanks s :=
  ⟨s.takeWhile isBlank, List.all_eq_true.1 List.all_takeWhile, List.takeWhile_append_dropWhile.symm⟩

theorem head?_dropBlanks (s : List Char) : ∀ c ∈ (dropBlanks s).head?, isBlank c = false := by
  intro c hc
  have hhead := List.head?_dropWhile_not isBlank s
  rw [dropBlanks, Option.mem_def] at hc
  rwa [hc] at hhead

theorem AllBlank.reverse {b : List Char} (hb : AllBlank b) : AllBlank b.reverse :=
  fun c hc => hb c (List.mem_reverse.1 hc)

theorem AllBlank.append {a b : List Char} (ha : AllBlank a) (hb : AllBlank b) : AllBlank (a ++ b) :=
  fun c hc => (List.mem_append.1 hc).elim (ha c) (hb c)

theorem exists_dropBlanks_eq (s : List Char) : ∃ a, AllBlank a ∧ dropBlanks s = trimBlanks s ++ a := by
  obtain ⟨a, ha, hrest⟩ := exists_dropBlanks (dropBlanks s).reverse
  refine ⟨a.reverse, ha.reverse, ?_⟩
  rw [trimBlanks, ← List.reverse_append, ← hrest, List.reverse_reverse]

/-- What is cut off a text are blanks at its ends. -/
theorem exists_trimBlanks (s : List Char) : ∃ b a, AllBlank b ∧ AllBlank a ∧ s = b ++ trimBlanks s ++ a := by
  obtain ⟨b, hb, hs⟩ := exists_dropBlanks s
  obtain ⟨a, ha, hdrop⟩ := exists_dropBlanks_eq s
  exact ⟨b, a, hb, ha, by rw [List.append_assoc, ← hdrop, ← hs]⟩

/-- What is left has no more blanks to be cut off. -/
theorem trimmed_trimBlanks (s : List Char) : Trimmed (trimBlanks s) := by
  obtain ⟨a, -, hdrop⟩ := exists_dropBlanks_eq s
  constructor
  · intro c hc
    apply head?_dropBlanks s c
    rw [hdrop, List.head?_append, Option.mem_def.1 hc]
    rfl
  · intro c hc
    rw [trimBlanks, List.getLast?_reverse] at hc
    exact head?_dropBlanks _ c hc

/-- A text without blanks at its ends is what is left of it when blanks are put around it. -/
theorem trimBlanks_padded {b s a : List Char} (hb : AllBlank b) (hs : Trimmed s) (ha : AllBlank a) :
    trimBlanks (b ++ s ++ a) = s := by
  rw [trimBlanks, List.append_assoc, dropBlanks_append hb]
  cases s with
  | nil => rw [List.nil_append, dropBlanks_blank ha]; rfl
  | cons c s =>
    have hfirst : ∀ d ∈ (c :: s ++ a).head?, isBlank d = false := hs.first
    have hlast : ∀ d ∈ (c :: s).reverse.head?, isBlank d = false := by
      rw [List.head?_reverse]
      exact hs.last
    rw [dropBlanks_eq_self hfirst, List.reverse_append, dropBlanks_append ha.reverse, dropBlanks_eq_self hlast,
      List.reverse_reverse]

theorem trimBlanks_blank {b : List Char} (hb : AllBlank b) : trimBlanks b = [] := by
  have htrim := trimBlanks_padded hb trimmed_nil (a := []) (by simp [AllBlank])
  rwa [List.append_nil, List.append_nil] at htrim

/-! ## Pieces -/

theorem pieces_eq_splitOn (sep : Char) (s : List Char) : pieces sep s = s.splitOn sep := by
  induction s with
  | nil => simp [pieces]
  | cons c s ih =>
    rw [pieces, List.splitOn_cons_eq_if_modifyHead, ih]
    by_cases hc : c = sep
    · simp [hc]
    · obtain ⟨p, ps, hp⟩ := List.exists_cons_of_ne_nil (List.splitOn_ne_nil sep s)
      simp [hc, hp]

theorem intercalate_pieces (sep : Char) (s : List Char) : [sep].intercalate (pieces sep s) = s := by
  rw [pieces_eq_splitOn, List.intercalate_splitOn]

theorem pieces_intercalate {sep : Char} {ps : List (List Char)} (h : ∀ p ∈ ps, sep ∉ p) (hne : ps ≠ []) :
    pieces sep ([sep].intercalate ps) = ps := by
  rw [pieces_eq_splitOn, List.splitOn_intercalate sep h hne]

theorem pieces_append {sep : Char} {p : List Char} (h : sep ∉ p) (s : List Char) :
    pieces sep (p ++ sep :: s) = p :: pieces sep s := by
  simp only [pieces_eq_splitOn, List.splitOn_append_cons_self_of_not_mem h]

theorem not_mem_of_mem_pieces {sep : Char} {s p : List Char} (h : p ∈ pieces sep s) : sep ∉ p := by
  induction s generalizing p with
  | nil => simp_all [pieces]
  | cons c s ih =>
    rw [pieces] at h
    split at h
    · rcases List.mem_cons.1 h with rfl | h
      · exact List.not_mem_nil
      · exact ih h
    · rename_i hc
      cases hps : pieces sep s with
      | nil => simp_all [Ne.symm hc]
      | cons q qs =>
        rw [hps] at ih h
        rcases List.mem_cons.1 h with rfl | h
        · simp [Ne.symm hc, ih List.mem_cons_self]
        · exact ih (List.mem_cons_of_mem q h)

/-! ## Sizes -/

theorem utf8ByteSize_ofList_cons (c : Char) (cs : List Char) :
    (String.ofList (c :: cs)).utf8ByteSize = c.utf8Size + (String.ofList cs).utf8ByteSize := by
  rw [String.ofList_cons, String.utf8ByteSize_append, String.utf8ByteSize_singleton]

theorem length_le_utf8ByteSize (s : String) : s.length ≤ s.utf8ByteSize := by
  have hlist : ∀ cs : List Char, cs.length ≤ (String.ofList cs).utf8ByteSize := by
    intro cs
    induction cs with
    | nil => exact Nat.le_refl 0
    | cons c cs ih =>
      have hpos := c.utf8Size_pos
      rw [utf8ByteSize_ofList_cons, List.length_cons]
      omega
  have h := hlist s.toList
  rwa [String.ofList_toList, String.length_toList] at h

theorem utf8ByteSize_eq_length {s : String} (h : ∀ c ∈ s.toList, c.toNat ≤ 127) : s.utf8ByteSize = s.length := by
  rw [← String.length_toList, ← String.ofList_toList (s := s), String.toList_ofList]
  generalize s.toList = cs at h ⊢
  induction cs with
  | nil => rfl
  | cons c cs ih =>
    have hone : c.utf8Size = 1 := Char.utf8Size_eq_one_iff.2 (UInt32.le_iff_toNat_le.2 (h c List.mem_cons_self))
    rw [utf8ByteSize_ofList_cons, List.length_cons, hone, ih fun d hd => h d (List.mem_cons_of_mem c hd), Nat.add_comm]

end ObjectStorage.Text
