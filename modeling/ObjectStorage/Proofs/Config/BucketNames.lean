import ObjectStorage.Config.Reading
import ObjectStorage.Proofs.Config.Validity
import ObjectStorage.Proofs.Yaml.Texts

/-! # Bucket names in one text

The names of buckets are given as a list or as one text with commas between them. A text gives the names that it
is spread over, with blanks around them and blank segments anywhere, and no other names.
-/
namespace ObjectStorage

open Yaml Yaml.Place

/-- What is read as one name of a text: neither empty nor cut any further. -/
structure IsSeparate (name : String) : Prop where
  ne_nil : name.toList ≠ []
  no_comma : ',' ∉ name.toList
  trimmed : Text.Trimmed name.toList

/-- Segments over which names are spread in their order: each is a name with blanks around it, or blank. -/
inductive Spread : List String → List (List Char) → Prop where
  | nil : Spread [] []
  | blank {names : List String} {segments : List (List Char)} {gap : List Char} :
    Text.AllBlank gap → Spread names segments → Spread names (gap :: segments)
  | name (name : String) {names : List String} {segments : List (List Char)} {before after : List Char} :
    Text.AllBlank before → Text.AllBlank after → Spread names segments →
      Spread (name :: names) ((before ++ name.toList ++ after) :: segments)

def commaText (segments : List (List Char)) : String := String.ofList ([','].intercalate segments)

def namesOfSegments (segments : List (List Char)) : List String :=
  (segments.map Text.trimBlanks).filterMap fun name => if name.isEmpty then none else some (String.ofList name)

theorem namesOfText_eq (text : String) : namesOfText text = namesOfSegments (Text.pieces ',' text.toList) := rfl

theorem namesOfSegments_cons (segment : List Char) (segments : List (List Char)) :
    namesOfSegments (segment :: segments) = if (Text.trimBlanks segment).isEmpty then namesOfSegments segments
      else String.ofList (Text.trimBlanks segment) :: namesOfSegments segments := by
  simp only [namesOfSegments, List.map_cons, List.filterMap_cons]
  split <;> simp_all

theorem not_comma_of_blank {gap : List Char} (h : Text.AllBlank gap) : ',' ∉ gap := by
  intro hcomma
  have hblank : Text.isBlank ',' = true := h ',' hcomma
  exact absurd hblank (by decide)

theorem Spread.namesOfSegments {names : List String} {segments : List (List Char)} (h : Spread names segments)
    (hnames : ∀ name ∈ names, IsSeparate name) : namesOfSegments segments = names := by
  induction h with
  | nil => rfl
  | blank hgap _ ih => rw [namesOfSegments_cons, Text.trimBlanks_blank hgap, ih hnames]; rfl
  | @name name names segments before after hbefore hafter _ ih =>
    obtain ⟨hne, -, htrimmed⟩ := hnames name List.mem_cons_self
    rw [namesOfSegments_cons, Text.trimBlanks_padded hbefore htrimmed hafter,
      ih fun other hother => hnames other (List.mem_cons_of_mem name hother)]
    simp [hne]

theorem Spread.no_comma {names : List String} {segments : List (List Char)} (h : Spread names segments)
    (hnames : ∀ name ∈ names, IsSeparate name) : ∀ segment ∈ segments, ',' ∉ segment := by
  induction h with
  | nil => exact nofun
  | blank hgap _ ih => exact List.forall_mem_cons.2 ⟨not_comma_of_blank hgap, ih hnames⟩
  | @name name names segments before after hbefore hafter _ ih =>
    refine List.forall_mem_cons.2 ⟨?_, ih fun other hother => hnames other (List.mem_cons_of_mem name hother)⟩
    have hname := (hnames name List.mem_cons_self).no_comma
    simp [hname, not_comma_of_blank hbefore, not_comma_of_blank hafter]

theorem namesOfText_commaText {names : List String} {segments : List (List Char)} (h : Spread names segments)
    (hnames : ∀ name ∈ names, IsSeparate name) : namesOfText (commaText segments) = names := by
  rw [namesOfText_eq, commaText, String.toList_ofList]
  by_cases hempty : segments = []
  · subst hempty
    cases h
    decide
  · rw [Text.pieces_intercalate (h.no_comma hnames) hempty, h.namesOfSegments hnames]

theorem spread_namesOfSegments (segments : List (List Char)) : Spread (namesOfSegments segments) segments := by
  induction segments with
  | nil => exact .nil
  | cons segment segments ih =>
    obtain ⟨before, after, hbefore, hafter, hsegment⟩ := Text.exists_trimBlanks segment
    rw [namesOfSegments_cons]
    by_cases hempty : (Text.trimBlanks segment).isEmpty
    · rw [if_pos hempty]
      apply Spread.blank _ ih
      rw [hsegment, List.isEmpty_iff.1 hempty, List.append_nil]
      exact hbefore.append hafter
    · rw [if_neg hempty]
      have hname := Spread.name (String.ofList (Text.trimBlanks segment)) hbefore hafter ih
      rwa [String.toList_ofList, ← hsegment] at hname

theorem isSeparate_of_mem_namesOfText {text name : String} (h : name ∈ namesOfText text) : IsSeparate name := by
  obtain ⟨trimmed, htrimmed, hname⟩ := List.mem_filterMap.1 h
  obtain ⟨piece, hpiece, rfl⟩ := List.mem_map.1 htrimmed
  obtain ⟨before, after, -, -, hcut⟩ := Text.exists_trimBlanks piece
  cases hempty : (Text.trimBlanks piece).isEmpty with
  | true => simp [hempty] at hname
  | false =>
    obtain rfl : String.ofList (Text.trimBlanks piece) = name := by simpa [hempty] using hname
    refine ⟨?_, ?_, ?_⟩
    · rw [String.toList_ofList]
      exact List.isEmpty_eq_false_iff.1 hempty
    · rw [String.toList_ofList]
      intro hcomma
      apply Text.not_mem_of_mem_pieces hpiece
      rw [hcut]
      simp [hcomma]
    · rw [String.toList_ofList]
      exact Text.trimmed_trimBlanks piece

theorem namesOfText_eq_iff {text : String} {names : List String} : namesOfText text = names ↔
    (∀ name ∈ names, IsSeparate name) ∧ ∃ segments, Spread names segments ∧ commaText segments = text := by
  constructor
  · rintro rfl
    refine ⟨fun name => isSeparate_of_mem_namesOfText, _, spread_namesOfSegments _, ?_⟩
    rw [commaText, Text.intercalate_pieces, String.ofList_toList]
  · rintro ⟨hnames, segments, hspread, rfl⟩
    exact namesOfText_commaText hspread hnames

theorem BucketName.IsValid.isSeparate {name : String} (h : BucketName.IsValid name) : IsSeparate name := by
  have hcomma : ¬ BucketName.IsAllowed ',' := by
    unfold BucketName.IsAllowed BucketName.IsEnd
    decide
  refine ⟨?_, fun hmem => hcomma (h.allowed ',' hmem), ⟨fun c hc => (h.first c hc).not_blank,
    fun c hc => (h.last c hc).not_blank⟩⟩
  intro hnil
  have hlong := h.long_enough
  rw [← String.length_toList, hnil] at hlong
  cases hlong

/-! ## Reading -/

theorem readNames_text {p : Place} {text : String} (h : p.HasText text) : readNames p = .ok (namesOfText text) := by
  simp only [readNames, h.optional_shaped]
  rfl

theorem readNames_texts {p : Place} {names : List String} (h : p.HasTexts names) : readNames p = .ok names := by
  simp only [readNames, h.optional_shaped]
  rfl

/-- What a text gives as names of buckets: the one list of separate names that it is spread over by. So names of a
sound configuration give the same list however they are spread over a text. -/
theorem readNames_spread {p : Place} {text : String} (h : p.HasText text) :
    (∃ names, readNames p = .ok names ∧ ∀ name ∈ names, IsSeparate name) ∧
    (∀ names, readNames p = .ok names ↔
      (∀ name ∈ names, IsSeparate name) ∧ ∃ segments, Spread names segments ∧ commaText segments = text) ∧
    ∀ (c : StorageConfig) (segments : List (List Char)) (q : Place), c.isValid = true →
      Spread c.bucketNames segments → commaText segments = text → q.HasTexts c.bucketNames →
      readNames p = .ok c.bucketNames ∧ readNames q = .ok c.bucketNames := by
  have hread := readNames_text h
  refine ⟨⟨_, hread, fun name => isSeparate_of_mem_namesOfText⟩, ?_, ?_⟩
  · intro names
    rw [hread, Except.ok.injEq, namesOfText_eq_iff]
  · intro c segments q hvalid hspread htext hlist
    have hsound : c.IsSound := StorageConfig.isValid_iff_isSound.1 hvalid
    have hnames : namesOfText text = c.bucketNames :=
      namesOfText_eq_iff.2 ⟨fun name hname => (hsound.names name hname).isSeparate, segments, hspread, htext⟩
    exact ⟨hnames ▸ hread, readNames_texts hlist⟩

theorem readNames_three_buckets :
    readNames ⟨⟨none, [], 0⟩, [], some (.scalar none .doubleQuoted " one-b,, \ttwo.b\u00a0,3-b,")⟩ =
      .ok ["one-b", "two.b", "3-b"] ∧
    readNames ⟨⟨none, [], 0⟩, [], some (.sequence none [.plain "one-b", .plain "two.b", .plain "3-b"])⟩ =
      .ok ["one-b", "two.b", "3-b"] := by
  have hspread : Spread ["one-b", "two.b", "3-b"]
      [[' '] ++ "one-b".toList ++ [], [], [' ', '\t'] ++ "two.b".toList ++ ['\u00a0'], [] ++ "3-b".toList ++ [], []] :=
    .name _ (by decide) (by decide) <| .blank (by decide) <| .name _ (by decide) (by decide) <|
      .name _ (by decide) (by decide) <| .blank (by decide) .nil
  have hitem (name : String) (h : resolve none .plain name = .ok (.text name)) :
      HasText ⟨⟨none, [], 0⟩, [], some (.plain name)⟩ name := ⟨none, .plain, rfl, rfl, h⟩
  refine (readNames_spread ⟨none, .doubleQuoted, rfl, rfl, rfl⟩).2.2 { bucketNames := ["one-b", "two.b", "3-b"] } _ _
    (by decide) hspread (by decide) ⟨none, _, rfl, rfl, ?_⟩
  exact .cons (hitem _ (by rfl)) (.cons (hitem _ (by rfl)) (.cons (hitem _ (by rfl)) .nil))

end ObjectStorage
