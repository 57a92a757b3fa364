import ObjectStorage.Config.Loading
import ObjectStorage.Proofs.Text.Numerals

/-! # Valid configurations

A configuration is accepted exactly if it is sound: it names buckets, all names are ones that buckets can have, and
the longest pause is no shorter than the first one. What is reported of any other configuration names the places
where it is not sound, and no other place.
-/
namespace ObjectStorage

namespace BucketName

def IsEnd (c : Char) : Prop := ('a' ≤ c ∧ c ≤ 'z') ∨ ('0' ≤ c ∧ c ≤ '9')

def IsAllowed (c : Char) : Prop := IsEnd c ∨ c = '.' ∨ c = '-'

/-- A name that a bucket can have. Its length is counted in characters. -/
structure IsValid (name : String) : Prop where
  long_enough : 3 ≤ name.length
  short_enough : name.length ≤ 63
  allowed : ∀ c ∈ name.toList, IsAllowed c
  first : ∀ c ∈ name.toList.head?, IsEnd c
  last : ∀ c ∈ name.toList.getLast?, IsEnd c

theorem isLetterOrDigit_iff {c : Char} : isLetterOrDigit c = true ↔ IsEnd c := by
  simp [isLetterOrDigit, IsEnd]

theorem isInner_iff {c : Char} : isInner c = true ↔ IsAllowed c := by
  simp [isInner, IsAllowed, isLetterOrDigit_iff, or_assoc]

theorem IsEnd.toNat_bounds {c : Char} (h : IsEnd c) : 48 ≤ c.toNat ∧ c.toNat ≤ 122 := by
  simp only [IsEnd, Char.le_def, UInt32.le_iff_toNat_le] at h
  change (97 ≤ c.toNat ∧ c.toNat ≤ 122) ∨ (48 ≤ c.toNat ∧ c.toNat ≤ 57) at h
  omega

theorem IsEnd.not_blank {c : Char} (h : IsEnd c) : Text.isBlank c = false := by
  obtain ⟨hlow, hhigh⟩ := h.toNat_bounds
  exact Text.isBlank_of_visible (by omega) (by omega)

theorem IsAllowed.toNat_le {c : Char} (h : IsAllowed c) : c.toNat ≤ 127 := by
  rcases h with h | rfl | rfl
  · exact Nat.le_trans h.toNat_bounds.2 (by decide)
  · decide
  · decide

/-- The pattern that is reported when a name does not fit it. -/
def FitsPattern (name : List Char) : Prop :=
  ∃ first inner last, name = first :: inner ++ [last] ∧ IsEnd first ∧ (∀ c ∈ inner, IsAllowed c) ∧ IsEnd last

theorem fitsPattern_iff {name : List Char} : FitsPattern name ↔
    2 ≤ name.length ∧ (∀ c ∈ name, IsAllowed c) ∧ (∀ c ∈ name.head?, IsEnd c) ∧ ∀ c ∈ name.getLast?, IsEnd c := by
  constructor
  · rintro ⟨first, inner, last, rfl, hfirst, hinner, hlast⟩
    refine ⟨by simp, ?_, ?_, ?_⟩
    · intro c hc
      simp only [List.cons_append, List.mem_cons, List.mem_append, List.not_mem_nil, or_false] at hc
      rcases hc with rfl | hc | rfl
      · exact .inl hfirst
      · exact hinner c hc
      · exact .inl hlast
    · rintro c ⟨⟩
      exact hfirst
    · rw [List.getLast?_concat]
      rintro c ⟨⟩
      exact hlast
  · rintro ⟨hlength, hall, hfirst, hlast⟩
    obtain ⟨first, rest, rfl⟩ := List.exists_cons_of_length_pos (Nat.lt_of_lt_of_le Nat.two_pos hlength)
    have hne : rest ≠ [] := by
      rintro rfl
      simp at hlength
    have hgetLast := List.getLast?_eq_some_getLast hne
    obtain ⟨inner, hrest⟩ := List.getLast?_eq_some_iff.1 hgetLast
    refine ⟨first, inner, rest.getLast hne, congrArg (first :: ·) hrest, hfirst first rfl, ?_, hlast _ ?_⟩
    · intro c hc
      exact hall c (List.mem_cons_of_mem _ (hrest ▸ List.mem_append_left _ hc))
    · exact (List.getLast?_cons_of_ne_nil hne).trans hgetLast

theorem isWellFormed_iff_pattern {name : List Char} : isWellFormed name = true ↔ FitsPattern name := by
  rw [fitsPattern_iff]
  cases name with
  | nil => simp [isWellFormed]
  | cons c s => simp [isWellFormed, List.getLast?_cons, isInner_iff, isLetterOrDigit_iff, and_assoc]

/-- A valid name is one that is long enough, short enough, and fits the pattern. -/
theorem isValid_iff_pattern {name : String} :
    IsValid name ↔ 3 ≤ name.length ∧ name.length ≤ 63 ∧ FitsPattern name.toList := by
  rw [fitsPattern_iff]
  constructor
  · rintro ⟨hlong, hshort, hall, hfirst, hlast⟩
    exact ⟨hlong, hshort, Nat.le_of_succ_le (String.length_toList ▸ hlong), hall, hfirst, hlast⟩
  · rintro ⟨hlong, hshort, -, hall, hfirst, hlast⟩
    exact ⟨hlong, hshort, hall, hfirst, hlast⟩

/-- So its length can be counted in either. -/
theorem FitsPattern.utf8ByteSize_eq {name : String} (h : FitsPattern name.toList) : name.utf8ByteSize = name.length :=
  Text.utf8ByteSize_eq_length fun c hc => ((fitsPattern_iff.1 h).2.1 c hc).toNat_le

theorem problems_eq_nil_iff {index : Nat} {name : String} : problems index name = [] ↔
    3 ≤ name.utf8ByteSize ∧ name.utf8ByteSize ≤ 63 ∧ FitsPattern name.toList := by
  simp only [problems, shortest, longest, ← isWellFormed_iff_pattern]
  by_cases hshort : name.utf8ByteSize < 3
  · have hnot : ¬ 3 ≤ name.utf8ByteSize := Nat.not_le_of_lt hshort
    simp [hshort, hnot]
  · have hlow : 3 ≤ name.utf8ByteSize := Nat.le_of_not_lt hshort
    by_cases hlong : 63 < name.utf8ByteSize
    · simp [hshort, hlong, Nat.not_le_of_lt hlong]
    · simp [hshort, hlong, hlow, Nat.le_of_not_lt hlong]

theorem isValid_iff {index : Nat} {name : String} : IsValid name ↔ problems index name = [] := by
  rw [isValid_iff_pattern, problems_eq_nil_iff]
  constructor
  · rintro ⟨hlong, hshort, hfits⟩
    rw [hfits.utf8ByteSize_eq]
    exact ⟨hlong, hshort, hfits⟩
  · rintro ⟨hlong, hshort, hfits⟩
    rw [hfits.utf8ByteSize_eq] at hlong hshort
    exact ⟨hlong, hshort, hfits⟩

end BucketName

/-! ## Reports -/

namespace Problem

def namePath (index : Nat) : String := "bucket_names[" ++ toString index ++ "]"

def path : Problem → String
  | periodsInverted => "backoff_config.max_period"
  | noBuckets => "bucket_names"
  | nameTooShort i | nameTooLong i | nameMalformed i => namePath i

def reason : Problem → String
  | periodsInverted => "max_period must not be below min_period"
  | noBuckets => "length is lower than 1"
  | nameTooShort _ => "length is lower than 3"
  | nameTooLong _ => "length is greater than 63"
  | nameMalformed _ => "does not match pattern /^[a-z0-9][a-z0-9.\\-]*[a-z0-9]$/"

theorem line_eq (p : Problem) : p.line = p.path ++ ": " ++ p.reason := by
  cases p with
  | periodsInverted => decide
  | noBuckets => decide
  | nameTooShort i | nameTooLong i | nameMalformed i =>
    have hcolon : "]: " = "]" ++ ": " := by decide
    delta path line
    delta line.named namePath
    simp only [hcolon, String.append_assoc]
    rfl

theorem toList_namePath (index : Nat) :
    (namePath index).toList = "bucket_names[".toList ++ (Nat.toDigits 10 index ++ [']']) := by
  have hdigits : (toString index).toList = Nat.toDigits 10 index := by simp
  delta namePath
  rw [String.toList_append, String.toList_append, hdigits, List.append_assoc]
  rfl

theorem namePath_injective {i j : Nat} (h : namePath i = namePath j) : i = j := by
  have hlists := congrArg String.toList h
  simp only [toList_namePath] at hlists
  have hdigits := List.append_cancel_right (List.append_cancel_left hlists)
  rw [← Nat.ofDigitChars_ten_toDigits (n := i), hdigits, Nat.ofDigitChars_ten_toDigits]

theorem bracket_mem_namePath (index : Nat) : ']' ∈ (namePath index).toList := by
  rw [toList_namePath]
  exact List.mem_append_right _ (List.mem_append_right _ List.mem_cons_self)

theorem not_mem_namePath {c : Char} (hfirst : c ∉ "bucket_names[".toList) (hdigit : Text.isDecimalDigit c = false)
    (hlast : c ≠ ']') (index : Nat) : c ∉ (namePath index).toList := by
  rw [toList_namePath]
  intro hc
  rcases List.mem_append.1 hc with hc | hc
  · exact hfirst hc
  · rcases List.mem_append.1 hc with hc | hc
    · have htrue := Text.isDecimalDigit_of_mem_toDigits c hc
      rw [hdigit] at htrue
      cases htrue
    · exact hlast (List.mem_singleton.1 hc)

theorem not_mem_path {c : Char} (hc : c = ':' ∨ c = '\n') (p : Problem) : c ∉ p.path.toList := by
  cases p with
  | periodsInverted => rcases hc with rfl | rfl <;> decide
  | noBuckets => rcases hc with rfl | rfl <;> decide
  | nameTooShort i | nameTooLong i | nameMalformed i =>
    rcases hc with rfl | rfl <;> exact not_mem_namePath (by decide) (by decide) (by decide) i

theorem newline_not_mem_line (p : Problem) : '\n' ∉ p.line.toList := by
  have hreason : '\n' ∉ p.reason.toList := by
    cases p <;> simp only [reason] <;> decide
  rw [line_eq, String.toList_append, String.toList_append]
  simp [not_mem_path (.inr rfl) p, hreason]

end Problem

/-- The places that a report names: in each line, what is before the colon. -/
def reported (text : String) : List String :=
  (Text.pieces '\n' text.toList).filterMap fun line => (Text.cut ':' line).map fun parts => String.ofList parts.1

theorem reported_report (problems : List Problem) : reported (report problems) = problems.map Problem.path := by
  induction problems with
  | nil => decide
  | cons p problems ih =>
    have htext : (report (p :: problems)).toList = p.line.toList ++ '\n' :: (report problems).toList := by
      simp [report]
    have hline : p.line.toList = p.path.toList ++ ':' :: (' ' :: p.reason.toList) := by
      simp [Problem.line_eq]
    have hcut := Text.cut_append (Problem.not_mem_path (.inl rfl) p) (' ' :: p.reason.toList)
    rw [reported, htext, Text.pieces_append p.newline_not_mem_line, List.filterMap_cons, hline, hcut]
    simp only [Option.map_some, String.ofList_toList, List.map_cons]
    exact congrArg _ ih

/-! ## Configurations -/

namespace BucketName

theorem path_of_mem_problems {index : Nat} {name : String} {p : Problem} (h : p ∈ problems index name) :
    p.path = Problem.namePath index := by
  unfold problems at h
  grind [Problem.path]

theorem mem_map_path_iff {names : List String} {path : String} :
    path ∈ (names.zipIdx.flatMap fun (name, i) => problems i name).map Problem.path ↔
      ∃ i name, names[i]? = some name ∧ ¬ IsValid name ∧ path = Problem.namePath i := by
  simp only [List.mem_map, List.mem_flatMap]
  constructor
  · rintro ⟨p, ⟨⟨name, i⟩, hname, hp⟩, rfl⟩
    refine ⟨i, name, List.mem_zipIdx_iff_getElem?.1 hname, ?_, path_of_mem_problems hp⟩
    intro hvalid
    rw [isValid_iff.1 hvalid] at hp
    cases hp
  · rintro ⟨i, name, hname, hinvalid, rfl⟩
    have hsome : problems i name ≠ [] := fun hnone => hinvalid (isValid_iff.2 hnone)
    obtain ⟨p, hp⟩ := List.exists_mem_of_ne_nil _ hsome
    exact ⟨p, ⟨(name, i), List.mem_zipIdx_iff_getElem?.2 hname, hp⟩, path_of_mem_problems hp⟩

end BucketName

namespace StorageConfig
variable {c : StorageConfig}

structure IsSound (c : StorageConfig) : Prop where
  buckets : c.bucketNames ≠ []
  names : ∀ name ∈ c.bucketNames, BucketName.IsValid name
  periods : c.retry.minPeriod.nanos ≤ c.retry.maxPeriod.nanos

theorem mem_reported_iff {path : String} : path ∈ reported (report c.problems) ↔
    (path = "backoff_config.max_period" ∧ c.retry.maxPeriod.nanos < c.retry.minPeriod.nanos) ∨
    (path = "bucket_names" ∧ c.bucketNames = []) ∨
    ∃ i name, c.bucketNames[i]? = some name ∧ ¬ BucketName.IsValid name ∧ path = Problem.namePath i := by
  have hperiods : path ∈ List.map Problem.path
      (if c.retry.maxPeriod.nanos < c.retry.minPeriod.nanos then [.periodsInverted] else []) ↔
        path = "backoff_config.max_period" ∧ c.retry.maxPeriod.nanos < c.retry.minPeriod.nanos := by
    split <;> simp [*, Problem.path]
  have hbuckets : path ∈ List.map Problem.path (if c.bucketNames.isEmpty then [.noBuckets] else []) ↔
      path = "bucket_names" ∧ c.bucketNames = [] := by
    cases c.bucketNames <;> simp [Problem.path]
  rw [reported_report, problems, List.map_append, List.map_append, List.mem_append, List.mem_append, hperiods,
    hbuckets, BucketName.mem_map_path_iff, or_assoc]

theorem periods_mem_reported_iff : "backoff_config.max_period" ∈ reported (report c.problems) ↔
    c.retry.maxPeriod.nanos < c.retry.minPeriod.nanos := by
  rw [mem_reported_iff]
  constructor
  · rintro (⟨-, h⟩ | ⟨h, -⟩ | ⟨i, name, -, -, h⟩)
    · exact h
    · exact absurd h (by decide)
    · exact absurd (h ▸ Problem.bracket_mem_namePath i) (by decide)
  · exact fun h => .inl ⟨rfl, h⟩

theorem buckets_mem_reported_iff : "bucket_names" ∈ reported (report c.problems) ↔ c.bucketNames = [] := by
  rw [mem_reported_iff]
  constructor
  · rintro (⟨h, -⟩ | ⟨-, h⟩ | ⟨i, name, -, -, h⟩)
    · exact absurd h (by decide)
    · exact h
    · exact absurd (h ▸ Problem.bracket_mem_namePath i) (by decide)
  · exact fun h => .inr (.inl ⟨rfl, h⟩)

theorem namePath_mem_reported_iff {i : Nat} : Problem.namePath i ∈ reported (report c.problems) ↔
    ∃ name, c.bucketNames[i]? = some name ∧ ¬ BucketName.IsValid name := by
  rw [mem_reported_iff]
  constructor
  · rintro (⟨h, -⟩ | ⟨h, -⟩ | ⟨j, name, hname, hinvalid, h⟩)
    · exact absurd (h ▸ Problem.bracket_mem_namePath i) (by decide)
    · exact absurd (h ▸ Problem.bracket_mem_namePath i) (by decide)
    · exact ⟨name, Problem.namePath_injective h ▸ hname, hinvalid⟩
  · rintro ⟨name, hname, hinvalid⟩
    exact .inr (.inr ⟨i, name, hname, hinvalid, rfl⟩)

theorem isValid_iff_isSound : c.isValid = true ↔ c.IsSound := by
  have hvalid : c.isValid = true ↔ reported (report c.problems) = [] := by
    rw [isValid, List.isEmpty_iff, reported_report, List.map_eq_nil_iff]
  rw [hvalid]
  constructor
  · intro h
    have hnone : ∀ path, path ∉ reported (report c.problems) := by simp [h]
    refine ⟨fun hbuckets => hnone _ (buckets_mem_reported_iff.2 hbuckets), ?_, ?_⟩
    · intro name hname
      obtain ⟨i, hi⟩ := List.mem_iff_getElem?.1 hname
      exact Classical.byContradiction fun hinvalid => hnone _ (namePath_mem_reported_iff.2 ⟨name, hi, hinvalid⟩)
    · exact Nat.le_of_not_lt fun hinverted => hnone _ (periods_mem_reported_iff.2 hinverted)
  · rintro ⟨hbuckets, hnames, hperiods⟩
    apply List.eq_nil_iff_forall_not_mem.2
    intro path hpath
    rcases mem_reported_iff.1 hpath with ⟨-, h⟩ | ⟨-, h⟩ | ⟨i, name, hname, hinvalid, -⟩
    · exact absurd h (Nat.not_lt_of_le hperiods)
    · exact hbuckets h
    · exact hinvalid (hnames name (List.mem_of_getElem? hname))

theorem isSound_of_load {file : Option (List UInt8)} {config : Config} (h : Config.load file = .ok config) :
    config.storage.IsSound := by
  unfold Config.load Config.ofText at h
  apply isValid_iff_isSound.1
  grind

theorem forClient_eq (c : StorageConfig) :
    c.forClient = if c.isValid then .ok () else .error (.config (report c.problems)) := by
  rw [forClient]
  split
  · rename_i hvalid
    have hbuckets := (isValid_iff_isSound.1 hvalid).buckets
    simp [forBackend, hbuckets]
  · rfl

/-- What is asked of a configuration. It is accepted if it is sound, and otherwise its report names exactly what is
not. A client accepts what is accepted here, and tells the report of all else; and nothing else is ever loaded. -/
theorem validity (c : StorageConfig) :
    (c.isValid = true ↔ c.IsSound) ∧
    (∀ i, Problem.namePath i ∈ reported (report c.problems) ↔
      ∃ name, c.bucketNames[i]? = some name ∧ ¬ BucketName.IsValid name) ∧
    ("bucket_names" ∈ reported (report c.problems) ↔ c.bucketNames = []) ∧
    ("backoff_config.max_period" ∈ reported (report c.problems) ↔
      c.retry.maxPeriod.nanos < c.retry.minPeriod.nanos) ∧
    (∀ path ∈ reported (report c.problems),
      path = "bucket_names" ∨ path = "backoff_config.max_period" ∨ ∃ i, path = Problem.namePath i) ∧
    (c.forClient = .ok () ↔ c.isValid = true) ∧
    (c.isValid = false → c.forClient = .error (.config (report c.problems))) ∧
    ∀ file logging, Config.load file = .ok ⟨logging, c⟩ → c.IsSound := by
  refine ⟨isValid_iff_isSound, fun i => namePath_mem_reported_iff, buckets_mem_reported_iff,
    periods_mem_reported_iff, ?_, ?_, ?_, fun file logging h => isSound_of_load h⟩
  · intro path hpath
    rcases mem_reported_iff.1 hpath with ⟨h, -⟩ | ⟨h, -⟩ | ⟨i, name, -, -, h⟩
    · exact .inr (.inl h)
    · exact .inl h
    · exact .inr (.inr ⟨i, h⟩)
  · rw [forClient_eq]
    cases c.isValid <;> simp
  · intro h
    simp [forClient_eq, h]

/-- A name may be wrong in two ways, and then it is reported twice. -/
example : problems { bucketNames := ["a.b-c", "é", "abc.", "a\n"] } =
    [.nameTooShort 1, .nameMalformed 1, .nameMalformed 2, .nameTooShort 3, .nameMalformed 3] := by
  decide +kernel

end StorageConfig
end ObjectStorage
