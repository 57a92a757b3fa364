import ObjectStorage.Config.Reading
import ObjectStorage.Config.Writing
import ObjectStorage.Proofs.Yaml.WrittenValues

/-! # Configurations written and read back

A configuration that was read is written with its secrets masked, and all else is read back as it was. The one
exception are durations that were given as a number of milliseconds: they may be longer than a text can say, and
then what was written is refused.
-/
namespace ObjectStorage

open Yaml Yaml.Place

theorem Yaml.Place.duration_format {d : Duration} (hd : d.Given) (document : Document) (path : Path) :
    duration ((Written.text d.format).place document path) =
      if d.exceedsText then .error ⟨none, .duration (.tooLarge d.format)⟩ else .ok d := by
  rw [duration_text, hd.parse_format]
  cases d.exceedsText <;> rfl

namespace RetryPolicy

/-- What a policy has that was read. -/
structure Bounded (p : RetryPolicy) : Prop where
  maxRetries : p.maxRetries ≤ Nat.pow 2 32 - 1
  minPeriod : p.minPeriod.Given
  maxPeriod : p.maxPeriod.Given

theorem default_bounded : ({} : RetryPolicy).Bounded :=
  ⟨by decide, Duration.given_of_lt (by decide), Duration.given_of_lt (by decide)⟩

theorem bounded_of_read {q : Place} {p : RetryPolicy} (h : read q = .ok p) : p.Bounded := by
  refine record_keeps h default_bounded ?_
  intro f hf q s t hs ht
  simp only [fields, List.mem_cons, List.not_mem_nil, or_false] at hf
  rcases hf with rfl | rfl | rfl | rfl <;> obtain ⟨a, ha, rfl⟩ := update_field ht
  · exact { hs with maxRetries := natural_le ha }
  · exact { hs with minPeriod := given_of_duration ha }
  · exact { hs with maxPeriod := given_of_duration ha }
  · exact ⟨hs.maxRetries, hs.minPeriod, hs.maxPeriod⟩

theorem read_written {p : RetryPolicy} (h : p.Bounded) (d : Document) (path : Path) :
    read (p.written.place d path) = match [p.minPeriod, p.maxPeriod].find? Duration.exceedsText with
      | none => .ok p
      | some long => .error ⟨some path, .duration (.tooLarge long.format)⟩ := by
  have hrecord := record_written d path "RetryConfig" fields (by decide)
    [.number p.maxRetries, .text p.minPeriod.format, .text p.maxPeriod.format, .text p.writePolicy.name]
    (Nat.le_refl _) {}
  have hpolicy : (WritePolicy.all.map fun w => (w.name, w)).lookup p.writePolicy.name = some p.writePolicy := by
    cases p.writePolicy <;> rfl
  refine hrecord.trans ?_
  simp only [assign, fields, List.zip_cons_cons, List.zip_nil_right, List.foldlM_cons, List.foldlM_nil, field,
    natural32, natural_number _ _ _ h.maxRetries (by decide), duration_format h.minPeriod, duration_format h.maxPeriod,
    readWritePolicy, variant_text _ _ hpolicy]
  cases hmin : p.minPeriod.exceedsText <;> cases hmax : p.maxPeriod.exceedsText <;>
    simp only [List.find?_cons, List.find?_nil, hmin, hmax] <;> rfl

theorem exists_means_written {p : RetryPolicy} (h : p.Bounded) (depth : Nat) :
    ∃ v, Means (depth + 1) p.written v := by
  refine exists_means_record depth ?_ ?_ ?_
  · exact (by decide +kernel : ∀ name ∈ fields.map RecordField.name, Style.ofText name = .plain)
  · exact (by decide : (fields.map RecordField.name).Nodup)
  · simp only [List.forall_mem_cons]
    exact ⟨⟨_, means_number (Nat.lt_of_le_of_lt h.maxRetries (by decide)) depth⟩, ⟨_, means_text _ depth⟩,
      ⟨_, means_text _ depth⟩, ⟨_, means_text _ depth⟩, nofun⟩

end RetryPolicy

namespace HedgePolicy

/-- What a policy has that was read. -/
structure Bounded (p : HedgePolicy) : Prop where
  after : p.after.Given
  upTo : p.upTo ≤ Nat.pow 2 32 - 1
  maxPerSecond : p.maxPerSecond ≤ Nat.pow 2 32 - 1

theorem default_bounded : ({} : HedgePolicy).Bounded := ⟨Duration.given_of_lt (by decide), by decide, by decide⟩

theorem bounded_of_read {q : Place} {p : HedgePolicy} (h : read q = .ok p) : p.Bounded := by
  refine record_keeps h default_bounded ?_
  intro f hf q s t hs ht
  simp only [fields, List.mem_cons, List.not_mem_nil, or_false] at hf
  rcases hf with rfl | rfl | rfl <;> obtain ⟨a, ha, rfl⟩ := update_field ht
  · exact { hs with after := given_of_duration ha }
  · exact { hs with upTo := natural_le ha }
  · exact { hs with maxPerSecond := natural_le ha }

theorem read_written {p : HedgePolicy} (h : p.Bounded) (d : Document) (path : Path) :
    read (p.written.place d path) =
      if p.after.exceedsText then .error ⟨some path, .duration (.tooLarge p.after.format)⟩ else .ok p := by
  have hrecord := record_written d path "HedgingConfig" fields (by decide)
    [.text p.after.format, .number p.upTo, .number p.maxPerSecond] (Nat.le_refl _) {}
  refine hrecord.trans ?_
  simp only [assign, fields, List.zip_cons_cons, List.zip_nil_right, List.foldlM_cons, List.foldlM_nil, field,
    natural32, natural_number _ _ _ h.upTo (by decide), natural_number _ _ _ h.maxPerSecond (by decide),
    duration_format h.after]
  cases p.after.exceedsText <;> rfl

theorem exists_means_written {p : HedgePolicy} (h : p.Bounded) (depth : Nat) :
    ∃ v, Means (depth + 1) p.written v := by
  refine exists_means_record depth ?_ ?_ ?_
  · exact (by decide +kernel : ∀ name ∈ fields.map RecordField.name, Style.ofText name = .plain)
  · exact (by decide : (fields.map RecordField.name).Nodup)
  · simp only [List.forall_mem_cons]
    exact ⟨⟨_, means_text _ depth⟩, ⟨_, means_number (Nat.lt_of_le_of_lt h.upTo (by decide)) depth⟩,
      ⟨_, means_number (Nat.lt_of_le_of_lt h.maxPerSecond (by decide)) depth⟩, nofun⟩

end HedgePolicy

def Secret.masked (s : Secret) : Secret := ⟨s.rendered⟩

theorem Secret.isEmpty_masked (s : Secret) : s.masked.isEmpty = s.isEmpty := by
  cases h : s.isEmpty <;> simp [masked, rendered, h] <;> decide

theorem Secret.written_masked (s : Secret) : s.masked.written = s.written := by
  simp only [written, rendered, isEmpty_masked]

theorem readSecret_written (s : Secret) (d : Document) (path : Path) :
    readSecret (s.written.place d path) = .ok s.masked := by
  simp only [readSecret, Secret.written, optional_string]
  rfl

theorem readNames_written (names : List String) (d : Document) (path : Path) :
    readNames ((Written.texts names).place d path) = .ok names := by
  simp only [readNames, (hasTexts_texts d path names).optional_shaped]
  rfl

namespace StorageConfig

structure Bounded (c : StorageConfig) : Prop where
  retry : c.retry.Bounded
  hedging : c.hedging.Bounded
  listMaxPages : c.listMaxPages ≤ Nat.pow 2 64 - 1

theorem bounded_of_read {q : Place} {c : StorageConfig} (h : read q = .ok c) : c.Bounded := by
  refine record_keeps h ⟨RetryPolicy.default_bounded, HedgePolicy.default_bounded, by decide⟩ ?_
  intro f hf q s t hs ht
  simp only [fields, List.mem_cons, List.not_mem_nil, or_false] at hf
  rcases hf with rfl | rfl | rfl | rfl | rfl | rfl | rfl | rfl | rfl | rfl | rfl <;>
    obtain ⟨a, ha, rfl⟩ := update_field ht
  iterate 8 exact ⟨hs.retry, hs.hedging, hs.listMaxPages⟩
  · exact { hs with retry := RetryPolicy.bounded_of_read ha }
  · exact { hs with hedging := HedgePolicy.bounded_of_read ha }
  · exact { hs with listMaxPages := natural_le ha }

def masked (c : StorageConfig) : StorageConfig :=
  { c with secretAccessKey := c.secretAccessKey.masked, sessionToken := c.sessionToken.masked }

theorem written_masked (c : StorageConfig) : c.masked.written = c.written := by
  simp only [written, masked, Secret.written_masked]

/-- The first duration that a text cannot say, with the record that it is in. -/
def tooLong? (c : StorageConfig) : Option (String × Duration) :=
  [("backoff_config", c.retry.minPeriod), ("backoff_config", c.retry.maxPeriod), ("hedging", c.hedging.after)].find?
    fun x => x.2.exceedsText

theorem read_written {c : StorageConfig} (h : c.Bounded) (d : Document) (path : Path) :
    read (c.written.place d path) = match c.tooLong? with
      | none => .ok c.masked
      | some (name, long) => .error ⟨some (.field name :: path), .duration (.tooLarge long.format)⟩ := by
  have hrecord := record_written d path "StorageConfig" fields (by decide)
    [.texts c.bucketNames, .text c.endpoint, .text c.region, .flag c.forcePathStyle, .flag c.insecure,
      .text c.accessKeyId, c.secretAccessKey.written, c.sessionToken.written, c.retry.written, c.hedging.written,
      .number c.listMaxPages] (Nat.le_refl _) {}
  refine hrecord.trans ?_
  simp only [assign, fields, List.zip_cons_cons, List.zip_nil_right, List.foldlM_cons, List.foldlM_nil, field,
    readNames_written, string_text, boolean_flag, readSecret_written, RetryPolicy.read_written h.retry,
    HedgePolicy.read_written h.hedging, natural64, natural_number _ _ _ h.listMaxPages (by decide), tooLong?]
  cases hmin : c.retry.minPeriod.exceedsText <;> cases hmax : c.retry.maxPeriod.exceedsText <;>
    cases hafter : c.hedging.after.exceedsText <;>
    simp only [List.find?_cons, List.find?_nil, hmin, hmax, hafter] <;> rfl

theorem exists_means_written {c : StorageConfig} (h : c.Bounded) : ∃ v, Means depthLimit c.written v := by
  refine exists_means_record 127 ?_ ?_ ?_
  · exact (by decide +kernel : ∀ name ∈ fields.map RecordField.name, Style.ofText name = .plain)
  · exact (by decide : (fields.map RecordField.name).Nodup)
  · have hlimit : c.listMaxPages < Nat.pow 2 64 := Nat.lt_of_le_of_lt h.listMaxPages (by decide)
    simp only [List.forall_mem_cons]
    exact ⟨⟨_, means_texts _ 126⟩, ⟨_, means_text _ 127⟩, ⟨_, means_text _ 127⟩, ⟨_, means_flag _ 127⟩,
      ⟨_, means_flag _ 127⟩, ⟨_, means_text _ 127⟩, ⟨_, means_text _ 127⟩, ⟨_, means_text _ 127⟩,
      RetryPolicy.exists_means_written h.retry 126, HedgePolicy.exists_means_written h.hedging 126,
      ⟨_, means_number hlimit 127⟩, nofun⟩

theorem exists_millis {c : StorageConfig} (h : c.Bounded) {name : String} {long : Duration}
    (hlong : c.tooLong? = some (name, long)) : ∃ ms < Nat.pow 2 64, long = .ofMillis ms := by
  unfold tooLong? at hlong
  have hexceeds : long.exceedsText = true := by simpa using List.find?_some hlong
  have hmem := List.mem_of_find?_eq_some hlong
  simp only [List.mem_cons, List.not_mem_nil, or_false, Prod.mk.injEq] at hmem
  rcases hmem with ⟨-, rfl⟩ | ⟨-, rfl⟩ | ⟨-, rfl⟩
  · exact h.retry.minPeriod hexceeds
  · exact h.retry.maxPeriod hexceeds
  · exact h.hedging.after hexceeds

theorem readText_written {c : StorageConfig} (hbounded : c.Bounded) (hback : c.written.ReadsBack) :
    readText read c.written.render = match c.tooLong? with
      | none => .ok c.masked
      | some (name, long) => .error (.unfit ⟨some [.field name], .duration (.tooLarge long.format)⟩) := by
  obtain ⟨d, htext, hroot⟩ := Option.bind_eq_some_iff.1 hback
  obtain ⟨v, hv⟩ := exists_means_written hbounded
  have hplace : Place.ofDocument d = c.written.place d [] := by
    rw [ofDocument, hroot]
    rfl
  simp only [readText, htext, hplace, read_written hbounded, isSome_value? hv hroot, ↓reduceIte]
  cases c.tooLong? <;> rfl

/-- What becomes of a configuration that was read, in whatever form its durations and names were given, when it is
written and read back. If all its durations fit 64 bits, all comes back, but for the secrets, of which those set are
masked. A longer duration is written as a text that is refused as too large. -/
theorem reload {p : Place} {c : StorageConfig} (hread : read p = .ok c) (hback : c.written.ReadsBack) :
    readText read c.written.render = (match c.tooLong? with
      | none => .ok { c with secretAccessKey := c.secretAccessKey.masked, sessionToken := c.sessionToken.masked }
      | some (name, long) => .error (.unfit ⟨some [.field name], .duration (.tooLarge long.format)⟩)) ∧
    c.secretAccessKey.masked.isEmpty = c.secretAccessKey.isEmpty ∧
    c.sessionToken.masked.isEmpty = c.sessionToken.isEmpty ∧
    c.masked.written.render = c.written.render ∧
    ∀ name long, c.tooLong? = some (name, long) → ∃ ms < Nat.pow 2 64, long = .ofMillis ms :=
  ⟨readText_written (bounded_of_read hread) hback, c.secretAccessKey.isEmpty_masked, c.sessionToken.isEmpty_masked,
    by rw [written_masked], fun _ _ => exists_millis (bounded_of_read hread)⟩

theorem exists_read {text : String} {c : StorageConfig} (h : (readText read text).toOption = some c) :
    ∃ p, read p = .ok c := by
  unfold readText at h
  split at h
  · cases h
  · rename_i d _
    refine ⟨.ofDocument d, ?_⟩
    cases hread : read (.ofDocument d) with
    | error f => simp [hread, Except.toOption] at h
    | ok c' => simpa [hread, Except.toOption] using h

/-- A text with a secret, a duration in milliseconds and the buckets in one text. -/
def steady : String := "bucket_names: west, east\nsecret_access_key: hunter2\nhedging:\n  at: 50\n"

def steadyConfig : StorageConfig :=
  { bucketNames := ["west", "east"], secretAccessKey := ⟨"hunter2"⟩, hedging := { after := .ofMillis 50 } }

set_option maxRecDepth 4000 in
theorem reload_steady : (readText read steady).toOption = some steadyConfig ∧ steadyConfig.written.ReadsBack ∧
    readText read steadyConfig.written.render = .ok { steadyConfig with secretAccessKey := ⟨"********"⟩ } := by
  have hread : (readText read steady).toOption = some steadyConfig := by decide +kernel
  have hback : steadyConfig.written.ReadsBack := Written.readsBack_of_tokens (by decide +kernel) rfl
  obtain ⟨p, hp⟩ := exists_read hread
  exact ⟨hread, hback, (reload hp hback).1⟩

/-- A text with the least number of milliseconds that is no duration when it is written as a text. -/
def lasting : String := "bucket_names: [good-bucket]\nhedging:\n  at: 18446744073710\n"

def lastingConfig : StorageConfig :=
  { bucketNames := ["good-bucket"], hedging := { after := .ofMillis 18446744073710 } }

set_option maxRecDepth 4000 in
/-- What is written of a configuration that was read is refused. -/
theorem reload_lasting : (readText read lasting).toOption = some lastingConfig ∧
    lastingConfig.written.ReadsBack ∧ readText read lastingConfig.written.render =
      .error (.unfit ⟨some [.field "hedging"], .duration (.tooLarge "18446744073710ms")⟩) := by
  have hread : (readText read lasting).toOption = some lastingConfig := by decide +kernel
  have hback : lastingConfig.written.ReadsBack := Written.readsBack_of_tokens (by decide +kernel) rfl
  obtain ⟨p, hp⟩ := exists_read hread
  exact ⟨hread, hback, readText_written (bounded_of_read hp) hback⟩

end StorageConfig
end ObjectStorage
