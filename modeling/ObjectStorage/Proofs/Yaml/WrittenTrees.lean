import ObjectStorage.Proofs.Text.Durations
import ObjectStorage.Proofs.Yaml.Texts
import ObjectStorage.Yaml.Written

/-! # Written trees read back

What is read at a place that holds a written tree: each value as it was written, and a record field by field.
-/
namespace ObjectStorage.Yaml

theorem bind_eq_ok {ε α β : Type} {x : Except ε α} {f : α → Except ε β} {b : β} :
    x >>= f = .ok b ↔ ∃ a, x = .ok a ∧ f a = .ok b := by
  cases x with
  | error e => exact ⟨nofun, nofun⟩
  | ok a => exact ⟨fun h => ⟨a, rfl, h⟩, fun ⟨_, ha, h⟩ => Except.ok.inj ha ▸ h⟩

theorem mapError_eq_ok {ε ε' α : Type} {f : ε → ε'} {x : Except ε α} {a : α} :
    x.mapError f = .ok a ↔ x = .ok a := by
  cases x with
  | error e => exact ⟨nofun, nofun⟩
  | ok b => exact ⟨fun h => congrArg Except.ok (Except.ok.inj h), fun h => congrArg Except.ok (Except.ok.inj h)⟩

/-! ## Scalars -/

theorem eq_of_resolvePlain {s x : String} (h : resolvePlain s = .text x) : x = s := by
  unfold resolvePlain at h
  grind

theorem resolvePlain_of_plain {s : String} (h : Style.ofText s = .plain) : resolvePlain s = .text s := by
  have hquotes : needsQuotes s = false := by
    unfold Style.ofText at h
    grind
  unfold needsQuotes at hquotes
  split at hquotes
  · rename_i x hx
    rw [hx, eq_of_resolvePlain hx]
  · cases hquotes

/-- A text is written in a style that it is read back from as a text. -/
@[simp] theorem resolve_ofText (s : String) : resolve none (Style.ofText s) s = .ok (.text s) := by
  rw [resolve]
  split
  · rename_i hplain
    rw [resolvePlain_of_plain hplain]
  · rfl

theorem magnitude?_toDigits (n : Nat) : magnitude? (Nat.toDigits 10 n) = some n := by
  unfold magnitude?
  split
  · rename_i c digits hdigits
    have hzero : n = 0 := Nat.eq_zero_of_not_pos fun hpos => Text.head?_toDigits hpos (by rw [hdigits]; rfl)
    simp [hzero] at hdigits
  · exact Text.readDigits?_toDigits n

theorem natural?_toString {n limit : Nat} (h : n < limit) : natural? limit (toString n).toList = some n := by
  have htext : (toString n).toList = Nat.toDigits 10 n := by simp
  unfold natural?
  rw [htext]
  split
  · rename_i rest hdigits
    have hplus := Text.isDecimalDigit_of_mem_toDigits (n := n) '+' (by rw [hdigits]; exact .head _)
    exact absurd hplus (by decide)
  · simp [magnitude?_toDigits, Option.filter, h]

/-! ## Places -/

/-- The place of a written tree in some document. -/
def Written.place (w : Written) (d : Document) (path : Path) : Place := ⟨d, path, some w.toNode⟩

namespace Place
variable (d : Document) (path : Path)

@[simp] theorem target_text (s : String) :
    ((Written.text s).place d path).target = some (.scalar none (Style.ofText s) s) := rfl

@[simp] theorem target_flag (b : Bool) :
    ((Written.flag b).place d path).target = some (.scalar none .plain (toString b)) := rfl

@[simp] theorem target_number (n : Nat) :
    ((Written.number n).place d path).target = some (.scalar none .plain (toString n)) := rfl

@[simp] theorem string_text (s : String) : string ((Written.text s).place d path) = .ok s := rfl

@[simp] theorem boolean_flag (b : Bool) : boolean ((Written.flag b).place d path) = .ok b := by
  cases b <;> rfl

theorem natural_number {n largest : Nat} (expected : String) (hn : n ≤ largest) (hlargest : largest < Nat.pow 2 64) :
    natural expected largest ((Written.number n).place d path) = .ok n := by
  simp only [natural, target_number, isBare, decide_true, Bool.true_or, ↓reduceIte,
    natural?_toString (Nat.lt_of_le_of_lt hn hlargest), hn]

theorem hasText_text (s : String) : ((Written.text s).place d path).HasText s :=
  ⟨none, Style.ofText s, rfl, rfl, resolve_ofText s⟩

theorem hasTexts_texts (items : List String) : ((Written.texts items).place d path).HasTexts items := by
  refine ⟨none, _, rfl, rfl, List.forall₂_map_left_iff.2 (List.forall₂_same.2 ?_)⟩
  intro s _
  exact hasText_text d path s

/-- No text that is written stands for nothing. -/
@[simp] theorem isNull_text (s : String) : isNull ((Written.text s).place d path) = false :=
  (hasText_text d path s).isNull

theorem duration_text (s : String) : duration ((Written.text s).place d path) =
    (Duration.parse s).mapError fun f => ⟨none, .duration f⟩ := by
  have htext := hasText_text d path s
  simp only [duration, shaped, htext.localTag?, htext.meaning?]
  rfl

@[simp] theorem optional_string (s : String) : optional string ((Written.text s).place d path) = .ok (some s) := by
  simp only [optional, isNull_text]
  rfl

theorem variant_text {α : Type} {names : List (String × α)} {s : String} {a : α} (h : names.lookup s = some a) :
    variant names ((Written.text s).place d path) = .ok a := by
  simp only [variant, target_text, Option.filter_none, h]

/-! ## Records -/

variable {σ : Type}

/-- The values of the fields of a record are read one after the other. -/
def assign (d : Document) (path : Path) (fields : List (RecordField σ × Written)) (s : σ) : Except Fault σ :=
  fields.foldlM (fun s (f, w) => f.update (w.place d (.field f.name :: path)) s) s

theorem find?_field {fields : List (RecordField σ)} (hnodup : (fields.map RecordField.name).Nodup) {f : RecordField σ}
    (hf : f ∈ fields) : fields.find? (·.name = f.name) = some f := by
  induction fields with
  | nil => cases hf
  | cons g fields ih =>
    simp only [List.map_cons, List.nodup_cons] at hnodup
    rcases List.mem_cons.1 hf with rfl | hf
    · simp
    · have hne : g.name ≠ f.name := fun h => hnodup.1 (h ▸ List.mem_map_of_mem hf)
      simp [hne, ih hnodup.2 hf]

/-- The induction is on the fields that are still to come: none of them has been seen. -/
theorem entries_written {fields : List (RecordField σ)} (hnodup : (fields.map RecordField.name).Nodup) {p : Place}
    (rest : List (RecordField σ × Written)) (hrest : ∀ x ∈ rest, x.1 ∈ fields)
    (hfresh : (rest.map fun x => x.1.name).Nodup) (seen : List String) (hseen : ∀ x ∈ rest, x.1.name ∉ seen) (s : σ) :
    entries fields p seen (Written.toEntries (rest.map fun x => (x.1.name, x.2))) s =
      assign p.document p.path rest s := by
  induction rest generalizing seen s with
  | nil => rfl
  | cons x rest ih =>
    obtain ⟨f, w⟩ := x
    simp only [List.map_cons, List.nodup_cons] at hfresh
    have hfound := find?_field hnodup (hrest (f, w) List.mem_cons_self)
    have hnew : seen.contains f.name = false := by simpa using hseen (f, w) List.mem_cons_self
    have hnext := fun s => ih (fun x hx => hrest x (List.mem_cons_of_mem _ hx)) hfresh.2 (f.name :: seen)
      (fun x hx hmem => (List.mem_cons.1 hmem).elim (fun h => hfresh.1 (h ▸ List.mem_map_of_mem hx))
        (hseen x (List.mem_cons_of_mem _ hx))) s
    rw [List.map_cons, Written.toEntries, assign, List.foldlM_cons]
    unfold entries
    simp only [Node.plain, Document.follow, hfound, hnew, Bool.false_eq_true, ↓reduceIte]
    exact bind_congr hnext

/-- A record that is written with all its fields in their order is read field by field. -/
theorem record_written (name : String) (fields : List (RecordField σ)) (hnodup : (fields.map RecordField.name).Nodup)
    (values : List Written) (hlength : fields.length ≤ values.length) (default : σ) :
    record name fields default ((Written.record ((fields.zip values).map fun x => (x.1.name, x.2))).place d path) =
      (assign d path (fields.zip values) default).mapError (·.within path) := by
  have hnames : ((fields.zip values).map fun x => x.1.name) = fields.map RecordField.name := by
    calc ((fields.zip values).map fun x => x.1.name)
      _ = ((fields.zip values).map Prod.fst).map RecordField.name := List.map_map.symm
      _ = fields.map RecordField.name := by rw [List.map_fst_zip hlength]
  have hread := entries_written hnodup (p := (Written.record ((fields.zip values).map fun x =>
    (x.1.name, x.2))).place d path) (fields.zip values) (fun x hx => (List.of_mem_zip hx).1) (by rwa [hnames])
    [] (by simp) default
  unfold record
  exact congrArg (Except.mapError _) hread

/-! ## What can be read -/

theorem mistyped_ne_ok {α : Type} (p : Place) (expected : String) (a : α) : p.mistyped expected ≠ .ok a := by
  unfold mistyped
  grind [Place.fail]

theorem natural_le {expected : String} {largest n : Nat} {p : Place} (h : natural expected largest p = .ok n) :
    n ≤ largest := by
  have hmistyped := mistyped_ne_ok p expected n
  unfold natural at h
  grind [Place.fail]

theorem shape_of_shaped {α : Type} {name : String} {shape : Place → Except Fault (Option α)} {p : Place} {a : α}
    (h : shaped name shape p = .ok a) : shape p = .ok (some a) := by
  unfold shaped at h
  cases hshape : shape p with
  | error e => simp only [hshape] at h; split at h <;> cases h
  | ok found =>
    simp only [hshape] at h
    split at h
    · cases h
    · cases found with
      | none => cases h
      | some b => cases h; rfl

theorem given_of_duration {d : Duration} {p : Place} (h : duration p = .ok d) : d.Given := by
  unfold duration at h
  obtain ⟨given, hgiven, hd⟩ := bind_eq_ok.1 h
  cases given with
  | inl ms =>
    cases hd
    obtain ⟨meant, -, hmeant⟩ := bind_eq_ok.1 (shape_of_shaped hgiven)
    obtain ⟨r, -, hr⟩ := Option.bind_eq_some_iff.1 (Except.ok.inj hmeant)
    have hms : ms < Nat.pow 2 64 := by split at hr <;> grind
    exact Duration.given_ofMillis hms
  | inr s => exact Duration.given_of_lt (Duration.parse_lt (mapError_eq_ok.1 hd))

theorem update_field {α : Type} {name : String} {read : Read α} {put : α → σ → σ} {q : Place} {s t : σ}
    (h : (field name read put).update q s = .ok t) : ∃ a, read q = .ok a ∧ put a s = t := by
  cases hread : read q with
  | error e => simp [field, hread, Except.map] at h
  | ok a => exact ⟨a, rfl, by simpa [field, hread, Except.map] using h⟩

theorem entries_keeps {P : σ → Prop} {fields : List (RecordField σ)} {p : Place}
    (hkeeps : ∀ f ∈ fields, ∀ q s t, P s → f.update q s = .ok t → P t) (es : List (Node × Node)) {seen : List String}
    {s t : σ} (hs : P s) (h : entries fields p seen es s = .ok t) : P t := by
  induction es generalizing seen s with
  | nil =>
    cases h
    exact hs
  | cons e es ih =>
    unfold entries at h
    split at h
    · split at h
      · exact ih hs h
      · rename_i f hfound
        split at h
        · cases h
        · obtain ⟨u, hu, h⟩ := bind_eq_ok.1 h
          exact ih (hkeeps f (List.mem_of_find?_eq_some hfound) _ _ _ hs hu) h
    · cases h
    · cases h
    · cases h

/-- What a default has, and each field keeps, a record that is read has. -/
theorem record_keeps {P : σ → Prop} {name : String} {fields : List (RecordField σ)} {default s : σ} {p : Place}
    (h : record name fields default p = .ok s) (hdefault : P default)
    (hkeeps : ∀ f ∈ fields, ∀ q s t, P s → f.update q s = .ok t → P t) : P s := by
  have hresult := mapError_eq_ok.1 h
  split at hresult
  · cases hresult
    exact hdefault
  · exact entries_keeps hkeeps _ hdefault hresult
  · cases hresult
    exact hdefault
  · exact absurd hresult (mistyped_ne_ok p _ s)

end Place
end ObjectStorage.Yaml
