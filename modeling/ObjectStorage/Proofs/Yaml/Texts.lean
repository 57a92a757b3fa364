import Mathlib.Data.List.Forall2
import ObjectStorage.Yaml.Decode

/-! # Texts in documents

However a text is written in a document, it is read as that text: between quotes, as a block, plainly if it is
nothing else than a text, with a tag that says that it is one, or as an alias of any of these. So is each item of a
list.
-/
namespace ObjectStorage.Yaml.Place

/-- A place that holds a text. Tags that are no one's but the document's own are no part of a text. -/
def HasText (p : Place) (s : String) : Prop := ∃ tag style,
  p.target = some (.scalar tag style s) ∧ tag.any isLocalTag = false ∧ resolve tag style s = .ok (.text s)

/-- A place that holds a list of texts. -/
def HasTexts (p : Place) (texts : List String) : Prop := ∃ tag items,
  p.target = some (.sequence tag items) ∧ tag.any isLocalTag = false ∧
    List.Forall₂ (fun item s => HasText { p with node := some item } s) items texts

variable {p : Place} {s : String} {texts : List String}

theorem HasText.meaning? (h : p.HasText s) : p.meaning? = .ok (some (.text s)) := by
  obtain ⟨tag, style, htarget, -, hresolve⟩ := h
  simp only [Place.meaning?, htarget, hresolve]

theorem HasText.localTag? (h : p.HasText s) (depth : Nat) : localTag? depth p = none := by
  obtain ⟨tag, style, htarget, hlocal, -⟩ := h
  cases depth with
  | zero => rfl
  | succ depth =>
    cases tag with
    | none => simp only [Place.localTag?, htarget]
    | some tag =>
      rw [Option.any_some] at hlocal
      simp only [Place.localTag?, htarget, hlocal, Bool.false_eq_true, ↓reduceIte]

/-- A text stands for nothing neither if it is plain nor if it is tagged. -/
theorem HasText.isNull (h : p.HasText s) : p.isNull = false := by
  obtain ⟨tag, style, htarget, -, hresolve⟩ := h
  unfold Place.isNull
  rw [htarget]
  cases style with
  | plain =>
    cases tag with
    | none =>
      have hplain : resolvePlain s = .text s := by simpa [resolve] using hresolve
      unfold resolvePlain at hplain
      grind
    | some tag =>
      by_cases hnull : tag = coreTag "null"
      · subst hnull
        have hother : ∀ name ∈ ["bool", "int", "float"], coreTag "null" ≠ coreTag name := by decide
        simp only [resolve, hother, List.mem_cons, true_or, or_true, ↓reduceIte] at hresolve
        cases hword : isNullText s <;> simp_all
      · simp [hnull]
  | _ => cases tag <;> rfl

theorem HasText.textOrTexts (h : p.HasText s) : textOrTexts p = .ok (some (.inr s)) := by
  have hmeaning := h.meaning?
  obtain ⟨tag, style, htarget, -⟩ := h
  simp only [Place.textOrTexts, htarget, hmeaning]
  rfl

theorem HasText.optional_shaped (h : p.HasText s) (name : String) :
    optional (shaped name Place.textOrTexts) p = .ok (some (.inr s)) := by
  simp only [optional, h.isNull, shaped, h.localTag?, h.textOrTexts]
  rfl

/-- The items of a list of texts are read one after the other. -/
theorem mapM_zipIdx {α β γ δ : Type} {R : α → β → Prop} {read : α × Nat → Except δ γ} {g : β → γ}
    (hread : ∀ a b i, R a b → read (a, i) = .ok (g b)) {as : List α} {bs : List β} (h : List.Forall₂ R as bs)
    (start : Nat) : (as.zipIdx start).mapM read = .ok (bs.map g) := by
  induction h generalizing start with
  | nil => rfl
  | cons hab _ ih =>
    rw [List.zipIdx_cons, List.mapM_cons, hread _ _ start hab, ih]
    rfl

theorem mapM_some {α : Type} (items : List α) : (items.map some).mapM id = some items := by
  induction items with
  | nil => rfl
  | cons a items ih =>
    rw [List.map_cons, List.mapM_cons, ih]
    rfl

theorem HasTexts.textOrTexts (h : p.HasTexts texts) : textOrTexts p = .ok (some (.inl texts)) := by
  obtain ⟨tag, items, htarget, -, hitems⟩ := h
  unfold Place.textOrTexts
  rw [htarget]
  simp only
  rw [mapM_zipIdx (g := some) (R := fun item s => HasText { p with node := some item } s) (fun item s i h => by
    have hitem : (p.part (.item i) item).HasText s := h
    change (return (← (p.part (.item i) item).meaning?).bind _) = _
    rw [hitem.meaning?]
    rfl) hitems]
  change Except.ok (((texts.map some).mapM id).map Sum.inl) = _
  rw [mapM_some]
  rfl

theorem HasTexts.localTag? (h : p.HasTexts texts) (depth : Nat) : localTag? depth p = none := by
  obtain ⟨tag, items, htarget, hlocal, hitems⟩ := h
  cases depth with
  | zero => rfl
  | succ depth =>
    simp only [Place.localTag?, htarget, hlocal, Bool.false_eq_true, ↓reduceIte, List.findSome?_eq_none_iff]
    rintro ⟨item, i⟩ hitem
    have hall := (List.forall₂_and_left _ _).1 (hitems.imp fun item s h => ⟨Exists.intro s h, h⟩)
    obtain ⟨s, hs⟩ := hall.1 item (List.fst_mem_of_mem_zipIdx hitem)
    exact HasText.localTag? (p := p.part (.item i) item) hs depth

theorem HasTexts.isNull (h : p.HasTexts texts) : p.isNull = false := by
  obtain ⟨tag, items, htarget, -⟩ := h
  simp only [Place.isNull, htarget]

theorem HasTexts.optional_shaped (h : p.HasTexts texts) (name : String) :
    optional (shaped name Place.textOrTexts) p = .ok (some (.inl texts)) := by
  simp only [optional, h.isNull, shaped, h.localTag?, h.textOrTexts]
  rfl

end ObjectStorage.Yaml.Place
