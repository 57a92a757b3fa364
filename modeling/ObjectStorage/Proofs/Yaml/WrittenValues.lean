import Mathlib.Control.Basic
import Mathlib.Data.Option.Basic
import ObjectStorage.Proofs.Yaml.WrittenTrees

/-! # Values of written trees

A written tree has a value, whatever it is read for: its scalars mean something, its keys differ, it is not
deep and it has no aliases.
-/
namespace ObjectStorage.Yaml

/-- A tree has a value, and obtaining it uses up nothing. -/
def Means (depth : Nat) (w : Written) (v : Value) : Prop :=
  ∀ (d : Document) (left : Nat), (d.load depth w.toNode).run left = some (v, left)

theorem means_scalar {w : Written} {style : Style} {text : String} {v : Value}
    (hnode : w.toNode = .scalar none style text)
    (hv : Document.scalarValue none style text = some v) (depth : Nat) : Means depth w v := by
  intro d left
  rw [hnode]
  cases depth <;> simp [Document.load, Document.spend, hv]

theorem means_text (s : String) (depth : Nat) : Means depth (.text s) (.text s) :=
  means_scalar rfl (by simp [Document.scalarValue]) depth

theorem means_flag (b : Bool) (depth : Nat) : Means depth (.flag b) (.bool b) :=
  means_scalar rfl (by cases b <;> rfl) depth

theorem contains_toString {words : List String}
    (h : (words.all fun w => !w.toList.head?.any Text.isDecimalDigit) = true) (n : Nat) :
    words.contains (toString n) = false := by
  rw [Bool.eq_false_iff]
  intro hmem
  have hword := List.all_eq_true.1 h _ (List.contains_iff_mem.1 hmem)
  cases hdigits : Nat.toDigits 10 n with
  | nil => exact Nat.toDigits_ne_nil hdigits
  | cons c digits =>
    have hdigit := Text.isDecimalDigit_of_mem_toDigits (n := n) c (by rw [hdigits]; exact .head _)
    simp [hdigits, hdigit] at hword

theorem resolvePlain_toString {n : Nat} (hn : n < Nat.pow 2 128) : resolvePlain (toString n) = .int n := by
  have hempty : (toString n).isEmpty = false := by simp
  have hnull : isNullText (toString n) = false := contains_toString (by decide) n
  have htrue : trueTexts.contains (toString n) = false := contains_toString (by decide) n
  have hfalse : falseTexts.contains (toString n) = false := contains_toString (by decide) n
  simp only [resolvePlain, hempty, hnull, boolOfText?, htrue, hfalse, integer?, natural?_toString hn, Bool.or_self,
    Bool.false_eq_true, ↓reduceIte]

theorem means_number {n : Nat} (hn : n < Nat.pow 2 64) (depth : Nat) : Means depth (.number n) (.int n) := by
  have hsmall : n < Nat.pow 2 128 := Nat.lt_trans hn (by decide)
  refine means_scalar rfl ?_ depth
  have hfits : fits64 n = true := by
    simp only [fits64, Bool.and_eq_true, decide_eq_true_eq]
    exact ⟨Int.le_trans (by decide) (Int.natCast_nonneg n), Int.ofNat_lt.2 hn⟩
  simp only [Document.scalarValue, Option.filter_none, resolve, ↓reduceIte, resolvePlain_toString hsmall, hfits]

theorem run_mapM {α β : Type} {f : α → StateT Nat Option β} {g : α → β} {items : List α}
    (h : ∀ a ∈ items, ∀ left, (f a).run left = some (g a, left)) (left : Nat) :
    (items.mapM f).run left = some (items.map g, left) := by
  induction items with
  | nil => rfl
  | cons a items ih =>
    simp [List.mapM_cons, h a List.mem_cons_self, ih fun b hb => h b (List.mem_cons_of_mem a hb)]

theorem means_texts (items : List String) (depth : Nat) :
    Means (depth + 1) (.texts items) (.sequence (items.map .text)) := by
  intro d left
  have hitems := run_mapM (f := d.load depth ∘ fun s => .scalar none (Style.ofText s) s) (g := Value.text)
    (fun s (_ : s ∈ items) => means_text s depth d) left
  simp [Written.toNode, Document.load, Document.spend, Document.wrapLocal, hitems]

theorem repeatsKey_texts (fields : List (String × Value)) (h : (fields.map Prod.fst).Nodup) :
    repeatsKey (fields.map fun f => (.text f.1, f.2)) = false := by
  induction fields with
  | nil => rfl
  | cons f fields ih =>
    simp only [List.map_cons, List.nodup_cons] at h
    simp only [List.map_cons, repeatsKey, ih h.2, Bool.or_false, List.any_map, List.any_eq_false]
    intro g hg hsame
    have hname : f.1 = g.1 := by simpa [Value.same] using hsame
    exact h.1 (hname ▸ List.mem_map_of_mem hg)

theorem toEntries_eq_map (fields : List (String × Written)) :
    Written.toEntries fields = fields.map fun f => (.plain f.1, f.2.toNode) := by
  induction fields with
  | nil => rfl
  | cons f fields ih => rw [Written.toEntries, ih, List.map_cons]

theorem exists_means_record (depth : Nat) {fields : List (String × Written)}
    (hplain : ∀ name ∈ fields.map Prod.fst, Style.ofText name = .plain) (hnodup : (fields.map Prod.fst).Nodup)
    (hfields : ∀ f ∈ fields, ∃ v, Means depth f.2 v) : ∃ v, Means (depth + 1) (.record fields) v := by
  have hchoice : ∀ f : String × Written, ∃ v, f ∈ fields → Means depth f.2 v := by
    intro f
    by_cases hf : f ∈ fields
    · exact (hfields f hf).imp fun _ h _ => h
    · exact ⟨.null, fun h => absurd h hf⟩
  obtain ⟨value, hvalue⟩ := Classical.axiomOfChoice hchoice
  refine ⟨.mapping (fields.map fun f => (.text f.1, value f)), fun d left => ?_⟩
  have hentry : ∀ f ∈ fields, ∀ left, (do
      let name ← d.load depth (.plain f.1)
      Prod.mk name <$> d.load depth f.2.toNode).run left = some ((.text f.1, value f), left) := by
    intro f hf left
    have hname := means_text f.1 depth d left
    simp only [Written.toNode, hplain _ (List.mem_map_of_mem hf)] at hname
    simp [Node.plain, hname, hvalue f hf d left]
  have hentries := run_mapM hentry left
  have hkeys : repeatsKey (fields.map fun f => (.text f.1, value f)) = false := by
    have hfresh := repeatsKey_texts (fields.map fun f => (f.1, value f))
      (by simpa [Function.comp_def] using hnodup)
    simpa [Function.comp_def] using hfresh
  simp [Written.toNode, toEntries_eq_map, Document.load, Document.spend, Document.wrapLocal, Function.comp_def,
    hentries, hkeys, guard]

theorem isSome_value? {w : Written} {v : Value} (h : Means depthLimit w v) {d : Document}
    (hroot : d.root = some w.toNode) : d.value?.isSome = true := by
  simp only [Document.value?, hroot, h d, Option.map_some, Option.isSome_some]

/-! ## Texts of written trees -/

namespace Written

/-- The text of a tree is read as that tree. -/
def ReadsBack (w : Written) : Prop := (Document.ofText? w.render).bind Document.root = some w.toNode

mutual

/-- The tokens of a tree as it is written. The items of a list start in the column of the record around it. -/
def tokens : Written → List Token
  | .text s => [.scalar (Style.ofText s) s]
  | .flag b => [.scalar .plain (toString b)]
  | .number n => [.scalar .plain (toString n)]
  | .texts [] => [.flowSequenceStart, .flowSequenceEnd]
  | .texts items => items.flatMap fun s => [.blockEntry, .scalar (Style.ofText s) s]
  | .record [] => [.flowMappingStart, .flowMappingEnd]
  | .record fields => .blockMappingStart :: fieldTokens fields ++ [.blockEnd]

def fieldTokens : List (String × Written) → List Token
  | [] => []
  | (name, value) :: rest => .key :: .scalar .plain name :: .value :: tokens value ++ fieldTokens rest

end

/-- A tree is read back if its text has its tokens and these make it up. -/
theorem readsBack_of_tokens {w : Written} (hread : tokens? (lines 0 [] w) = some w.tokens)
    (hmade : ((Compose.document.run { tokens := w.tokens }).bind (·.1)) = some w.toNode) : w.ReadsBack := by
  rw [ReadsBack, Document.ofText?, render, String.toList_ofList, hread]
  cases hrun : Compose.document.run { tokens := w.tokens } with
  | none => simp [hrun] at hmade
  | some made => simpa [hrun] using hmade

end Written
end ObjectStorage.Yaml
