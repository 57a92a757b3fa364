import ObjectStorage.Config.Showing
import ObjectStorage.Config.Validation
import ObjectStorage.Config.Writing

/-! # Secrets stay unseen

What is seen of a configuration goes by the other fields, and by which of its secrets are set. What a developer
sees does not even tell that.
-/
namespace ObjectStorage

open Yaml

namespace Yaml.Written

theorem fieldLines_append (indent : Nat) (fields more : List (String × Written)) :
    fieldLines indent (fields ++ more) = fieldLines indent fields ++ fieldLines indent more := by
  induction fields with
  | nil => rfl
  | cons field fields ih =>
    obtain ⟨name, value⟩ := field
    simp [fieldLines, ih]

theorem fieldLines_cons_inj {indent : Nat} {name : String} {v w : Written} {rest more : List (String × Written)} :
    fieldLines indent ((name, v) :: rest) = fieldLines indent ((name, w) :: more) ↔
      lines indent [' '] v ++ fieldLines indent rest = lines indent [' '] w ++ fieldLines indent more := by
  simp [fieldLines]

end Yaml.Written

/-- The lines of a secret tell where they end, and they tell whether it is set. -/
theorem Secret.isEmpty_of_lines {s t : Secret} {rest more : List Char}
    (h : Written.lines 2 [' '] s.written ++ rest = Written.lines 2 [' '] t.written ++ more) :
    s.isEmpty = t.isEmpty ∧ rest = more := by
  have hunset : Written.lines 2 [' '] (.text "") = [' ', '\'', '\'', '\n'] := by decide
  have hset : Written.lines 2 [' '] (.text mask) = [' ', '\''] ++ mask.toList ++ ['\'', '\n'] := by decide
  have hmask : mask.toList = List.replicate 8 '*' := by decide
  cases hs : s.isEmpty <;> cases ht : t.isEmpty <;>
    simp [written, rendered, hs, ht, hunset, hset, hmask, List.replicate] at h ⊢
  all_goals exact h

namespace StorageConfig

def withSecrets (secret token : Secret) (c : StorageConfig) : StorageConfig :=
  { c with secretAccessKey := secret, sessionToken := token }

def secretsSet (c : StorageConfig) : Bool × Bool := (!c.secretAccessKey.isEmpty, !c.sessionToken.isEmpty)

def fieldsBefore (c : StorageConfig) : List (String × Written) :=
  [("bucket_names", .texts c.bucketNames), ("endpoint", .text c.endpoint), ("region", .text c.region),
    ("s3_force_path_style", .flag c.forcePathStyle), ("insecure", .flag c.insecure),
    ("access_key_id", .text c.accessKeyId)]

def fieldsAfter (c : StorageConfig) : List (String × Written) :=
  [("backoff_config", c.retry.written), ("hedging", c.hedging.written), ("list_max_pages", .number c.listMaxPages)]

def fieldsWritten (c : StorageConfig) : List (String × Written) :=
  c.fieldsBefore ++ ("secret_access_key", c.secretAccessKey.written) ::
    ("session_token", c.sessionToken.written) :: c.fieldsAfter

theorem written_withSecrets {c : StorageConfig} {secret token : Secret}
    (h : (c.withSecrets secret token).secretsSet = c.secretsSet) :
    (c.withSecrets secret token).written = c.written := by
  obtain ⟨hsecret, htoken⟩ := Prod.mk.inj h
  have hwritten {s t : Secret} (hset : (!s.isEmpty) = !t.isEmpty) : s.written = t.written := by
    simp only [Secret.written, Secret.rendered, Bool.not_inj hset]
  simp only [withSecrets] at hsecret htoken
  simp only [written, withSecrets, hwritten hsecret, hwritten htoken]

theorem secretsSet_of_lines {c : StorageConfig} {secret token : Secret}
    (h : Written.fieldLines 2 (c.withSecrets secret token).fieldsWritten = Written.fieldLines 2 c.fieldsWritten) :
    (c.withSecrets secret token).secretsSet = c.secretsSet := by
  simp only [fieldsWritten, Written.fieldLines_append] at h
  have hfields := Written.fieldLines_cons_inj.1 (List.append_cancel_left h)
  obtain ⟨hsecret, hrest⟩ := Secret.isEmpty_of_lines hfields
  obtain ⟨htoken, -⟩ := Secret.isEmpty_of_lines (Written.fieldLines_cons_inj.1 hrest)
  simp only [secretsSet, hsecret, htoken]

end StorageConfig

namespace Config

def cleared (c : Config) : Config := { c with storage := c.storage.withSecrets .unset .unset }

theorem exists_withSecrets {c d : Config} (h : c.cleared = d.cleared) :
    ∃ secret token, c = { d with storage := d.storage.withSecrets secret token } := by
  obtain ⟨logging, storage⟩ := c
  obtain ⟨_, other⟩ := d
  obtain ⟨rfl, hstorage⟩ := Config.mk.inj h
  refine ⟨storage.secretAccessKey, storage.sessionToken, ?_⟩
  have hfields := congrArg (StorageConfig.withSecrets storage.secretAccessKey storage.sessionToken) hstorage
  exact congrArg (Config.mk logging) hfields

theorem render_eq_iff {c d : Config} (h : c.cleared = d.cleared) :
    c.render = d.render ↔ c.storage.secretsSet = d.storage.secretsSet := by
  obtain ⟨secret, token, rfl⟩ := exists_withSecrets h
  constructor
  · intro hrender
    have hlines : Written.lines 0 [] (Config.written { d with storage := d.storage.withSecrets secret token }) =
        Written.lines 0 [] d.written := String.ofList_injective hrender
    have hstorage := Written.fieldLines_cons_inj.1 (List.append_cancel_left (Written.fieldLines_cons_inj.1 hlines))
    exact StorageConfig.secretsSet_of_lines (List.append_cancel_right (List.cons.inj hstorage).2)
  · intro hset
    simp only [render, written, StorageConfig.written_withSecrets hset]

variable {σ : Type}

/-- Two configurations that differ in nothing but what their secrets are. The same text is written of them exactly
if the same secrets are set, a developer sees the same of both, and the same is found wrong with both. -/
theorem secrets_unseen (middleware : Http.Chain σ) {c d : Config} (h : c.cleared = d.cleared) :
    (c.render = d.render ↔ c.storage.secretsSet = d.storage.secretsSet) ∧
    ((c.shown middleware).line = (d.shown middleware).line ∧
      ∀ indent, (c.shown middleware).block indent = (d.shown middleware).block indent) ∧
    (∀ s t : Secret, s.display = t.display ∧ s.shown.line = t.shown.line ∧
      ∀ indent, s.shown.block indent = t.shown.block indent) ∧
    c.storage.problems = d.storage.problems ∧ c.storage.isValid = d.storage.isValid ∧
      report c.storage.problems = report d.storage.problems ∧ c.storage.forClient = d.storage.forClient := by
  refine ⟨render_eq_iff h, ?_, fun s t => ⟨rfl, rfl, fun _ => rfl⟩, ?_⟩
  · obtain ⟨secret, token, rfl⟩ := exists_withSecrets h
    exact ⟨rfl, fun _ => rfl⟩
  · obtain ⟨secret, token, rfl⟩ := exists_withSecrets h
    exact ⟨rfl, rfl, rfl, rfl⟩

def guarded : Config := { storage := { bucketNames := ["west"], secretAccessKey := ⟨"hunter2"⟩ } }

theorem secrets_unseen_hunter :
    let other := { guarded with storage := guarded.storage.withSecrets ⟨"a: b\n# *"⟩ .unset }
    let token := { guarded with storage := guarded.storage.withSecrets .unset ⟨"hunter2"⟩ }
    guarded.render = other.render ∧ guarded.render ≠ token.render ∧
      (guarded.shown (σ := Unit) {}).line = (token.shown (σ := Unit) {}).line := by
  intro other token
  obtain ⟨hother, -⟩ := secrets_unseen (σ := Unit) {} (c := guarded) (d := other) (by decide)
  obtain ⟨htoken, ⟨hline, -⟩, -⟩ := secrets_unseen (σ := Unit) {} (c := guarded) (d := token) (by decide)
  exact ⟨hother.2 (by decide), fun h => absurd (htoken.1 h) (by decide), hline⟩

end Config
end ObjectStorage
