/-! # Metrics

Counters of what the client did, and their text for a monitoring system.
-/
namespace ObjectStorage

inductive Series where
  | operations (operation outcome : String)
  | durations (operation : String)
  | retries (operation : String)
  | hedgesIssued
  | hedgesSkipped
deriving DecidableEq, Repr

structure Family where
  name : String
  kind : String
  help : String

namespace Series

def family : Series → Family
  | .operations .. => ⟨"bucketline_operations_total", "counter", "Total client operations by outcome"⟩
  | .durations _ =>
    ⟨"bucketline_operation_duration_seconds", "summary",
      "Client operation duration in seconds, including retries and hedges"⟩
  | .retries _ => ⟨"bucketline_retries_total", "counter", "Total retries after transient failures"⟩
  | .hedgesIssued => ⟨"bucketline_hedges_issued_total", "counter", "Total hedged GET attempts issued"⟩
  | .hedgesSkipped =>
    ⟨"bucketline_hedges_skipped_total", "counter", "Total hedged GET attempts skipped by the rate limiter"⟩

def labels : Series → List (String × String)
  | .operations operation outcome => [("operation", operation), ("outcome", outcome)]
  | .durations operation | .retries operation => [("operation", operation)]
  | .hedgesIssued | .hedgesSkipped => []

end Series

/-- How often each series was counted. A series that never was is not there. -/
structure Metrics where
  counts : List (Series × Nat) := []
deriving Repr

namespace Metrics

def count (m : Metrics) (s : Series) : Nat := (m.counts.lookup s).getD 0

def bump (s : Series) : List (Series × Nat) → List (Series × Nat)
  | [] => [(s, 1)]
  | (t, n) :: rest => if s = t then (t, n + 1) :: rest else (t, n) :: bump s rest

def record (s : Series) (m : Metrics) : Metrics := ⟨bump s m.counts⟩

def recordOperation (operation outcome : String) (m : Metrics) : Metrics :=
  (m.record (.operations operation outcome)).record (.durations operation)

def recordHedge (granted : Bool) (m : Metrics) : Metrics :=
  m.record (if granted then .hedgesIssued else .hedgesSkipped)

theorem lookup_bump (s t : Series) (counts : List (Series × Nat)) :
    ((bump s counts).lookup t).getD 0 = (counts.lookup t).getD 0 + if t = s then 1 else 0 := by
  induction counts with
  | nil =>
    by_cases h : t = s
    · simp [bump, h]
    · simp [bump, List.lookup_cons, h, beq_false_of_ne h]
  | cons entry rest ih =>
    obtain ⟨u, n⟩ := entry
    by_cases hs : s = u
    · subst hs
      by_cases ht : t = s
      · simp [bump, ht]
      · simp [bump, List.lookup_cons, ht, beq_false_of_ne ht]
    · by_cases ht : t = u
      · subst ht
        simp [bump, hs, Ne.symm hs]
      · simpa [bump, List.lookup_cons, hs, beq_false_of_ne ht] using ih

theorem count_record (s t : Series) (m : Metrics) :
    (m.record s).count t = m.count t + if t = s then 1 else 0 :=
  lookup_bump s t m.counts

def labelText (value : String) : String :=
  String.ofList (value.toList.flatMap fun c =>
    if c = '\\' then ['\\', '\\'] else if c = '"' then ['\\', '"'] else if c = '\n' then ['\\', 'n'] else [c])

/-- The line of a series. Of the durations only their number is told. -/
def line (s : Series) (n : Nat) : String :=
  let name := s.family.name ++ (match s with | .durations _ => "_count" | _ => "")
  let labels := s.labels.map fun (label, value) => label ++ "=\"" ++ labelText value ++ "\""
  name ++ (if labels.isEmpty then "" else "\x7b" ++ ",".intercalate labels ++ "\x7d") ++ " " ++ toString n

def lines (m : Metrics) : List String :=
  (m.counts.map fun (s, n) => line s n).mergeSort (· ≤ ·)

/-- All lines: with each family, what kind it is and, where families are described, its help. -/
def fullLines (described : Bool) (m : Metrics) : List String :=
  let families := (m.counts.map fun (s, _) => s.family).foldl
    (fun seen f => if seen.any (·.name = f.name) then seen else seen ++ [f]) []
  let heads := families.flatMap fun f =>
    (if described then ["# HELP " ++ f.name ++ " " ++ f.help] else []) ++ ["# TYPE " ++ f.name ++ " " ++ f.kind]
  (heads ++ m.counts.map fun (s, n) => line s n).mergeSort (· ≤ ·)

end Metrics
end ObjectStorage
