import Mathlib.Tactic.Common

/-!
# The latest value of a log

A log is read from its end: `latest f log` is what the last entry says for which `f` has a value. What
is appended to a log hides what was there before, as far as it says anything.
-/

namespace Latest

variable {α β : Type} {f : α → Option β} {log : List α} {v : β}

/-- The last value in a log. -/
def latest (f : α → Option β) (log : List α) : Option β := (log.filterMap f).getLast?

theorem latest_append (f : α → Option β) (log log' : List α) :
    latest f (log ++ log') = (latest f log').or (latest f log) := by
  unfold latest
  rw [List.filterMap_append, List.getLast?_append]

theorem latest_cons (f : α → Option β) (x : α) (log : List α) :
    latest f (x :: log) = (latest f log).or (f x) := by
  rw [← List.singleton_append, latest_append]
  congr 1
  unfold latest
  cases hx : f x with
  | none => rw [List.filterMap_cons_none hx, List.filterMap_nil, List.getLast?_nil]
  | some b => rw [List.filterMap_cons_some hx, List.filterMap_nil, List.getLast?_singleton]

/-- Some entry says it. -/
theorem mem_of_latest (h : latest f log = some v) : ∃ x ∈ log, f x = some v :=
  List.mem_filterMap.mp (List.mem_of_getLast? h)

/-- A log that says one thing only. -/
theorem latest_eq_some (h : ∀ x ∈ log, ∀ w, f x = some w → w = v) {x : α} (hx : x ∈ log)
    (hsome : (f x).isSome) : latest f log = some v := by
  obtain ⟨w, hw⟩ := Option.isSome_iff_exists.mp hsome
  have hmem : w ∈ log.filterMap f := List.mem_filterMap.mpr ⟨x, hx, hw⟩
  unfold latest
  cases hlast : (log.filterMap f).getLast? with
  | none =>
    rw [List.getLast?_eq_none_iff.mp hlast] at hmem
    cases hmem
  | some last =>
    obtain ⟨y, hy, hlast'⟩ := mem_of_latest hlast
    rw [h y hy last hlast']

end Latest
