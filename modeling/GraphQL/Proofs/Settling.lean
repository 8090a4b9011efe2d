import GraphQL.Resolve
import Mathlib.Data.List.Induction

/-!
What the tasks of an object come to. The values are gathered under their keys and the errors in
the order of the keys, and whether all tasks succeeded is told by the errors alone. So nothing is
lost as long as a task that fails has an error to show for it; a task that fails with an
aggregate of no errors leaves its key out of what is taken for a success.
-/

namespace GraphQL

theorem Entries.put_fresh [DecidableEq κ] {key : κ} {value : α} {entries : List (κ × α)}
    (fresh : key ∉ entries.map Prod.fst) : put key value entries = entries ++ [(key, value)] := by
  induction entries with
  | nil => rfl
  | cons entry rest ih =>
      rw [List.map_cons, List.mem_cons, not_or] at fresh
      rw [put, if_neg (Ne.symm fresh.1), ih fresh.2, List.cons_append]

namespace Resolve

section
variable {ofInterruption : ι → ε} {outcomes : List (κ × Outcome α ε ι)}

def given (values : List (κ × α)) : List (κ × Outcome α ε ι) :=
  values.map fun (key, value) => (key, .value value)

def valuesOf (outcomes : List (κ × Outcome α ε ι)) : List (κ × α) :=
  outcomes.filterMap fun (key, outcome) => outcome.value?.map (key, ·)

def errorsOf (ofInterruption : ι → ε) (outcomes : List (κ × Outcome α ε ι)) : List ε :=
  outcomes.flatMap fun (_, outcome) => outcome.errors ofInterruption

/-- A task that failed without any error. -/
def FailsBlank (outcome : Outcome α ε ι) : Prop := outcome = .failure (.aggregate [])

/-- Where a task failed, some task has an error to show for it. -/
def FailuresShow (outcomes : List (κ × Outcome α ε ι)) : Prop :=
  (∃ task ∈ outcomes, task.2.value? = none) →
    ∃ task ∈ outcomes, task.2.value? = none ∧ ¬FailsBlank task.2

theorem Outcome.errors_eq_nil_iff {outcome : Outcome α ε ι} :
    outcome.errors ofInterruption = [] ↔ (outcome.value? = none → FailsBlank outcome) := by
  cases outcome with
  | value found => simp [errors, value?]
  | interrupted cause => simp [errors, value?, FailsBlank]
  | failure found => cases found <;> simp [errors, value?, Failure.errors, FailsBlank]

@[simp]
theorem valuesOf_snoc (task : κ × Outcome α ε ι) :
    valuesOf (outcomes ++ [task]) =
      valuesOf outcomes ++ (task.2.value?.map (task.1, ·)).toList := by
  obtain ⟨key, outcome⟩ := task
  cases outcome <;> simp [valuesOf, Outcome.value?]

@[simp]
theorem errorsOf_snoc (task : κ × Outcome α ε ι) :
    errorsOf ofInterruption (outcomes ++ [task]) =
      errorsOf ofInterruption outcomes ++ task.2.errors ofInterruption := by
  simp [errorsOf]

theorem errorsOf_eq_nil_iff :
    errorsOf ofInterruption outcomes = [] ↔
      ∀ task ∈ outcomes, task.2.value? = none → FailsBlank task.2 := by
  simp only [errorsOf, List.flatMap_eq_nil_iff, Outcome.errors_eq_nil_iff]

@[simp]
theorem valuesOf_given (values : List (κ × α)) :
    valuesOf (given values : List (κ × Outcome α ε ι)) = values := by
  induction values with
  | nil => rfl
  | cons entry rest ih => exact congrArg (entry :: ·) ih

@[simp]
theorem errorsOf_given (values : List (κ × α)) :
    errorsOf ofInterruption (given values : List (κ × Outcome α ε ι)) = [] := by
  induction values with
  | nil => rfl
  | cons entry rest ih => exact ih

theorem given_valuesOf (valued : ∀ task ∈ outcomes, task.2.value? ≠ none) :
    given (valuesOf outcomes) = outcomes := by
  induction outcomes with
  | nil => rfl
  | cons task rest ih =>
      obtain ⟨key, outcome⟩ := task
      have others := ih fun task member => valued task (List.mem_cons_of_mem _ member)
      cases outcome with
      | value found => exact congrArg ((key, .value found) :: ·) others
      | failure found => exact absurd rfl (valued _ List.mem_cons_self)
      | interrupted cause => exact absurd rfl (valued _ List.mem_cons_self)

theorem keys_valuesOf {key : κ} (member : key ∈ (valuesOf outcomes).map Prod.fst) :
    key ∈ outcomes.map Prod.fst := by
  obtain ⟨entry, inside, rfl⟩ := List.mem_map.mp member
  obtain ⟨task, isTask, found⟩ := List.mem_filterMap.mp inside
  obtain ⟨value, _, rfl⟩ := Option.map_eq_some_iff.mp found
  exact List.mem_map_of_mem isTask

end

/-- All values and errors of some tasks, and no others. -/
structure Settled.Gathers (settled : Settled κ α ε) (ofInterruption : ι → ε)
    (outcomes : List (κ × Outcome α ε ι)) : Prop where
  values : settled.values = valuesOf outcomes
  errors : settled.errors = errorsOf ofInterruption outcomes

/-- What a result has to be for its tasks: the value of each under its key if all have one, and
otherwise the errors of all, of which there is one at least. -/
structure Settles (ofInterruption : ι → ε) (outcomes : List (κ × Outcome α ε ι))
    (result : Except (Failure ε) (List (κ × α))) : Prop where
  ok_iff : ∀ values, result = .ok values ↔ outcomes = given values
  failed : (∃ task ∈ outcomes, task.2.value? = none) → ∃ errors,
    result = .error (.aggregate errors) ∧ errors ≠ [] ∧ errors = errorsOf ofInterruption outcomes

theorem Settles.failuresShow {ofInterruption : ι → ε} {outcomes : List (κ × Outcome α ε ι)}
    {result : Except (Failure ε) (List (κ × α))}
    (settles : Settles ofInterruption outcomes result) : FailuresShow outcomes := by
  intro failed
  obtain ⟨errors, _, some', rfl⟩ := settles.failed failed
  by_contra none
  refine some' (errorsOf_eq_nil_iff.mpr fun task member lacks => ?_)
  by_contra blames
  exact none ⟨task, member, lacks, blames⟩

section
variable [DecidableEq κ] {ofInterruption : ι → ε} {outcomes : List (κ × Outcome α ε ι)}

theorem Settled.Gathers.add {settled : Settled κ α ε} {task : κ × Outcome α ε ι}
    (gathers : settled.Gathers ofInterruption outcomes)
    (fresh : task.1 ∉ outcomes.map Prod.fst) :
    (settled.add ofInterruption task).Gathers ofInterruption (outcomes ++ [task]) := by
  obtain ⟨key, outcome⟩ := task
  obtain ⟨found, failed⟩ := gathers
  constructor
  · rw [valuesOf_snoc, ← found]
    cases outcome with
    | value value =>
        have unbound : key ∉ settled.values.map Prod.fst := by
          rw [found]
          exact fun bound => fresh (keys_valuesOf bound)
        exact Entries.put_fresh unbound
    | failure failure => exact (List.append_nil _).symm
    | interrupted cause => exact (List.append_nil _).symm
  · rw [errorsOf_snoc, ← failed]
    cases outcome with
    | value value => exact (List.append_nil _).symm
    | failure failure => rfl
    | interrupted cause => rfl

theorem settle_gathers (distinct : (outcomes.map Prod.fst).Nodup) :
    (settle ofInterruption outcomes).Gathers ofInterruption outcomes := by
  induction outcomes using List.reverseRecOn with
  | nil => exact ⟨rfl, rfl⟩
  | append_singleton front task ih =>
      rw [List.map_append, List.nodup_append] at distinct
      obtain ⟨frontDistinct, _, apart⟩ := distinct
      have fresh : task.1 ∉ front.map Prod.fst := fun bound =>
        apart _ bound _ (List.mem_singleton_self _) rfl
      rw [settle, List.foldl_append, List.foldl_cons, List.foldl_nil]
      exact (ih frontDistinct).add fresh

section
variable (distinct : (outcomes.map Prod.fst).Nodup)
include distinct

theorem collect_ok_iff {values : List (κ × α)} :
    collect ofInterruption outcomes = .ok values ↔
      errorsOf ofInterruption outcomes = [] ∧ valuesOf outcomes = values := by
  obtain ⟨found, failed⟩ := @settle_gathers _ _ _ _ _ ofInterruption _ distinct
  rw [collect, found, failed]
  cases errorsOf ofInterruption outcomes <;> simp

theorem collect_of_error (failed : errorsOf ofInterruption outcomes ≠ []) :
    collect ofInterruption outcomes = .error (.aggregate (errorsOf ofInterruption outcomes)) := by
  rw [collect, (settle_gathers distinct).errors]
  simp [failed]

theorem settles_of_failuresShow (shown : FailuresShow outcomes) :
    Settles ofInterruption outcomes (collect ofInterruption outcomes) := by
  constructor
  · intro values
    rw [collect_ok_iff distinct]
    constructor
    · rintro ⟨blank, rfl⟩
      refine (given_valuesOf fun task member lacks => ?_).symm
      obtain ⟨other, isTask, none, blames⟩ := shown ⟨task, member, lacks⟩
      exact blames (errorsOf_eq_nil_iff.mp blank other isTask none)
    · rintro rfl
      exact ⟨errorsOf_given values, valuesOf_given values⟩
  · intro failed
    obtain ⟨task, member, lacks, blames⟩ := shown failed
    have some' : errorsOf ofInterruption outcomes ≠ [] := fun blank =>
      blames (errorsOf_eq_nil_iff.mp blank task member lacks)
    exact ⟨_, collect_of_error distinct some', some', rfl⟩

/-- An object is settled as its tasks demand exactly if not all of those that failed did so
without an error. If they did, their keys are missing from what is taken for a success. -/
theorem collect_settles_iff :
    (Settles ofInterruption outcomes (collect ofInterruption outcomes) ↔
        FailuresShow outcomes) ∧
      ((∀ task ∈ outcomes, task.2.value? = none → FailsBlank task.2) →
        collect ofInterruption outcomes = .ok (valuesOf outcomes)) := by
  constructor
  · exact ⟨Settles.failuresShow, settles_of_failuresShow distinct⟩
  · intro blank
    exact (collect_ok_iff distinct).mpr ⟨errorsOf_eq_nil_iff.mpr blank, rfl⟩

end

end

/-- A value, an aggregate of no errors and a task that panicked: there is an error to show. -/
theorem collect_settles_panicked :
    let outcomes : List (String × Outcome Nat String) :=
      [("a", .value 1), ("b", .failure (.aggregate [])), ("c", .interrupted .panicked)]
    (outcomes.map Prod.fst).Nodup ∧ FailuresShow outcomes ∧
      Settles (fun _ => "panicked") outcomes (collect (fun _ => "panicked") outcomes) := by
  intro outcomes
  have distinct : (outcomes.map Prod.fst).Nodup := by decide
  have shown : FailuresShow outcomes := fun _ =>
    ⟨("c", .interrupted .panicked), by simp [outcomes], rfl, by simp [FailsBlank]⟩
  exact ⟨distinct, shown, (collect_settles_iff distinct).1.mpr shown⟩

/-- The only task fails, and yet the result is an object, without its key. -/
theorem collect_drops_key :
    let outcomes : List (String × Outcome Nat String) := [("a", .failure (.aggregate []))]
    collect (fun _ => "panicked") outcomes = .ok [] ∧
      ¬Settles (fun _ => "panicked") outcomes (collect (fun _ => "panicked") outcomes) := by
  intro outcomes
  refine ⟨rfl, fun settles => ?_⟩
  have same : outcomes = given [] := (settles.ok_iff []).mp rfl
  exact List.cons_ne_nil _ _ same

end Resolve

end GraphQL
