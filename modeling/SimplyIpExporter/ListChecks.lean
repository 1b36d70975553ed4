import Mathlib.Data.List.Basic

/-!
# One check on all elements of a list

A check that may fail is made on each element in turn. Stopping at the first failure and
going on to collect all of them keep the same elements when there is none, and otherwise
the former reports the head of what the latter collects.
-/
namespace SimplyIpExporter.ListChecks
variable {α β ε : Type} (check : α → Except ε β)

def failure : Except ε β → Option ε
  | .error e => some e
  | .ok _ => none

def failures (xs : List α) : List ε := xs.filterMap fun x => failure (check x)

def passes (xs : List α) : List β := xs.filterMap fun x => (check x).toOption

variable {check}

theorem failures_cons_error {x : α} {xs : List α} {e : ε} (h : check x = .error e) :
    failures check (x :: xs) = e :: failures check xs :=
  List.filterMap_cons_some (by rw [h]; rfl)

theorem failures_cons_ok {x : α} {xs : List α} {y : β} (h : check x = .ok y) :
    failures check (x :: xs) = failures check xs :=
  List.filterMap_cons_none (by rw [h]; rfl)

theorem passes_cons_ok {x : α} {xs : List α} {y : β} (h : check x = .ok y) :
    passes check (x :: xs) = y :: passes check xs :=
  List.filterMap_cons_some (by rw [h]; rfl)

theorem mapM_of_no_failures {xs : List α} (h : failures check xs = []) :
    xs.mapM check = .ok (passes check xs) := by
  induction xs with
  | nil => rfl
  | cons x xs ih =>
      rw [List.mapM_cons]
      cases hx : check x with
      | error e =>
          rw [failures_cons_error hx] at h
          cases h
      | ok y =>
          rw [failures_cons_ok hx] at h
          rw [ih h, passes_cons_ok hx]
          rfl

/-- Stopping early reports the head of what going on would have collected. -/
theorem mapM_of_failures {xs : List α} {first : ε} {rest : List ε}
    (h : failures check xs = first :: rest) : xs.mapM check = .error first := by
  induction xs with
  | nil => cases h
  | cons x xs ih =>
      rw [List.mapM_cons]
      cases hx : check x with
      | error e =>
          rw [failures_cons_error hx] at h
          cases h
          rfl
      | ok y =>
          rw [failures_cons_ok hx] at h
          rw [ih h]
          rfl

theorem mapM_eq_ok_iff {xs : List α} {ys : List β} :
    xs.mapM check = .ok ys ↔ failures check xs = [] ∧ passes check xs = ys := by
  cases hfailures : failures check xs with
  | nil =>
      rw [mapM_of_no_failures hfailures, Except.ok.injEq]
      exact (and_iff_right rfl).symm
  | cons first rest =>
      rw [mapM_of_failures hfailures]
      exact iff_of_false nofun fun h => absurd h.1 (List.cons_ne_nil _ _)

theorem length_passes {xs : List α} (h : failures check xs = []) :
    (passes check xs).length = xs.length := by
  induction xs with
  | nil => rfl
  | cons x xs ih =>
      cases hx : check x with
      | error e =>
          rw [failures_cons_error hx] at h
          cases h
      | ok y =>
          rw [failures_cons_ok hx] at h
          rw [passes_cons_ok hx, List.length_cons, ih h, List.length_cons]

end SimplyIpExporter.ListChecks
