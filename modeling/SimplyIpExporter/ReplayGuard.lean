import SimplyIpExporter.Entities
import SimplyIpExporter.LastWriterWins

/-!
# The replay guard

Accepted signatures are remembered until an expiry counted from their
acceptance. Every operation below is one critical section of the original, so a
call of `check_and_record` is a sequence of them and other requests may come in
between. Instants are nanoseconds of a clock that runs with the wall clock.
-/
namespace SimplyIpExporter.ReplayGuard
open Entities LastWriterWins

abbrev Instant := ℤ

structure SignatureId where
  keyId : Uuid
  digest : List UInt8
  deriving DecidableEq, Repr

structure Guard where
  seen : Store SignatureId Instant
  next : Instant
  nextCapacity : Instant
  window : ℤ
  pruneInterval : ℤ
  capacityBackoff : ℤ

def maxTrackedSignatures : ℕ := 250000

/-- How long a signature is remembered, in whole seconds. -/
def windowSeconds (configured : ℤ) : ℤ := max 1 (min configured 3600)

def Guard.new (configured : ℤ) (now : Instant) : Guard :=
  let window := windowSeconds configured * nanosPerSecond
  { seen := ∅, next := now + window / 4, nextCapacity := now, window,
    pruneInterval := window / 4, capacityBackoff := window / 16 }

def Guard.overCapacity (g : Guard) : Bool := maxTrackedSignatures ≤ g.seen.keys.length

/-- Whether a sweep is due, and the schedule that follows from it. -/
def Guard.schedule (now : Instant) (overCapacity : Bool) (g : Guard) : Bool × Guard :=
  let routineDue := decide (g.next ≤ now)
  let capacityDue := overCapacity && decide (g.nextCapacity ≤ now)
  if !routineDue && !capacityDue then (false, g)
  else (true, { g with
    next := now + g.pruneInterval
    nextCapacity := if capacityDue then now + g.capacityBackoff else g.nextCapacity })

def Guard.sweep (now : Instant) (g : Guard) : Guard :=
  { g with seen := retain (fun expiresAt => decide (now < expiresAt)) g.seen }

/-- Refuses a signature remembered beyond `now`; otherwise remembers it. -/
def Guard.honour (id : SignatureId) (now : Instant) (g : Guard) : Bool × Guard :=
  match g.seen.lookup id with
  | some expiresAt =>
    if now < expiresAt then
      (false, g) else (true, { g with seen := g.seen.insert id (now + g.window) })
  | none => (true, { g with seen := g.seen.insert id (now + g.window) })

/-- What is still remembered of `id` beyond second `t`, or else the clock is past it. -/
def Guard.Remembers (g : Guard) (clock : Instant) (id : SignatureId) (t : ℤ) : Prop :=
  (∃ expiresAt, g.seen.lookup id = some expiresAt ∧ t < timestamp expiresAt) ∨ t < timestamp clock

@[simp] theorem Guard.schedule_seen (now : Instant) (crowded : Bool) (g : Guard) :
    (g.schedule now crowded).2.seen = g.seen := by
  simp only [schedule]
  split_ifs <;> rfl

@[simp] theorem Guard.schedule_window (now : Instant) (crowded : Bool) (g : Guard) :
    (g.schedule now crowded).2.window = g.window := by
  simp only [schedule]
  split_ifs <;> rfl

@[simp] theorem Guard.honour_window (id : SignatureId) (now : Instant) (g : Guard) :
    (g.honour id now).2.window = g.window := by
  unfold honour
  split <;> (try split_ifs) <;> rfl

@[simp] theorem Guard.sweep_window (now : Instant) (g : Guard) :
    (g.sweep now).window = g.window := rfl

/-- An admission stores the expiry; a refusal leaves the guard as it is. -/
theorem Guard.honour_cases (id : SignatureId) (now : Instant) (g : Guard) :
    (g.honour id now = (false, g) ∧ ∃ expiresAt, g.seen.lookup id = some expiresAt ∧
      now < expiresAt) ∨
    (g.honour id now = (true, { g with seen := g.seen.insert id (now + g.window) }) ∧
      ∀ expiresAt, g.seen.lookup id = some expiresAt → expiresAt ≤ now) := by
  unfold honour
  cases h : g.seen.lookup id with
  | none => exact .inr ⟨rfl, by simp⟩
  | some expiresAt =>
      by_cases hlt : now < expiresAt
      · exact .inl ⟨by simp [hlt], expiresAt, rfl, hlt⟩
      · refine .inr ⟨by simp [hlt], ?_⟩
        intro e he
        cases he
        exact not_lt.mp hlt

theorem Guard.honour_of_expired {g : Guard} {id : SignatureId} {now : Instant}
    (h : ∀ expiresAt, g.seen.lookup id = some expiresAt → expiresAt ≤ now) :
    g.honour id now = (true, { g with seen := g.seen.insert id (now + g.window) }) := by
  rcases g.honour_cases id now with ⟨-, expiresAt, hl, hlt⟩ | ⟨heq, -⟩
  · exact absurd hlt (not_lt.mpr (h expiresAt hl))
  · exact heq

theorem Guard.lookup_sweep {g : Guard} {id : SignatureId} {now expiresAt : Instant}
    (h : (g.sweep now).seen.lookup id = some expiresAt) : g.seen.lookup id = some expiresAt := by
  simp only [Guard.sweep, lookup_retain, Option.filter_eq_some_iff] at h
  exact h.1

section Remembering
variable {g : Guard} {clock now : Instant} {id : SignatureId} {t : ℤ}

theorem Guard.Remembers.advance {clock' : Instant} (h : g.Remembers clock id t)
    (hle : clock ≤ clock') : g.Remembers clock' id t := by
  rcases h with h | h
  · exact .inl h
  · exact .inr (lt_of_lt_of_le h (timestamp_mono hle))

theorem Guard.Remembers.schedule (h : g.Remembers clock id t) (crowded : Bool) :
    (g.schedule now crowded).2.Remembers clock id t := by
  simpa only [Remembers, schedule_seen] using h

/-- An expiry at or before the clock says that the clock is past `t` itself. -/
theorem Guard.Remembers.of_expired {expiresAt : Instant} (ht : t < timestamp expiresAt)
    (hnow : expiresAt ≤ now) (hle : now ≤ clock) : t < timestamp clock :=
  lt_of_lt_of_le ht (timestamp_mono (le_trans hnow hle))

theorem Guard.Remembers.sweep (h : g.Remembers clock id t) (hle : now ≤ clock) :
    (g.sweep now).Remembers clock id t := by
  rcases h with ⟨expiresAt, hl, ht⟩ | h
  · by_cases hlt : now < expiresAt
    · refine .inl ⟨expiresAt, ?_, ht⟩
      simp only [Guard.sweep, lookup_retain, hl]
      simp [hlt]
    · exact .inr (Remembers.of_expired ht (not_lt.mp hlt) hle)
  · exact .inr h

theorem Guard.Remembers.honour (h : g.Remembers clock id t) (id' : SignatureId)
    (hle : now ≤ clock) : (g.honour id' now).2.Remembers clock id t := by
  rcases h with ⟨expiresAt, hl, ht⟩ | h
  · rcases g.honour_cases id' now with ⟨heq, -⟩ | ⟨heq, hexp⟩
    · rw [heq]
      exact .inl ⟨expiresAt, hl, ht⟩
    · rw [heq]
      by_cases hid : id = id'
      · subst hid
        exact .inr (Remembers.of_expired ht (hexp expiresAt hl) hle)
      · refine .inl ⟨expiresAt, ?_, ht⟩
        rw [← hl]
        exact AList.lookup_insert_ne hid
  · exact .inr h

/-- What an admission remembers, when the window reaches beyond `t`. -/
theorem Guard.remembers_of_honour {seconds : ℤ} (hwindow : g.window = seconds * nanosPerSecond)
    (hhonour : (g.honour id now).1 = true) (ht : t < timestamp now + seconds) :
    (g.honour id now).2.Remembers clock id t := by
  rcases g.honour_cases id now with ⟨heq, -⟩ | ⟨heq, -⟩
  · rw [heq] at hhonour
    cases hhonour
  · rw [heq]
    refine .inl ⟨now + g.window, AList.lookup_insert _, ?_⟩
    rw [hwindow, timestamp_add_seconds]
    exact ht

/-- A remembered signature is refused while the clock has not passed `t`. -/
theorem Guard.Remembers.refuses (h : g.Remembers clock id t) (hle : now ≤ clock)
    (hclock : timestamp clock ≤ t) : (g.honour id now).1 = false := by
  rcases h with ⟨expiresAt, hl, ht⟩ | h
  · have hlt : now < expiresAt := by
      by_contra hge
      have := Remembers.of_expired ht (not_lt.mp hge) hle
      omega
    simp [Guard.honour, hl, hlt]
  · omega

end Remembering
end SimplyIpExporter.ReplayGuard
