import SimplyIpExporter.SignatureSingleUse

/-!
# Pruning cannot be observed

The guard forgets expired signatures on two schedules, one routine and one for a
crowded table. The reference below never forgets anything: it keeps every
accepted call and answers from that history alone. Calls made one after another
at times that do not decrease get the same answers from both.

One relation carries the argument. What the guard remembers was accepted, and
every acceptance whose window is still open is remembered. A sweep keeps the
relation because it drops closed windows only, whenever it happens to run.
-/
namespace SimplyIpExporter.GuardPruning
open Entities LastWriterWins ReplayGuard RequestAuthentication SignatureSingleUse Programs

/-- A call of `check_and_record` at an instant. -/
structure Call where
  id : SignatureId
  instant : Instant
  deriving DecidableEq, Repr

/-- No accepted call with the same signature has its window open at this call. -/
def unused (window : ℤ) (accepted : List Call) (call : Call) : Bool :=
  accepted.all fun earlier => earlier.id ≠ call.id || earlier.instant + window ≤ call.instant

def remember (window : ℤ) (accepted : List Call) (call : Call) : List Call :=
  if unused window accepted call then call :: accepted else accepted

/-- The answers of a guard that keeps every acceptance, and what it has kept. -/
def neverPruning (window : ℤ) (accepted : List Call) : List Call → List Bool × List Call
  | [] => ([], accepted)
  | call :: calls =>
      let rest := neverPruning window (remember window accepted call) calls
      (unused window accepted call :: rest.1, rest.2)

theorem unused_iff {window : ℤ} {accepted : List Call} {call : Call} :
    unused window accepted call = true ↔
      ∀ earlier ∈ accepted, earlier.id = call.id → earlier.instant + window ≤ call.instant := by
  simp only [unused, List.all_eq_true, Bool.or_eq_true, decide_eq_true_eq, ne_eq]
  exact forall₂_congr fun _ _ => imp_iff_not_or.symm

theorem neverPruning_append (window : ℤ) (accepted before after : List Call) :
    neverPruning window accepted (before ++ after) =
      let first := neverPruning window accepted before
      let rest := neverPruning window first.2 after
      (first.1 ++ rest.1, rest.2) := by
  induction before generalizing accepted with
  | nil => rfl
  | cons call before ih => simp only [List.cons_append, neverPruning, ih]

theorem length_neverPruning (window : ℤ) (accepted calls : List Call) :
    (neverPruning window accepted calls).1.length = calls.length := by
  induction calls generalizing accepted with
  | nil => rfl
  | cons call calls ih => simp only [neverPruning, List.length_cons, ih]

/-- The answer to a call, from the calls accepted before it. -/
theorem neverPruning_getElem (window : ℤ) (before after : List Call) (call : Call) :
    (neverPruning window [] (before ++ call :: after)).1[before.length]? =
      some (unused window (neverPruning window [] before).2 call) := by
  rw [neverPruning_append, ← length_neverPruning window [] before]
  simp [neverPruning]

/-- Complete executions of `check_and_record`, each at the instant of its call. -/
inductive InTurn : AuthState → List Call → List Bool → AuthState → Prop where
  | done (s : AuthState) : InTurn s [] [] s
  | next {s s₁ s₂ : AuthState} {call : Call} {calls : List Call} {answer : Bool}
      {answers : List Bool} (es : List Choice)
      (first : Programs.run exec (checkAndRecord call.id) es { s with clock := call.instant } =
        some (answer, s₁))
      (rest : InTurn s₁ calls answers s₂) : InTurn s (call :: calls) (answer :: answers) s₂

/-- What one undisturbed call answers and leaves. -/
def recorded (id : SignatureId) (s : AuthState) : Bool × AuthState :=
  (((swept s).honour id s.clock).1, { s with guard := ((swept s).honour id s.clock).2 })

theorem checkAndRecord_eq {id : SignatureId} {s : AuthState} {es : List Choice}
    {x : Bool × AuthState} (h : Programs.run exec (checkAndRecord id) es s = some x) :
    x = recorded id s := by
  -- none of these calls leaves the environment a choice
  obtain ⟨_, _, rfl, _, _, hinstant, h⟩ := exists_of_run_perform_bind h
  cases hinstant
  unfold pruneIfDue at h
  obtain ⟨_, _, rfl, _, _, hover, h⟩ := exists_of_run_perform_bind h
  cases hover
  obtain ⟨_, _, rfl, _, _, hschedule, h⟩ := exists_of_run_perform_bind h
  cases hschedule
  simp only [recorded, swept]
  cases hdue : (s.guard.schedule s.clock s.guard.overCapacity).1 with
  | false =>
      rw [hdue] at h
      obtain ⟨_, es', rfl, _, _, hhonour, h⟩ := exists_of_run_perform_bind h
      cases hhonour
      cases es' with
      | nil => exact (Option.some.inj h).symm
      | cons => cases h
  | true =>
      rw [hdue] at h
      obtain ⟨_, _, rfl, _, _, hsweep, h⟩ := exists_of_run_perform_bind h
      cases hsweep
      obtain ⟨_, es', rfl, _, _, hhonour, h⟩ := exists_of_run_perform_bind h
      cases hhonour
      cases es' with
      | nil => exact (Option.some.inj h).symm
      | cons => cases h

theorem inTurn_returns (s : AuthState) (calls : List Call) :
    ∃ answers s', InTurn s calls answers s' := by
  induction calls generalizing s with
  | nil => exact ⟨[], s, .done s⟩
  | cons call calls ih =>
      obtain ⟨es, hfirst⟩ := checkAndRecord_honours call.id { s with clock := call.instant }
      obtain ⟨answers, s', hrest⟩ := ih (recorded call.id { s with clock := call.instant }).2
      exact ⟨_, s', .next es hfirst hrest⟩

/-- The guard against the acceptances so far, at an instant. -/
structure GuardMatches (window : ℤ) (g : Guard) (accepted : List Call) (now : Instant) : Prop where
  window_eq : g.window = window
  justified : ∀ id expiresAt, g.seen.lookup id = some expiresAt →
    ∃ call ∈ accepted, call.id = id ∧ call.instant + window = expiresAt
  remembered : ∀ call ∈ accepted, now < call.instant + window →
    g.seen.lookup call.id = some (call.instant + window)

section Keeping
variable {window : ℤ} {g : Guard} {accepted : List Call} {now : Instant}

theorem guardMatches_new (configured : ℤ) (start now : Instant) :
    GuardMatches (windowSeconds configured * nanosPerSecond) (Guard.new configured start) []
      now where
  window_eq := rfl
  justified := by
    intro id expiresAt h
    simp [Guard.new] at h
  remembered := by simp

theorem GuardMatches.advance (h : GuardMatches window g accepted now) {later : Instant}
    (hle : now ≤ later) :
    GuardMatches window g accepted later where
  window_eq := h.window_eq
  justified := h.justified
  remembered := by
    intro call hcall hopen
    exact h.remembered call hcall (lt_of_le_of_lt hle hopen)

theorem GuardMatches.schedule (h : GuardMatches window g accepted now) (crowded : Bool) :
    GuardMatches window (g.schedule now crowded).2 accepted now where
  window_eq := by rw [Guard.schedule_window, h.window_eq]
  justified := by
    rw [Guard.schedule_seen]
    exact h.justified
  remembered := by
    rw [Guard.schedule_seen]
    exact h.remembered

/-- A sweep drops closed windows only. -/
theorem GuardMatches.sweep (h : GuardMatches window g accepted now) :
    GuardMatches window (g.sweep now) accepted now where
  window_eq := h.window_eq
  justified := by
    intro id expiresAt hlookup
    exact h.justified id expiresAt (Guard.lookup_sweep hlookup)
  remembered := by
    intro call hcall hopen
    rw [Guard.sweep, lookup_retain, h.remembered call hcall hopen]
    simp [hopen]

theorem GuardMatches.swept {s : AuthState} (h : GuardMatches window s.guard accepted s.clock) :
    GuardMatches window (swept s) accepted s.clock := by
  unfold SignatureSingleUse.swept
  dsimp only
  split_ifs with hdue
  · exact (h.schedule _).sweep
  · exact h.schedule _

/-- The guard accepts what the history leaves unused. -/
theorem GuardMatches.honour_fst (h : GuardMatches window g accepted now) (id : SignatureId) :
    (g.honour id now).1 = unused window accepted ⟨id, now⟩ := by
  rw [Bool.eq_iff_iff, unused_iff]
  rcases g.honour_cases id now with ⟨heq, expiresAt, hlookup, hopen⟩ | ⟨heq, hclosed⟩
  · rw [heq]
    obtain ⟨call, hcall, hid, hexpires⟩ := h.justified id expiresAt hlookup
    refine ⟨nofun, ?_⟩
    intro hunused
    have hclosed := hunused call hcall hid
    rw [hexpires] at hclosed
    exact absurd hopen (not_lt.mpr hclosed)
  · rw [heq]
    refine ⟨?_, fun _ => rfl⟩
    intro _ call hcall hid
    by_contra hopen
    have hlookup := h.remembered call hcall (not_le.mp hopen)
    rw [hid] at hlookup
    exact hopen (hclosed _ hlookup)

theorem GuardMatches.honour (h : GuardMatches window g accepted now) (id : SignatureId) :
    GuardMatches window (g.honour id now).2 (remember window accepted ⟨id, now⟩) now := by
  have hanswer := h.honour_fst id
  rcases g.honour_cases id now with ⟨heq, -⟩ | ⟨heq, -⟩
  · rw [heq] at hanswer ⊢
    rw [remember, ← hanswer]
    exact h
  · rw [heq] at hanswer ⊢
    rw [remember, ← hanswer, if_pos rfl]
    rw [eq_comm, unused_iff] at hanswer
    refine ⟨h.window_eq, ?_, ?_⟩
    · intro id' expiresAt hlookup
      by_cases hid : id' = id
      · subst hid
        rw [AList.lookup_insert, Option.some.injEq, h.window_eq] at hlookup
        exact ⟨⟨id', now⟩, List.mem_cons_self, rfl, hlookup⟩
      · rw [AList.lookup_insert_ne hid] at hlookup
        obtain ⟨call, hcall, hrest⟩ := h.justified id' expiresAt hlookup
        exact ⟨call, List.mem_cons_of_mem _ hcall, hrest⟩
    · intro call hcall hopen
      rcases List.mem_cons.mp hcall with rfl | hearlier
      · rw [AList.lookup_insert, h.window_eq]
      · have hid : call.id ≠ id := fun hid => not_le.mpr hopen (hanswer call hearlier hid)
        rw [AList.lookup_insert_ne hid]
        exact h.remembered call hearlier hopen

end Keeping

/-- One call: the same answer, and the relation holds again. -/
theorem GuardMatches.recorded {window : ℤ} {s : AuthState} {accepted : List Call} {call : Call}
    (h : GuardMatches window s.guard accepted call.instant) :
    (recorded call.id { s with clock := call.instant }).1 = unused window accepted call ∧
      GuardMatches window (recorded call.id { s with clock := call.instant }).2.guard
        (remember window accepted call) call.instant := by
  have hswept := GuardMatches.swept (s := { s with clock := call.instant }) h
  exact ⟨hswept.honour_fst call.id, hswept.honour call.id⟩

theorem GuardMatches.inTurn {window : ℤ} {s s' : AuthState} {calls : List Call}
    {answers : List Bool} (hrun : InTurn s calls answers s') {accepted : List Call} {now : Instant}
    (h : GuardMatches window s.guard accepted now)
    (hsorted : (now :: calls.map Call.instant).Pairwise (· ≤ ·)) :
    answers = (neverPruning window accepted calls).1 ∧
      ∃ last ∈ now :: calls.map Call.instant,
        GuardMatches window s'.guard (neverPruning window accepted calls).2 last := by
  induction hrun generalizing accepted now with
  | done s => exact ⟨rfl, now, List.mem_cons_self, h⟩
  | @next s s₁ s₂ call calls answer answers es hfirst hrest ih =>
      rw [List.map_cons, List.pairwise_cons] at hsorted
      have hnow := h.advance (hsorted.1 call.instant List.mem_cons_self)
      obtain ⟨hanswer, hmirrors⟩ := hnow.recorded
      have hcall := checkAndRecord_eq hfirst
      rw [← hcall] at hanswer hmirrors
      obtain ⟨hanswers, last, hlast, hend⟩ := ih hmirrors hsorted.2
      refine ⟨?_, last, List.mem_cons_of_mem _ hlast, hend⟩
      rw [hanswers, neverPruning]
      exact congrArg (· :: _) hanswer

/-- A fresh guard answers as the reference does, whatever sweeps come in between,
and every acceptance with an open window is still remembered. -/
theorem pruning_invisible (configured : ℤ) (start : Instant) (s : AuthState) (calls : List Call)
    (hsorted : (calls.map Call.instant).Pairwise (· ≤ ·)) :
    let fresh := { s with guard := Guard.new configured start }
    let window := windowSeconds configured * nanosPerSecond
    (∃ answers s', InTurn fresh calls answers s') ∧
    ∀ answers s', InTurn fresh calls answers s' →
      answers = (neverPruning window [] calls).1 ∧
      (∀ before call after, calls = before ++ call :: after →
        (answers[before.length]? = some true ↔
          ∀ earlier ∈ (neverPruning window [] before).2, earlier.id = call.id →
            earlier.instant + window ≤ call.instant)) ∧
      ∀ accepted ∈ (neverPruning window [] calls).2,
        (∀ call ∈ calls, call.instant < accepted.instant + window) →
          s'.guard.seen.lookup accepted.id = some (accepted.instant + window) := by
  intro fresh window
  refine ⟨inTurn_returns fresh calls, ?_⟩
  intro answers s' hrun
  cases calls with
  | nil =>
      cases hrun
      exact ⟨rfl, by simp, by simp [neverPruning]⟩
  | cons call calls =>
      have hnew := guardMatches_new configured start call.instant
      have hstart : (call.instant :: (call :: calls).map Call.instant).Pairwise (· ≤ ·) := by
        refine List.pairwise_cons.mpr ⟨?_, hsorted⟩
        intro t ht
        rcases List.mem_cons.mp ht with rfl | hlater
        · exact le_refl _
        · exact (List.pairwise_cons.mp hsorted).1 t hlater
      obtain ⟨hanswers, last, hlast, hend⟩ := GuardMatches.inTurn hrun hnew hstart
      refine ⟨hanswers, ?_, ?_⟩
      · intro before call' after hsplit
        rw [hanswers, hsplit, neverPruning_getElem, Option.some.injEq, unused_iff]
      · intro accepted haccepted hopen
        apply hend.remembered accepted haccepted
        have hmem : last ∈ (call :: calls).map Call.instant := by
          rcases List.mem_cons.mp hlast with rfl | hmem
          · exact List.mem_cons_self
          · exact hmem
        obtain ⟨latest, hlatest, rfl⟩ := List.mem_map.mp hmem
        exact hopen latest hlatest

/-- A window of zero seconds is raised to one: a repetition within that second is
refused and one after it passes, with sweeps due at both. -/
theorem pruning_invisible_oneSecond :
    ∃ s', InTurn ⟨0, [], none, Guard.new 0 0⟩
      [⟨⟨1, [7]⟩, 0⟩, ⟨⟨1, [7]⟩, 999999999⟩, ⟨⟨1, [7]⟩, 1000000000⟩] [true, false, true] s' := by
  have hinvisible := pruning_invisible 0 0 ⟨0, [], none, Guard.new 0 0⟩
    [⟨⟨1, [7]⟩, 0⟩, ⟨⟨1, [7]⟩, 999999999⟩, ⟨⟨1, [7]⟩, 1000000000⟩] (by decide)
  obtain ⟨answers, s', hrun⟩ := hinvisible.1
  have hanswers : answers = [true, false, true] := (hinvisible.2 answers s' hrun).1
  rw [hanswers] at hrun
  exact ⟨s', hrun⟩

end SimplyIpExporter.GuardPruning
