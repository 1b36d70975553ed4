import SimplyIpExporter.Programs

/-!
# Interleaved programs over one state

A pool holds one program for each name and a shared state. At each event either
one named program makes its next call, with a choice of the environment, or the
world changes the state by itself. A run is a list of events; a program that has
ended takes no further step.

The last theorem is the invariant rule. Every program carries a watching state of
its policy; what has to be shown is that one permitted call moves that state and
keeps the invariant, and that the world keeps it.
-/
namespace SimplyIpExporter.Interleaving
open Programs

inductive Event (I E W : Type) where
  | act (i : I) (choice : E)
  | world (w : W)

structure System {C : Type} (R : C → Type) (E W S : Type) where
  exec : (c : C) → E → S → Option (R c × S)
  env : W → S → Option S

structure Pool {C : Type} (R : C → Type) (I A S : Type) where
  state : S
  threads : I → Program R A

section Runs
variable {C : Type} {R : C → Type} {I A E W S : Type} [DecidableEq I]

def step (sys : System R E W S) (p : Pool R I A S) : Event I E W → Option (Pool R I A S)
  | .world w => (sys.env w p.state).map fun s => { p with state := s }
  | .act i e =>
      match p.threads i with
      | .pure _ => none
      | .call c next =>
          (sys.exec c e p.state).map fun answer =>
            { state := answer.2, threads := Function.update p.threads i (next answer.1) }

/-- The value a program has ended with. -/
def Pool.outcome (p : Pool R I A S) (i : I) : Option A :=
  match p.threads i with
  | .pure a => some a
  | .call _ _ => none

omit [DecidableEq I] in
theorem Pool.outcome_eq_some {p : Pool R I A S} {i : I} {a : A} :
    p.outcome i = some a ↔ p.threads i = .pure a := by
  unfold outcome
  cases p.threads i <;> simp

def run (sys : System R E W S) (p : Pool R I A S) (events : List (Event I E W)) :
    Option (Pool R I A S) :=
  events.foldlM (step sys) p

theorem run_append_singleton (sys : System R E W S) (p : Pool R I A S)
    (past : List (Event I E W)) (ev : Event I E W) :
    run sys p (past ++ [ev]) = (run sys p past).bind fun q => step sys q ev := by
  simp [run, List.foldlM_append]

theorem step_world {sys : System R E W S} {p q : Pool R I A S} {w : W}
    (h : step sys p (.world w) = some q) :
    sys.env w p.state = some q.state ∧ q.threads = p.threads := by
  obtain ⟨s, hs, rfl⟩ := Option.map_eq_some_iff.mp h
  exact ⟨hs, rfl⟩

theorem step_act {sys : System R E W S} {p q : Pool R I A S} {i : I} {e : E}
    (h : step sys p (.act i e) = some q) :
    ∃ c next r, p.threads i = .call c next ∧ sys.exec c e p.state = some (r, q.state) ∧
      q.threads = Function.update p.threads i (next r) := by
  unfold step at h
  cases ht : p.threads i with
  | pure a => simp [ht] at h
  | call c next =>
      simp only [ht] at h
      obtain ⟨⟨r, s⟩, hs, rfl⟩ := Option.map_eq_some_iff.mp h
      exact ⟨c, next, r, rfl, hs, rfl⟩

theorem step_call {sys : System R E W S} {p : Pool R I A S} {i : I} {e : E} {c : C}
    {next : R c → Program R A} {r : R c} {s' : S} (hi : p.threads i = .call c next)
    (hexec : sys.exec c e p.state = some (r, s')) :
    step sys p (.act i e) =
      some { state := s', threads := Function.update p.threads i (next r) } := by
  simp [step, hi, hexec]

/-- A program executed to its end, with no other event in between. -/
theorem run_thread (sys : System R E W S) (p : Pool R I A S) (i : I) {prog : Program R A}
    {es : List E} {a : A} {s' : S} (hi : p.threads i = prog)
    (hrun : Programs.run sys.exec prog es p.state = some (a, s')) :
    run sys p (es.map (.act i)) =
      some { state := s', threads := Function.update p.threads i (.pure a) } := by
  induction prog generalizing es p with
  | pure b =>
      cases es with
      | nil =>
          obtain ⟨rfl, rfl⟩ : b = a ∧ p.state = s' := by simpa [Programs.run] using hrun
          rw [← hi, Function.update_eq_self]
          rfl
      | cons e es => simp [Programs.run] at hrun
  | call c next ih =>
      cases es with
      | nil => simp [Programs.run] at hrun
      | cons e es =>
          obtain ⟨⟨r, s₁⟩, hexec, hrest⟩ := Option.bind_eq_some_iff.mp hrun
          have hstep := step_call hi hexec
          have hih := ih r { state := s₁, threads := Function.update p.threads i (next r) }
            (Function.update_self ..) hrest
          rw [List.map_cons, run, List.foldlM_cons, hstep]
          rw [run] at hih
          simpa [Function.update_idem] using hih

theorem run_append (sys : System R E W S) (p : Pool R I A S) (es es' : List (Event I E W)) :
    run sys p (es ++ es') = (run sys p es).bind fun q => run sys q es' := by
  simp [run, List.foldlM_append]

theorem run_world {sys : System R E W S} {p₀ p : Pool R I A S} {events : List (Event I E W)} {w : W}
    {s' : S} (hrun : run sys p₀ events = some p) (henv : sys.env w p.state = some s') :
    run sys p₀ (events ++ [.world w]) = some { p with state := s' } := by
  rw [run_append_singleton, hrun, Option.bind_some, step, henv]
  rfl

theorem run_act {sys : System R E W S} {p₀ p : Pool R I A S} {events : List (Event I E W)} {i : I}
    {e : E} {c : C} {next : R c → Program R A} {r : R c} {s' : S}
    (hrun : run sys p₀ events = some p) (hi : p.threads i = .call c next)
    (hexec : sys.exec c e p.state = some (r, s')) :
    run sys p₀ (events ++ [.act i e]) =
      some { state := s', threads := Function.update p.threads i (next r) } := by
  rw [run_append_singleton, hrun, Option.bind_some, step_call hi hexec]

section Idle
variable {sys : System R E W S} {p q : Pool R I A S} {i : I} {events : List (Event I E W)}

/-- A program that takes no step in a run may be any other. -/
theorem run_of_idle (prog : Program R A) (hidle : ∀ e, .act i e ∉ events)
    (hrun : run sys p events = some q) :
    run sys { p with threads := Function.update p.threads i prog } events =
      some { q with threads := Function.update q.threads i prog } := by
  induction events generalizing p with
  | nil =>
      cases hrun
      rfl
  | cons ev rest ih =>
      obtain ⟨p', hstep, hrest⟩ := Option.bind_eq_some_iff.mp hrun
      have hrest' := ih (fun e he => hidle e (List.mem_cons_of_mem _ he)) hrest
      have hstep' : step sys { p with threads := Function.update p.threads i prog } ev =
          some { p' with threads := Function.update p'.threads i prog } := by
        cases ev with
        | world w =>
            obtain ⟨henv, hthreads⟩ := step_world hstep
            rw [step, henv, Option.map_some, hthreads]
        | act j e =>
            obtain ⟨c, next, r, hc, hexec, hthreads⟩ := step_act hstep
            have hji : j ≠ i := by
              rintro rfl
              exact hidle e List.mem_cons_self
            have hc' : Function.update p.threads i prog j = .call c next := by
              rw [Function.update_of_ne hji, hc]
            simp only [step, hc', hexec, Option.map_some, hthreads, Function.update_comm hji]
      rw [run, List.foldlM_cons, hstep']
      exact hrest'

/-- What takes no step stays where it is. -/
theorem thread_of_idle (hidle : ∀ e, .act i e ∉ events) (hrun : run sys p events = some q) :
    q.threads i = p.threads i := by
  have hsame := run_of_idle (p.threads i) hidle hrun
  rw [Function.update_eq_self, hrun, Option.some.injEq] at hsame
  have hthread := congrArg (fun pool : Pool R I A S => pool.threads i) hsame
  simpa using hthread

end Idle

theorem outcome_step {sys : System R E W S} {p q : Pool R I A S} {ev : Event I E W} {i : I} {a : A}
    (hstep : step sys p ev = some q) (hend : p.outcome i = some a) : q.outcome i = some a := by
  rw [Pool.outcome_eq_some] at hend ⊢
  cases ev with
  | world w =>
      rw [(step_world hstep).2]
      exact hend
  | act j e =>
      obtain ⟨c, next, r, hc, -, hthreads⟩ := step_act hstep
      have hne : i ≠ j := by
        rintro rfl
        rw [hend] at hc
        cases hc
      rw [hthreads, Function.update_of_ne hne]
      exact hend

/-- What has ended stays as it is. -/
theorem outcome_run {sys : System R E W S} {p q : Pool R I A S}
    {events : List (Event I E W)} {i : I} {a : A} (hrun : run sys p events = some q)
    (hend : p.outcome i = some a) :
    q.outcome i = some a := by
  induction events generalizing p with
  | nil =>
      cases hrun
      exact hend
  | cons ev rest ih =>
      obtain ⟨p', hstep, hrest⟩ := Option.bind_eq_some_iff.mp hrun
      exact ih hrest (outcome_step hstep hend)

section Single
variable {sys : System R E W S} {p₀ p q : Pool R I A S} {i : I} {c : C} {next : R c → Program R A}

/-- A program of one call has not made it yet, or has ended. -/
theorem thread_of_single (hstart : p₀.threads i = .call c next) (hone : ∀ r, ∃ a, next r = .pure a)
    {events : List (Event I E W)} (hrun : run sys p₀ events = some q) :
    q.threads i = .call c next ∨ ∃ a, q.threads i = .pure a := by
  induction events using List.reverseRecOn generalizing q with
  | nil =>
      cases hrun
      exact .inl hstart
  | append_singleton past ev ih =>
      rw [run_append_singleton] at hrun
      obtain ⟨q₁, hq₁, hstep⟩ := Option.bind_eq_some_iff.mp hrun
      cases ev with
      | world w =>
          rw [(step_world hstep).2]
          exact ih hq₁
      | act j e =>
          obtain ⟨c', next', r, hc', -, hthreads⟩ := step_act hstep
          rw [hthreads]
          by_cases hji : j = i
          · subst hji
            rw [Function.update_self]
            rcases ih hq₁ with hcall | ⟨a, hpure⟩
            · cases hc'.symm.trans hcall
              exact .inr (hone r)
            · cases hc'.symm.trans hpure
          · rw [Function.update_of_ne (Ne.symm hji)]
            exact ih hq₁

/-- It ends with what follows its one call, made in the state it met. -/
theorem outcome_of_single (hstart : p₀.threads i = .call c next) (hone : ∀ r, ∃ a, next r = .pure a)
    {past rest : List (Event I E W)} {e : E} (hp : run sys p₀ past = some p)
    (hq : run sys p₀ (past ++ .act i e :: rest) = some q) :
    ∃ r s', sys.exec c e p.state = some (r, s') ∧ q.threads i = next r := by
  rw [run_append, hp, Option.bind_some] at hq
  obtain ⟨p', hstep, hrest⟩ := Option.bind_eq_some_iff.mp hq
  obtain ⟨c', next', r, hc', hexec, hthreads⟩ := step_act hstep
  rcases thread_of_single hstart hone hp with hcall | ⟨a, hpure⟩
  · cases hc'.symm.trans hcall
    obtain ⟨a, ha⟩ := hone r
    have hend : p'.outcome i = some a := by
      rw [Pool.outcome_eq_some, hthreads, Function.update_self, ha]
    refine ⟨r, p'.state, hexec, ?_⟩
    rw [ha, ← Pool.outcome_eq_some]
    exact outcome_run hrest hend
  · cases hc'.symm.trans hpure

end Single

/-- The condition holds at every event of the run, in the pool the event meets. -/
def Along (sys : System R E W S) (cond : Pool R I A S → Event I E W → Prop) (p : Pool R I A S)
    (events : List (Event I E W)) : Prop :=
  ∀ past ev rest q, events = past ++ ev :: rest → run sys p past = some q → cond q ev

theorem Along.cons {sys : System R E W S} {cond : Pool R I A S → Event I E W → Prop}
    {p q : Pool R I A S} {ev : Event I E W} {es : List (Event I E W)} (hcond : cond p ev)
    (hstep : step sys p ev = some q) (h : Along sys cond q es) : Along sys cond p (ev :: es) := by
  intro past ev' rest q' heq hrun
  cases past with
  | nil =>
      obtain ⟨rfl, -⟩ : ev = ev' ∧ es = rest := by simpa using heq
      cases hrun
      exact hcond
  | cons ev₁ past =>
      obtain ⟨rfl, hes⟩ : ev = ev₁ ∧ es = past ++ ev' :: rest := by simpa using heq
      rw [run, List.foldlM_cons, hstep] at hrun
      exact h past ev' rest q' hes hrun

/-- Runs the events and checks the condition before each of them. -/
def checkedRun (sys : System R E W S) (cond : Pool R I A S → Event I E W → Prop)
    [∀ p ev, Decidable (cond p ev)] (p : Pool R I A S) : List (Event I E W) → Option (Pool R I A S)
  | [] => some p
  | ev :: es => if cond p ev then (step sys p ev).bind fun q => checkedRun sys cond q es else none

theorem checkedRun_eq_some {sys : System R E W S} {cond : Pool R I A S → Event I E W → Prop}
    [∀ p ev, Decidable (cond p ev)] {p q : Pool R I A S} {es : List (Event I E W)}
    (h : checkedRun sys cond p es = some q) : run sys p es = some q ∧ Along sys cond p es := by
  induction es generalizing p with
  | nil =>
      refine ⟨h, ?_⟩
      intro past ev rest q' heq
      simp at heq
  | cons ev es ih =>
      unfold checkedRun at h
      split_ifs at h with hc
      obtain ⟨q₁, hstep, hrest⟩ := Option.bind_eq_some_iff.mp h
      obtain ⟨hrun, halong⟩ := ih hrest
      refine ⟨?_, halong.cons hc hstep⟩
      rw [run, List.foldlM_cons, hstep]
      exact hrun

theorem Along.init {sys : System R E W S} {cond : Pool R I A S → Event I E W → Prop}
    {p : Pool R I A S} {past : List (Event I E W)} {ev : Event I E W}
    (h : Along sys cond p (past ++ [ev])) : Along sys cond p past := by
  intro past' ev' rest q heq hrun
  exact h past' ev' (rest ++ [ev]) q (by simp [heq]) hrun

theorem Along.last {sys : System R E W S} {cond : Pool R I A S → Event I E W → Prop}
    {p q : Pool R I A S} {past : List (Event I E W)} {ev : Event I E W}
    (h : Along sys cond p (past ++ [ev])) (hrun : run sys p past = some q) : cond q ev :=
  h past ev [] q rfl hrun

/-- The property has held at a moment of the run, of the events up to it and the pool. -/
def Once (sys : System R E W S) (p₀ : Pool R I A S) (P : List (Event I E W) → Pool R I A S → Prop)
    (events : List (Event I E W)) : Prop :=
  ∃ past rest p, events = past ++ rest ∧ run sys p₀ past = some p ∧ P past p

section Moments
variable {sys : System R E W S} {p₀ p : Pool R I A S}
  {P Q : List (Event I E W) → Pool R I A S → Prop}
  {events : List (Event I E W)}

theorem Once.now (hrun : run sys p₀ events = some p) (h : P events p) : Once sys p₀ P events :=
  ⟨events, [], p, (List.append_nil events).symm, hrun, h⟩

theorem Once.append (h : Once sys p₀ P events) (more : List (Event I E W)) :
    Once sys p₀ P (events ++ more) := by
  obtain ⟨past, rest, p, rfl, hrun, hp⟩ := h
  exact ⟨past, rest ++ more, p, List.append_assoc .., hrun, hp⟩

theorem Once.imp (h : Once sys p₀ P events)
    (himp : ∀ past rest p, events = past ++ rest → run sys p₀ past = some p → P past p → Q past p) :
    Once sys p₀ Q events := by
  obtain ⟨past, rest, p, heq, hrun, hp⟩ := h
  exact ⟨past, rest, p, heq, hrun, himp past rest p heq hrun hp⟩

/-- The program is about to make this call, and with this choice it gets this answer. -/
def Pool.Asks (sys : System R E W S) (p : Pool R I A S) (i : I) (e : E) (c : C) (r : R c) : Prop :=
  ∃ next s', p.threads i = .call c next ∧ sys.exec c e p.state = some (r, s')

/-- In the run the program has made this call and got this answer. -/
def Answered (sys : System R E W S) (p₀ : Pool R I A S) (i : I) (c : C) (r : R c)
    (events : List (Event I E W)) : Prop :=
  ∃ past e rest p, events = past ++ .act i e :: rest ∧ run sys p₀ past = some p ∧ p.Asks sys i e c r

variable {i : I} {c : C} {r : R c}

theorem Answered.now {e : E} (hrun : run sys p₀ events = some p) (h : p.Asks sys i e c r) :
    Answered sys p₀ i c r (events ++ [.act i e]) :=
  ⟨events, e, [], p, rfl, hrun, h⟩

theorem Answered.append (h : Answered sys p₀ i c r events) (more : List (Event I E W)) :
    Answered sys p₀ i c r (events ++ more) := by
  obtain ⟨past, e, rest, p, rfl, hrun, hasks⟩ := h
  exact ⟨past, e, rest ++ more, p, by simp, hrun, hasks⟩

/-- An answer was got at the last event or before it. -/
theorem Answered.of_snoc {ev : Event I E W} (hrun : run sys p₀ events = some p)
    (h : Answered sys p₀ i c r (events ++ [ev])) :
    Answered sys p₀ i c r events ∨ ∃ e, ev = .act i e ∧ p.Asks sys i e c r := by
  obtain ⟨past, e, rest, p', hsplit, hrun', hasks⟩ := h
  induction rest using List.reverseRecOn with
  | nil =>
      obtain ⟨rfl, hlast⟩ := List.append_inj' hsplit rfl
      cases hlast
      cases hrun.symm.trans hrun'
      exact .inr ⟨e, rfl, hasks⟩
  | append_singleton rest last _ =>
      rw [← List.cons_append, ← List.append_assoc] at hsplit
      obtain ⟨rfl, -⟩ := List.append_inj' hsplit rfl
      exact .inl ⟨past, e, rest, p', rfl, hrun', hasks⟩

end Moments

end Runs

section Invariants
variable {C : Type} {R : C → Type} {I A E W S M : Type} [DecidableEq I]

/-- Every program of the pool follows its policy from its watching state, and the
invariant ties the watching states to the history and the shared state. -/
structure Watched (P : I → Policy R M) (post : I → M → A → Prop)
    (Inv : List (Event I E W) → (I → M) → S → Prop) (past : List (Event I E W))
    (p : Pool R I A S) (ms : I → M) : Prop where
  follows : ∀ i, Follows (P i) (post i) (p.threads i) (ms i)
  inv : Inv past ms p.state

theorem run_watched {sys : System R E W S} (P : I → Policy R M) (post : I → M → A → Prop)
    (Inv : List (Event I E W) → (I → M) → S → Prop) (cond : Pool R I A S → Event I E W → Prop)
    {p₀ : Pool R I A S} {ms₀ : I → M}
    (hinit : Watched P post Inv [] p₀ ms₀)
    (hact : ∀ past p ms i e c next r s', run sys p₀ past = some p → Watched P post Inv past p ms →
      p.threads i = .call c next → cond p (.act i e) → (P i).permits (ms i) c →
      sys.exec c e p.state = some (r, s') →
      ∃ m', (P i).moves (ms i) c r m' ∧ Inv (past ++ [.act i e]) (Function.update ms i m') s')
    (hworld : ∀ past p ms w s', run sys p₀ past = some p → Watched P post Inv past p ms →
      cond p (.world w) → sys.env w p.state = some s' → Inv (past ++ [.world w]) ms s')
    {events : List (Event I E W)} {q : Pool R I A S} (hrun : run sys p₀ events = some q)
    (halong : Along sys cond p₀ events) : ∃ ms, Watched P post Inv events q ms := by
  induction events using List.reverseRecOn generalizing q with
  | nil =>
      cases hrun
      exact ⟨ms₀, hinit⟩
  | append_singleton past ev ih =>
      rw [run_append_singleton] at hrun
      obtain ⟨p, hp, hstep⟩ := Option.bind_eq_some_iff.mp hrun
      obtain ⟨ms, hms⟩ := ih hp halong.init
      have hcond := halong.last hp
      cases ev with
      | world w =>
          obtain ⟨henv, hthreads⟩ := step_world hstep
          refine ⟨ms, ?_, hworld past p ms w q.state hp hms hcond henv⟩
          rw [hthreads]
          exact hms.follows
      | act i e =>
          obtain ⟨c, next, r, hc, hexec, hthreads⟩ := step_act hstep
          have hi := hms.follows i
          rw [hc, follows_call] at hi
          obtain ⟨m', hm, hinv⟩ := hact past p ms i e c next r q.state hp hms hc hcond hi.1 hexec
          refine ⟨Function.update ms i m', ?_, hinv⟩
          intro j
          rw [hthreads]
          by_cases hj : j = i
          · subst hj
            simpa only [Function.update_self] using hi.2 r m' hm
          · simpa only [Function.update_of_ne hj] using hms.follows j

end Invariants

section Histories
variable {C : Type} {R : C → Type} {I A E W S G : Type} [DecidableEq I]

/-- A history is carried beside the state and noted at every call. It changes nothing,
so every run has one. -/
def observe (sys : System R E W S) (note : (c : C) → R c → S → G → G) : System R E W (S × G) where
  exec c e s := (sys.exec c e s.1).map fun answer => (answer.1, answer.2, note c answer.1 s.1 s.2)
  env w s := (sys.env w s.1).map fun s' => (s', s.2)

variable {sys : System R E W S} {note : (c : C) → R c → S → G → G}

theorem observe_exec {c : C} {e : E} {s s' : S × G} {r : R c}
    (h : (observe sys note).exec c e s = some (r, s')) :
    sys.exec c e s.1 = some (r, s'.1) ∧ s'.2 = note c r s.1 s.2 := by
  obtain ⟨⟨r', s₁⟩, hexec, heq⟩ := Option.map_eq_some_iff.mp h
  cases heq
  exact ⟨hexec, rfl⟩

theorem observe_env {w : W} {s s' : S × G} (h : (observe sys note).env w s = some s') :
    sys.env w s.1 = some s'.1 ∧ s'.2 = s.2 := by
  obtain ⟨s₁, henv, heq⟩ := Option.map_eq_some_iff.mp h
  cases heq
  exact ⟨henv, rfl⟩

/-- The pool together with a history. -/
def Pool.noting (p : Pool R I A S) (g : G) : Pool R I A (S × G) := ⟨(p.state, g), p.threads⟩

theorem step_observe (note : (c : C) → R c → S → G → G) {p q : Pool R I A S} {ev : Event I E W}
    (h : step sys p ev = some q) (g : G) :
    ∃ g', step (observe sys note) (p.noting g) ev = some (q.noting g') := by
  cases ev with
  | world w =>
      obtain ⟨henv, hthreads⟩ := step_world h
      refine ⟨g, ?_⟩
      simp [step, observe, Pool.noting, henv, hthreads]
  | act i e =>
      obtain ⟨c, next, r, hc, hexec, hthreads⟩ := step_act h
      refine ⟨note c r p.state g, ?_⟩
      simp [step, observe, Pool.noting, hc, hexec, hthreads]

theorem run_observe (note : (c : C) → R c → S → G → G) {p q : Pool R I A S}
    {events : List (Event I E W)} (h : run sys p events = some q) (g : G) :
    ∃ g', run (observe sys note) (p.noting g) events = some (q.noting g') := by
  induction events using List.reverseRecOn generalizing q with
  | nil =>
      cases h
      exact ⟨g, rfl⟩
  | append_singleton past ev ih =>
      rw [run_append_singleton] at h
      obtain ⟨q₁, hpast, hstep⟩ := Option.bind_eq_some_iff.mp h
      obtain ⟨g₁, hrun⟩ := ih hpast
      obtain ⟨g₂, hstep'⟩ := step_observe note hstep g₁
      refine ⟨g₂, ?_⟩
      rw [run_append_singleton, hrun]
      exact hstep'

end Histories
end SimplyIpExporter.Interleaving
