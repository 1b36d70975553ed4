import SimplyIpExporter.Interleaving

/-!
# Two pools in lockstep

Two programs are twins when they make paired calls for as long as their answers are
related, and end with related values. A pairing says which two calls go together and
what is then known of the two answers. Being twins is a property of the two texts.

What twins do is proved once for the interpreters: when paired calls from related states
have related effects, two pools of twins take the same events and stay related. A
single program among others meets at each of its calls whatever state these have left;
twins that meet related states end with related values, whatever happens in between.
-/
namespace SimplyIpExporter.Lockstep
open Programs Interleaving

/-- Which calls go together, and what is then known of their answers. -/
abbrev Pairing {C : Type} (R : C → Type) := (c c' : C) → (R c → R c' → Prop) → Prop

section Texts
variable {C : Type} {R : C → Type} {A A' B B' : Type}

inductive Twin (pairing : Pairing R) (rel : A → A' → Prop) : Program R A → Program R A' → Prop
  | value {a : A} {a' : A'} (h : rel a a') : Twin pairing rel (.pure a) (.pure a')
  | call {c c' : C} {answers : R c → R c' → Prop} {next : R c → Program R A}
      {next' : R c' → Program R A'} (hpair : pairing c c' answers)
      (hnext : ∀ r r', answers r r' → Twin pairing rel (next r) (next' r')) :
      Twin pairing rel (.call c next) (.call c' next')

variable {pairing : Pairing R} {rel : A → A' → Prop} {rel' : B → B' → Prop}

theorem Twin.bind {p : Program R A} {p' : Program R A'} {f : A → Program R B}
    {f' : A' → Program R B'} (h : Twin pairing rel p p')
    (hrest : ∀ a a', rel a a' → Twin pairing rel' (f a) (f' a')) :
    Twin pairing rel' (p >>= f) (p' >>= f') := by
  induction h with
  | @value a a' hrel => exact hrest a a' hrel
  | call hpair hnext ih => exact .call hpair ih

section Failing
variable {F : Type} {rel' : Except F B → Except F B' → Prop}

theorem Twin.except_bind {mid : Except F A → Except F A' → Prop} {x : ExceptT F (Program R) A}
    {x' : ExceptT F (Program R) A'} {f : A → ExceptT F (Program R) B}
    {f' : A' → ExceptT F (Program R) B'} (h : Twin pairing mid x x')
    (hrest : ∀ result result', mid result result' →
      Twin pairing rel' (ExceptT.bindCont f result) (ExceptT.bindCont f' result')) :
    Twin pairing rel' (x >>= f : ExceptT F (Program R) B)
      (x' >>= f' : ExceptT F (Program R) B') :=
  Twin.bind h hrest

theorem Twin.ask_bind {c c' : C} {answers : R c → R c' → Prop} {f : R c → ExceptT F (Program R) B}
    {f' : R c' → ExceptT F (Program R) B'} (hpair : pairing c c' answers)
    (hrest : ∀ r r', answers r r' → Twin pairing rel' (f r) (f' r')) :
    Twin pairing rel' (ask c >>= f : ExceptT F (Program R) B)
      (ask c' >>= f' : ExceptT F (Program R) B') :=
  .call hpair hrest

end Failing

/-- Both fail alike, or have related values. -/
inductive Both {F X Y : Type} (rel : X → Y → Prop) : Except F X → Except F Y → Prop
  | ok {x : X} {y : Y} (h : rel x y) : Both rel (.ok x) (.ok y)
  | error (e : F) : Both rel (.error e) (.error e)

section SameOutcome
variable {F : Type}

/-- Twins that end alike. -/
abbrev Same (pairing : Pairing R) (x x' : ExceptT F (Program R) B) : Prop :=
  Twin pairing (Eq : Except F B → Except F B → Prop) x x'

theorem Same.ok (b : B) : Same pairing (pure b : ExceptT F (Program R) B) (pure b) := .value rfl

theorem Same.throw (e : F) : Same pairing (throw e : ExceptT F (Program R) B) (throw e) :=
  .value rfl

theorem Same.attempt (x : Except F B) : Same pairing (attempt x) (attempt x) := .value rfl

/-- What ends alike is followed by what goes on alike. -/
theorem Same.then {x x' : ExceptT F (Program R) A} {f f' : A → ExceptT F (Program R) B}
    (h : Same pairing x x') (hrest : ∀ a, Same pairing (f a) (f' a)) :
    Same pairing (x >>= f) (x' >>= f') := by
  refine Twin.except_bind h ?_
  rintro result _ rfl
  cases result with
  | error e => exact .value rfl
  | ok a => exact hrest a

theorem Same.attempt_bind {x : Except F A} {f f' : A → ExceptT F (Program R) B}
    (hrest : ∀ a, x = .ok a → Same pairing (f a) (f' a)) :
    Same pairing (Programs.attempt x >>= f : ExceptT F (Program R) B)
      (Programs.attempt x >>= f' : ExceptT F (Program R) B) := by
  cases x with
  | error e => exact .value rfl
  | ok a => exact hrest a rfl

end SameOutcome

/-- A program whose calls are all paired with themselves is its own twin. -/
theorem Twin.refl_of_follows {M : Type} {P : Policy R M} {post : M → A → Prop}
    (hself : ∀ m c, P.permits m c → pairing c c Eq) (hmoves : ∀ m c r, ∃ m', P.moves m c r m')
    {p : Program R A} {m : M} (h : Follows P post p m) : Twin pairing Eq p p := by
  induction p generalizing m with
  | pure a => exact .value rfl
  | call c next ih =>
      obtain ⟨hpermits, hnext⟩ := follows_call.mp h
      refine .call (hself m c hpermits) ?_
      rintro r _ rfl
      obtain ⟨m', hm⟩ := hmoves m c r
      exact ih r (hnext r m' hm)

end Texts

section Pools
variable {C : Type} {R : C → Type} {I A A' E W S : Type}

/-- Paired calls from related states can be made under the same choices, have related
answers and lead to related states, as long as both states suit the calls. -/
def Mirrors (pairing : Pairing R) (Rel : S → S → Prop) (suits : C → S → Prop)
    (exec exec' : (c : C) → E → S → Option (R c × S)) : Prop :=
  ∀ c c' answers e s s', pairing c c' answers → Rel s s' → suits c s → suits c' s' →
    (exec c e s = none ∧ exec' c' e s' = none) ∨
      ∃ r t r' t', exec c e s = some (r, t) ∧ exec' c' e s' = some (r', t') ∧ answers r r' ∧
        Rel t t'

/-- The state suits the call that is about to be made. -/
def suited (suits : C → S → Prop) (p : Pool R I A S) : Event I E W → Prop
  | .world _ => True
  | .act i _ => ∀ c ∈ (p.threads i).upcoming, suits c p.state

instance (suits : C → S → Prop) [∀ c s, Decidable (suits c s)] (p : Pool R I A S)
    (ev : Event I E W) :
    Decidable (suited suits p ev) :=
  match ev with
  | .world _ => isTrue trivial
  | .act i _ => inferInstanceAs (Decidable (∀ c ∈ (p.threads i).upcoming, suits c p.state))

/-- Twins over related states. -/
structure Paired (pairing : Pairing R) (rel : A → A' → Prop) (Rel : S → S → Prop)
    (p : Pool R I A S) (p' : Pool R I A' S) : Prop where
  threads : ∀ i, Twin pairing rel (p.threads i) (p'.threads i)
  state : Rel p.state p'.state

variable {pairing : Pairing R} {rel : A → A' → Prop} {Rel : S → S → Prop} {suits : C → S → Prop}
  {sys sys' : System R E W S}

/-- Programs that have ended have ended with related values, and together. -/
theorem Paired.outcome {p : Pool R I A S} {p' : Pool R I A' S} (h : Paired pairing rel Rel p p')
    (i : I) : Option.Rel rel (p.outcome i) (p'.outcome i) := by
  have htwin := h.threads i
  unfold Pool.outcome
  generalize p.threads i = prog at htwin ⊢
  generalize p'.threads i = prog' at htwin ⊢
  cases htwin with
  | value hrel => exact .some hrel
  | call => exact .none

theorem Paired.outcome_eq {p p' : Pool R I A S} (h : Paired pairing Eq Rel p p') (i : I) :
    p.outcome i = p'.outcome i := by
  have hrel := h.outcome i
  generalize p.outcome i = a at hrel ⊢
  generalize p'.outcome i = a' at hrel ⊢
  cases hrel with
  | some heq => rw [heq]
  | none => rfl

variable [DecidableEq I]

theorem Paired.step {p q : Pool R I A S} {p' : Pool R I A' S} {ev : Event I E W}
    (hexec : Mirrors pairing Rel suits sys.exec sys'.exec)
    (henv : ∀ w s s' t, Rel s s' → sys.env w s = some t → ∃ t', sys'.env w s' = some t' ∧ Rel t t')
    (h : Paired pairing rel Rel p p') (hsuited : suited suits p ev) (hsuited' : suited suits p' ev)
    (hstep : Interleaving.step sys p ev = some q) :
    ∃ q', Interleaving.step sys' p' ev = some q' ∧ Paired pairing rel Rel q q' := by
  cases ev with
  | world w =>
      obtain ⟨ht, hthreads⟩ := step_world hstep
      obtain ⟨t', ht', hrel⟩ := henv w _ _ _ h.state ht
      refine ⟨{ p' with state := t' }, by simp [Interleaving.step, ht'], ?_, hrel⟩
      rw [hthreads]
      exact h.threads
  | act i e =>
      obtain ⟨c, next, r, hc, hr, hthreads⟩ := step_act hstep
      have htwin := h.threads i
      rw [hc] at htwin
      cases hc' : p'.threads i with
      | pure a =>
          rw [hc'] at htwin
          cases htwin
      | call c' next' =>
          rw [hc'] at htwin
          obtain - | ⟨hpair, hnext⟩ := htwin
          rcases hexec c c' _ e _ _ hpair h.state (hsuited c (by rw [hc]; rfl))
              (hsuited' c' (by rw [hc']; rfl)) with
                ⟨hnone, -⟩ | ⟨r₁, t, r', t', ht, ht', hans, hrel⟩
          · rw [hnone] at hr
            cases hr
          · rw [hr] at ht
            cases ht
            refine ⟨_, step_call hc' ht', ?_, hrel⟩
            intro j
            rw [hthreads]
            by_cases hj : j = i
            · subst hj
              simpa only [Function.update_self] using hnext r r' hans
            · simpa only [Function.update_of_ne hj] using h.threads j

/-- Two pools of twins take the same events and stay related. -/
theorem run_lockstep (sys sys' : System R E W S)
    (hexec : Mirrors pairing Rel suits sys.exec sys'.exec)
    (henv : ∀ w s s' t, Rel s s' → sys.env w s = some t → ∃ t', sys'.env w s' = some t' ∧ Rel t t')
    {p q : Pool R I A S} {p' : Pool R I A' S} {events : List (Event I E W)}
    (h : Paired pairing rel Rel p p') (hsuited : Along sys (suited suits) p events)
    (hsuited' : Along sys' (suited suits) p' events)
    (hrun : Interleaving.run sys p events = some q) :
    ∃ q', Interleaving.run sys' p' events = some q' ∧ Paired pairing rel Rel q q' := by
  induction events using List.reverseRecOn generalizing q with
  | nil =>
      cases hrun
      exact ⟨p', rfl, h⟩
  | append_singleton past ev ih =>
      rw [run_append_singleton] at hrun
      obtain ⟨q₁, hpast, hstep⟩ := Option.bind_eq_some_iff.mp hrun
      obtain ⟨q₁', hpast', hpaired⟩ := ih hsuited.init hsuited'.init hpast
      obtain ⟨q', hstep', hq⟩ :=
        hpaired.step hexec henv (hsuited.last hpast) (hsuited'.last hpast') hstep
      refine ⟨q', ?_, hq⟩
      rw [run_append_singleton, hpast']
      exact hstep'

end Pools

section Meetings
variable {C : Type} {R : C → Type} {I A A' E W S : Type}

/-- A call as it was made: under which choice, and in which state. -/
structure Meeting (C E S : Type) where
  call : C
  choice : E
  state : S

/-- What an event adds to the meetings of a program. -/
def meets (p : Pool R I A S) [DecidableEq I] (i : I) : Event I E W → List (Meeting C E S)
  | .world _ => []
  | .act j e => if j = i then (p.threads i).upcoming.toList.map fun c => ⟨c, e, p.state⟩ else []

/-- The calls that a program has made in a run, in order. -/
def meetings [DecidableEq I] (sys : System R E W S) (i : I) (p : Pool R I A S) :
    List (Event I E W) → List (Meeting C E S)
  | [] => []
  | ev :: es => meets p i ev ++ ((step sys p ev).elim [] fun q => meetings sys i q es)

/-- What is left of a program after its calls were made. -/
inductive Leads (exec : (c : C) → E → S → Option (R c × S)) :
    Program R A → List (Meeting C E S) → Program R A → Prop
  | nil (p : Program R A) : Leads exec p [] p
  | cons {c : C} {e : E} {s t : S} {r : R c} {next : R c → Program R A} {ms : List (Meeting C E S)}
      {p : Program R A} (hexec : exec c e s = some (r, t)) (hrest : Leads exec (next r) ms p) :
      Leads exec (.call c next) (⟨c, e, s⟩ :: ms) p

theorem leads_meetings [DecidableEq I] {sys : System R E W S} {p q : Pool R I A S}
    {events : List (Event I E W)} (i : I) (hrun : Interleaving.run sys p events = some q) :
    Leads sys.exec (p.threads i) (meetings sys i p events) (q.threads i) := by
  induction events generalizing p with
  | nil =>
      cases hrun
      exact .nil _
  | cons ev es ih =>
      obtain ⟨p₁, hstep, hrest⟩ := Option.bind_eq_some_iff.mp hrun
      rw [meetings, hstep, Option.elim_some]
      cases ev with
      | world w =>
          rw [← (step_world hstep).2]
          exact ih hrest
      | act j e =>
          obtain ⟨c, next, r, hc, hexec, hthreads⟩ := step_act hstep
          by_cases hj : j = i
          · subst hj
            have hmeets : meets (W := W) p j (.act j e) = [⟨c, e, p.state⟩] := by
              simp [meets, hc, Program.upcoming]
            have hnext := ih hrest
            rw [hthreads, Function.update_self] at hnext
            rw [hmeets, hc]
            exact .cons hexec hnext
          · have hmeets : meets (W := W) p i (.act j e) = [] := if_neg hj
            have hnext := ih hrest
            rw [hthreads, Function.update_of_ne (Ne.symm hj)] at hnext
            rw [hmeets]
            exact hnext

variable {pairing : Pairing R} {rel : A → A' → Prop} {Rel : S → S → Prop} {suits : C → S → Prop}
  {exec exec' : (c : C) → E → S → Option (R c × S)}

/-- Two calls made under the same choice in related states that suit them. -/
structure Comparable (Rel : S → S → Prop) (suits : C → S → Prop) (m m' : Meeting C E S) : Prop where
  choice : m.choice = m'.choice
  state : Rel m.state m'.state
  first : suits m.call m.state
  second : suits m'.call m'.state

/-- Twins whose calls are comparable are still twins after them. -/
theorem Twin.leads (hexec : Mirrors pairing Rel suits exec exec') {p q : Program R A}
    {p' q' : Program R A'} {ms ms' : List (Meeting C E S)} (h : Twin pairing rel p p')
    (hms : List.Forall₂ (Comparable Rel suits) ms ms') (hq : Leads exec p ms q)
    (hq' : Leads exec' p' ms' q') : Twin pairing rel q q' := by
  induction hq generalizing p' ms' with
  | nil p =>
      cases hms
      cases hq'
      exact h
  | @cons c e s t r next ms q hr hrest ih =>
      obtain - | ⟨hm, hrestms⟩ := hms
      obtain - | @⟨c', e', s', t', r', next', ms', _, hr', hrest'⟩ := hq'
      obtain - | ⟨hpair, hnext⟩ := h
      obtain rfl : e = e' := hm.choice
      rcases hexec c c' _ e s s' hpair hm.state hm.first hm.second with
        ⟨hnone, -⟩ | ⟨r₁, t₁, r₁', t₁', hr₁, hr₁', hans, -⟩
      · rw [hr] at hnone
        cases hnone
      · rw [hr] at hr₁
        rw [hr'] at hr₁'
        cases hr₁
        cases hr₁'
        exact ih (hnext r r' hans) hrestms hrest'

end Meetings
end SimplyIpExporter.Lockstep
