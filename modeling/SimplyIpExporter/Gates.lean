import SimplyIpExporter.Interleaving

/-!
# Programs behind a gate

A guarded program first runs a gate and then, if the gate lets it pass, a body for what
the gate has returned. The calls of the gate go to one part of the system, those of the
body to the other. The gate may read what the body's part holds but changes only its own.

A run of guarded programs splits. It contains a run of the gates, to which the bodies are
changes of the world, and a run of the bodies that were let pass, which does not see the
gates at all. So what has been proved of either part by itself holds of the whole.
-/
namespace SimplyIpExporter.Gates
open Programs Interleaving

section Guarding
variable {C D : Type} {R : C → Type} {T : D → Type} {X G A : Type}

/-- Answers to calls of two kinds. -/
@[reducible] def EitherAnswer (R : C → Type) (T : D → Type) : C ⊕ D → Type
  | .inl c => R c
  | .inr d => T d

theorem exists_granted (gate : Program R (Except X G)) (g₀ : G) :
    ∃ g, ∀ g', gate = .pure (.ok g') → g' = g := by
  cases gate with
  | pure result =>
      cases result with
      | error x => exact ⟨g₀, fun g' h => by cases h⟩
      | ok g => exact ⟨g, fun g' h => by cases h; rfl⟩
  | call c next => exact ⟨g₀, fun g' h => by cases h⟩

/-- The body, once the gate has been passed. -/
def entered : Program T A → Program (EitherAnswer R T) (Except X A)
  | .pure a => .pure (.ok a)
  | .call d next => .call (.inr d) fun r => entered (next r)

def guarded (body : G → Program T A) :
    Program R (Except X G) → Program (EitherAnswer R T) (Except X A)
  | .pure (.error x) => .pure (.error x)
  | .pure (.ok g) => entered (body g)
  | .call c next => .call (.inl c) fun r => guarded body (next r)

section Steps
variable {I E W S : Type} [DecidableEq I] {sys : System (EitherAnswer R T) E W S}
  {q q' : Pool (EitherAnswer R T) I (Except X A) S} {i : I} {e : E}

theorem step_entered {p : Program T A} (hi : q.threads i = entered p)
    (hstep : step sys q (.act i e) = some q') :
    ∃ d next r, p = .call d next ∧ sys.exec (.inr d) e q.state = some (r, q'.state) ∧
      q'.threads = Function.update q.threads i (entered (next r)) := by
  obtain ⟨c, rest, r, hc, hexec, hthreads⟩ := step_act hstep
  rw [hi] at hc
  cases p with
  | pure a => cases hc
  | call d next =>
      cases hc
      exact ⟨d, next, r, rfl, hexec, hthreads⟩

theorem step_guarded {body : G → Program T A} {p : Program R (Except X G)}
    (hi : q.threads i = guarded body p) (hp : ∀ g, p ≠ .pure (.ok g))
    (hstep : step sys q (.act i e) = some q') :
    ∃ c next r, p = .call c next ∧ sys.exec (.inl c) e q.state = some (r, q'.state) ∧
      q'.threads = Function.update q.threads i (guarded body (next r)) := by
  obtain ⟨c, rest, r, hc, hexec, hthreads⟩ := step_act hstep
  rw [hi] at hc
  cases p with
  | pure result =>
      cases result with
      | error x => cases hc
      | ok g => exact absurd rfl (hp g)
  | call c next =>
      cases hc
      exact ⟨c, next, r, rfl, hexec, hthreads⟩

end Steps
end Guarding

section Joining
variable {C D : Type} {R : C → Type} {T : D → Type} {E E₁ E₂ W W₁ W₂ S S₁ S₂ : Type}

/-- The state of the whole shows what each part sees. A call of the front part leaves the
back part alone. Everything else that happens may change what the front part sees, as its
world does. -/
structure Joined (sys : System (EitherAnswer R T) E W S) (front : System R E₁ W₁ S₁)
    (back : System T E₂ W₂ S₂) where
  frontView : S → S₁
  backView : S → S₂
  front_call : ∀ {c e s r s'}, sys.exec (.inl c) e s = some (r, s') →
    backView s' = backView s ∧ ∃ e₁, front.exec c e₁ (frontView s) = some (r, frontView s')
  back_call : ∀ {d e s r s'}, sys.exec (.inr d) e s = some (r, s') →
    (∃ e₂, back.exec d e₂ (backView s) = some (r, backView s')) ∧
      ∃ w₁, front.env w₁ (frontView s) = some (frontView s')
  world : ∀ {w s s'}, sys.env w s = some s' →
    (∃ w₁, front.env w₁ (frontView s) = some (frontView s')) ∧
      (backView s' = backView s ∨ ∃ w₂, back.env w₂ (backView s) = some (backView s'))

variable {I X G A : Type}

/-- Where a guarded program stands: its gate has not let it pass, and its body has not
begun; or it has, and the rest of the body is the rest of the program. -/
inductive Standing (i : I) (body : G → Program T A) (granted : G) (events : List (Event I E₂ W₂))
    (gate : Program R (Except X G)) (rest : Program T A)
    (whole : Program (EitherAnswer R T) (Except X A)) : Prop
  | before (hgate : ∀ g, gate ≠ .pure (.ok g)) (hwhole : whole = guarded body gate)
      (hidle : ∀ e, .act i e ∉ events)
  | within (hgate : gate = .pure (.ok granted)) (hwhole : whole = entered rest)

variable [DecidableEq I]

/-- A run of the whole, and the runs of the two parts in it. -/
structure Split {sys : System (EitherAnswer R T) E W S} {front : System R E₁ W₁ S₁}
    {back : System T E₂ W₂ S₂} (j : Joined sys front back) (gate : I → Program R (Except X G))
    (body : G → Program T A) (s : S) (events : List (Event I E W))
    (q : Pool (EitherAnswer R T) I (Except X A) S) where
  granted : I → G
  frontEvents : List (Event I E₁ W₁)
  frontPool : Pool R I (Except X G) S₁
  backEvents : List (Event I E₂ W₂)
  backPool : Pool T I A S₂
  front_run : run front ⟨j.frontView s, gate⟩ frontEvents = some frontPool
  back_run : run back ⟨j.backView s, fun i => body (granted i)⟩ backEvents = some backPool
  front_state : frontPool.state = j.frontView q.state
  back_state : backPool.state = j.backView q.state
  stage : ∀ i, Standing i body (granted i) backEvents (frontPool.threads i) (backPool.threads i)
    (q.threads i)
  /-- What the gates meet, they meet at some moment of the whole run. -/
  visited : ∀ past rest p, frontEvents = past ++ rest →
    run front ⟨j.frontView s, gate⟩ past = some p →
    ∃ past' rest' p', events = past' ++ rest' ∧
      run sys ⟨s, fun i => guarded body (gate i)⟩ past' = some p' ∧ p.state = j.frontView p'.state
  /-- What a gate has been answered, its program has been answered. -/
  answered : ∀ i c r, Answered front ⟨j.frontView s, gate⟩ i c r frontEvents →
    Answered sys ⟨s, fun i => guarded body (gate i)⟩ i (.inl c) r events

section Splitting
variable {sys : System (EitherAnswer R T) E W S} {front : System R E₁ W₁ S₁}
  {back : System T E₂ W₂ S₂}
  {j : Joined sys front back} {gate : I → Program R (Except X G)} {body : G → Program T A} {s : S}
  {events : List (Event I E W)} {q q' : Pool (EitherAnswer R T) I (Except X A) S} {ev : Event I E W}

/-- One more moment of the whole run is one more moment that the gates meet. -/
theorem Split.visited_snoc (h : Split j gate body s events q) {x : Event I E₁ W₁}
    {p₁ : Pool R I (Except X G) S₁}
    (hfront : run front ⟨j.frontView s, gate⟩ (h.frontEvents ++ [x]) = some p₁)
    (hwhole : run sys ⟨s, fun i => guarded body (gate i)⟩ (events ++ [ev]) = some q')
    (hstate : p₁.state = j.frontView q'.state) :
    ∀ past rest p, h.frontEvents ++ [x] = past ++ rest →
      run front ⟨j.frontView s, gate⟩ past = some p →
      ∃ past' rest' p', events ++ [ev] = past' ++ rest' ∧
        run sys ⟨s, fun i => guarded body (gate i)⟩ past' = some p' ∧
        p.state = j.frontView p'.state := by
  intro past rest p hsplit hp
  induction rest using List.reverseRecOn with
  | nil =>
      rw [List.append_nil] at hsplit
      rw [← hsplit, hfront] at hp
      cases hp
      exact ⟨events ++ [ev], [], q', by simp, hwhole, hstate⟩
  | append_singleton rest y _ =>
      rw [← List.append_assoc] at hsplit
      obtain ⟨hfirst, -⟩ := List.append_inj' hsplit rfl
      obtain ⟨past', rest', p', rfl, hp', hview⟩ := h.visited past rest p hfirst hp
      exact ⟨past', rest' ++ [ev], p', by simp, hp', hview⟩

/-- What happens to the gates from outside answers none of their calls. -/
theorem Split.answered_world (h : Split j gate body s events q) (w₁ : W₁) (ev : Event I E W) :
    ∀ i c r, Answered front ⟨j.frontView s, gate⟩ i c r (h.frontEvents ++ [.world w₁]) →
      Answered sys ⟨s, fun i => guarded body (gate i)⟩ i (.inl c) r (events ++ [ev]) := by
  intro i c r hanswered
  rcases hanswered.of_snoc h.front_run with hold | ⟨e, hev, -⟩
  · exact (h.answered i c r hold).append _
  · cases hev

theorem Split.world (h : Split j gate body s events q) {w : W}
    (hwhole : run sys ⟨s, fun i => guarded body (gate i)⟩ (events ++ [.world w]) = some q')
    (hstep : step sys q (.world w) = some q') :
    Nonempty (Split j gate body s (events ++ [.world w]) q') := by
  obtain ⟨henv, hthreads⟩ := step_world hstep
  obtain ⟨⟨w₁, hw₁⟩, hback⟩ := j.world henv
  rw [← h.front_state] at hw₁
  have hfront := run_world h.front_run hw₁
  rcases hback with hsame | ⟨w₂, hw₂⟩
  · exact ⟨{
      granted := h.granted
      frontEvents := _
      frontPool := _
      backEvents := h.backEvents
      backPool := h.backPool
      front_run := hfront
      back_run := h.back_run
      front_state := rfl
      back_state := h.back_state.trans hsame.symm
      stage := by
        rw [hthreads]
        exact h.stage
      visited := h.visited_snoc hfront hwhole rfl
      answered := h.answered_world w₁ _ }⟩
  · rw [← h.back_state] at hw₂
    exact ⟨{
      granted := h.granted
      frontEvents := _
      frontPool := _
      backEvents := _
      backPool := _
      front_run := hfront
      back_run := run_world h.back_run hw₂
      front_state := rfl
      back_state := rfl
      stage := by
        intro i
        rw [hthreads]
        cases h.stage i with
        | before hgate hwhole hidle => exact .before hgate hwhole (by simpa using hidle)
        | within hgate hwhole => exact .within hgate hwhole
      visited := h.visited_snoc hfront hwhole rfl
      answered := h.answered_world w₁ _ }⟩

/-- A step of a program that is before its gate is a step of the gate. -/
theorem Split.knock (h : Split j gate body s events q) {i : I} {e : E}
    (hp : run sys ⟨s, fun i => guarded body (gate i)⟩ events = some q)
    (hwhole : run sys ⟨s, fun i => guarded body (gate i)⟩ (events ++ [.act i e]) = some q')
    (hstep : step sys q (.act i e) = some q')
    (hgate : ∀ g, h.frontPool.threads i ≠ .pure (.ok g))
    (hthread : q.threads i = guarded body (h.frontPool.threads i))
    (hidle : ∀ e, .act i e ∉ h.backEvents) :
    Nonempty (Split j gate body s (events ++ [.act i e]) q') := by
  obtain ⟨c, next, r, hc, hexec, hthreads⟩ := step_guarded hthread hgate hstep
  obtain ⟨hback, e₁, he₁⟩ := j.front_call hexec
  rw [← h.front_state] at he₁
  have hfront := run_act h.front_run hc he₁
  -- what the gate lets pass from now on, if it has just ended well
  obtain ⟨g, hg⟩ := exists_granted (next r) (h.granted i)
  have hrun := run_of_idle (body g) hidle h.back_run
  have hstart : Function.update (fun k => body (h.granted k)) i (body g) =
      fun k => body (Function.update h.granted i g k) := by
    funext k
    exact (Function.apply_update (fun _ => body) h.granted i g k).symm
  rw [hstart] at hrun
  exact ⟨{
    granted := Function.update h.granted i g
    frontEvents := _
    frontPool := _
    backEvents := h.backEvents
    backPool := _
    front_run := hfront
    back_run := hrun
    front_state := rfl
    back_state := h.back_state.trans hback.symm
    stage := by
      intro k
      by_cases hk : k = i
      · subst hk
        rw [hthreads]
        simp only [Function.update_self]
        by_cases hok : next r = .pure (.ok g)
        · refine .within hok ?_
          rw [hok]
          rfl
        · refine .before ?_ rfl hidle
          intro g' hg'
          cases hg g' hg'
          exact hok hg'
      · rw [hthreads]
        simp only [Function.update_of_ne hk]
        exact h.stage k
    visited := h.visited_snoc hfront hwhole rfl
    answered := by
      intro k c' r' hanswered
      rcases hanswered.of_snoc h.front_run with hold | ⟨_, ⟨⟩, next', s', hc', hexec'⟩
      · exact (h.answered k c' r' hold).append _
      · cases hc.symm.trans hc'
        cases he₁.symm.trans hexec'
        exact .now hp ⟨_, _, by rw [hthread, hc]; rfl, hexec⟩ }⟩

/-- A step of a program that has been let pass is a step of its body. -/
theorem Split.proceed (h : Split j gate body s events q) {i : I} {e : E}
    (hwhole : run sys ⟨s, fun i => guarded body (gate i)⟩ (events ++ [.act i e]) = some q')
    (hstep : step sys q (.act i e) = some q')
    (hgate : h.frontPool.threads i = .pure (.ok (h.granted i)))
    (hthread : q.threads i = entered (h.backPool.threads i)) :
    Nonempty (Split j gate body s (events ++ [.act i e]) q') := by
  obtain ⟨d, next, r, hd, hexec, hthreads⟩ := step_entered hthread hstep
  obtain ⟨⟨e₂, he₂⟩, w₁, hw₁⟩ := j.back_call hexec
  rw [← h.front_state] at hw₁
  rw [← h.back_state] at he₂
  have hfront := run_world h.front_run hw₁
  exact ⟨{
    granted := h.granted
    frontEvents := _
    frontPool := _
    backEvents := _
    backPool := _
    front_run := hfront
    back_run := run_act h.back_run hd he₂
    front_state := rfl
    back_state := rfl
    stage := by
      intro k
      by_cases hk : k = i
      · subst hk
        refine .within hgate ?_
        simp only [hthreads, Function.update_self]
      · rw [hthreads]
        simp only [Function.update_of_ne hk]
        cases h.stage k with
        | before hgate hwhole hidle =>
            refine .before hgate hwhole ?_
            intro e' he'
            rcases List.mem_append.mp he' with hold | hnew
            · exact hidle e' hold
            · cases List.mem_singleton.mp hnew
              exact hk rfl
        | within hgate hwhole => exact .within hgate hwhole
    visited := h.visited_snoc hfront hwhole rfl
    answered := h.answered_world w₁ _ }⟩

theorem Split.start (j : Joined sys front back) (gate : I → Program R (Except X G))
    (body : G → Program T A) (s : S) (g₀ : G) :
    Nonempty (Split j gate body s ([] : List (Event I E W))
      ⟨s, fun i => guarded body (gate i)⟩) := by
  choose granted hgranted using fun i => exists_granted (gate i) g₀
  exact ⟨{
    granted := granted
    frontEvents := []
    frontPool := _
    backEvents := []
    backPool := _
    front_run := rfl
    back_run := rfl
    front_state := rfl
    back_state := rfl
    stage := by
      intro i
      by_cases hok : gate i = .pure (.ok (granted i))
      · refine .within hok ?_
        simp only [hok, guarded]
      · refine .before ?_ rfl (by simp)
        intro g' hg'
        cases hgranted i g' hg'
        exact hok hg'
    visited := by
      intro past rest p hsplit hp
      obtain ⟨rfl, rfl⟩ := List.nil_eq_append_iff.mp hsplit
      cases hp
      exact ⟨[], [], _, rfl, rfl, rfl⟩
    answered := by
      rintro i c r ⟨past, e, rest, p, hsplit, -⟩
      simp at hsplit }⟩

/-- Every run of guarded programs splits. -/
theorem exists_split (j : Joined sys front back) (g₀ : G)
    (hrun : run sys ⟨s, fun i => guarded body (gate i)⟩ events = some q) :
    Nonempty (Split j gate body s events q) := by
  induction events using List.reverseRecOn generalizing q with
  | nil =>
      cases hrun
      exact Split.start j gate body s g₀
  | append_singleton past ev ih =>
      have hwhole := hrun
      rw [run_append_singleton] at hrun
      obtain ⟨p, hp, hstep⟩ := Option.bind_eq_some_iff.mp hrun
      obtain ⟨h⟩ := ih hp
      cases ev with
      | world w => exact h.world hwhole hstep
      | act i e =>
          cases h.stage i with
          | before hgate hthread hidle => exact h.knock hp hwhole hstep hgate hthread hidle
          | within hgate hthread => exact h.proceed hwhole hstep hgate hthread

theorem outcome_entered {p : Program T A} {a : A}
    (h : (entered p : Program (EitherAnswer R T) (Except X A)) = .pure (.ok a)) : p = .pure a := by
  cases p with
  | pure b =>
      cases h
      rfl
  | call d next => cases h

/-- A guarded program that has come to a value was let pass, and the value is that of its
body. -/
theorem Split.outcome (h : Split j gate body s events q) {i : I} {a : A}
    (hend : q.outcome i = some (.ok a)) :
    h.frontPool.outcome i = some (.ok (h.granted i)) ∧ h.backPool.outcome i = some a := by
  simp only [Pool.outcome_eq_some] at hend ⊢
  cases h.stage i with
  | before hgate hthread hidle =>
      rw [hend] at hthread
      cases hp : h.frontPool.threads i with
      | pure result =>
          rw [hp] at hthread
          cases result with
          | error x => cases hthread
          | ok g => exact absurd hp (hgate g)
      | call c next =>
          rw [hp] at hthread
          cases hthread
  | within hgate hthread => exact ⟨hgate, outcome_entered (hthread.symm.trans hend)⟩

/-- Only programs that were let pass have taken a step of their body. -/
theorem Split.passed (h : Split j gate body s events q) {i : I} {e : E₂}
    (hact : .act i e ∈ h.backEvents) : h.frontPool.outcome i = some (.ok (h.granted i)) := by
  rw [Pool.outcome_eq_some]
  cases h.stage i with
  | before hgate hthread hidle => exact absurd hact (hidle e)
  | within hgate hthread => exact hgate

end Splitting
end Joining
end SimplyIpExporter.Gates
