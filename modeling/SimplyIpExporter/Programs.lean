import Mathlib.Data.List.Induction
import Mathlib.Logic.Function.Basic

/-!
# Programs that call an environment

A program is a tree of calls; each answer selects the rest of the program. What a
call does is left to an interpreter `exec`, which is given a choice of the
environment and the current state, and may refuse a choice that cannot occur.

A policy watches a program from outside. It says which calls are permitted in its
present watching state and how that state may move on an answer. A program
follows a policy when every call on every branch is permitted, so following is a
property of the text alone and is proved once for each program. What the policy
then guarantees about executions is proved once for the interpreter.
-/
namespace SimplyIpExporter.Programs

inductive Program {C : Type} (R : C → Type) (A : Type) : Type where
  | pure (a : A)
  | call (c : C) (next : R c → Program R A)

section Basic
variable {C : Type} {R : C → Type} {A B : Type}

def Program.bind : Program R A → (A → Program R B) → Program R B
  | .pure a, f => f a
  | .call c next, f => .call c fun r => (next r).bind f

instance : Monad (Program R) where
  pure := .pure
  bind := .bind

/-- One call, answering what it answers. -/
def perform (c : C) : Program R (R c) := .call c .pure

/-- The call a program is about to make. -/
def Program.upcoming : Program R A → Option C
  | .pure _ => none
  | .call c _ => some c

/-- The program dropped after a number of calls, unless it has ended by then. -/
def dropAfter : ℕ → Program R A → Program R (Option A)
  | _, .pure a => .pure (some a)
  | 0, .call _ _ => .pure none
  | n + 1, .call c next => .call c fun r => dropAfter n (next r)

section Failing
variable {E : Type}

/-- One call inside a program that may fail. -/
def ask (c : C) : ExceptT E (Program R) (R c) := Program.call c fun r => .pure (.ok r)

/-- A program that cannot fail, inside one that may. -/
def always (p : Program R A) : ExceptT E (Program R) A :=
  show Program R (Except E A) from p >>= fun a => .pure (.ok a)

/-- The outcome of a computation that needs no call. -/
def attempt (x : Except E A) : ExceptT E (Program R) A := Program.pure x

end Failing
end Basic

section Execution
variable {C : Type} {R : C → Type} {A E S : Type}

/-- Executes a program to its end, one choice for each call. -/
def run (exec : (c : C) → E → S → Option (R c × S)) :
    Program R A → List E → S → Option (A × S)
  | .pure a, [], s => some (a, s)
  | .pure _, _ :: _, _ => none
  | .call _ _, [], _ => none
  | .call c next, e :: es, s =>
      (exec c e s).bind fun answer => run exec (next answer.1) es answer.2

section Sequencing
variable {exec : (c : C) → E → S → Option (R c × S)} {B F : Type} {s s' : S} {a : A} {es : List E}

theorem run_bind {p : Program R A} {f : A → Program R B}
    (h : run exec p es s = some (a, s')) (es' : List E) :
    run exec (p >>= f) (es ++ es') s = run exec (f a) es' s' := by
  induction p generalizing es s with
  | pure b =>
      cases es with
      | nil =>
          obtain ⟨rfl, rfl⟩ : b = a ∧ s = s' := by simpa [run] using h
          rfl
      | cons e es => simp [run] at h
  | call c next ih =>
      cases es with
      | nil => simp [run] at h
      | cons e es =>
          obtain ⟨⟨r, s₁⟩, hexec, hrest⟩ := Option.bind_eq_some_iff.mp h
          have hcall : run exec (Program.call c next >>= f) (e :: es ++ es') s =
              run exec (next r >>= f) (es ++ es') s₁ := by
            change (exec c e s).bind _ = _
            rw [hexec]
            rfl
          rw [hcall, ih r hrest]

theorem run_always_bind {p : Program R A} {f : A → ExceptT F (Program R) B}
    (h : run exec p es s = some (a, s')) (es' : List E) :
    run exec (always p >>= f : ExceptT F (Program R) B) (es ++ es') s = run exec (f a) es' s' := by
  have hok : run exec (always p : ExceptT F (Program R) A) es s = some (.ok a, s') := by
    have hend := run_bind (f := fun a => Program.pure (Except.ok a : Except F A)) h []
    rw [List.append_nil] at hend
    exact hend
  exact run_bind hok es'

theorem run_attempt_bind {x : Except F A} {f : A → ExceptT F (Program R) B} (h : x = .ok a)
    (es' : List E) (s : S) :
    run exec (attempt x >>= f : ExceptT F (Program R) B) es' s = run exec (f a) es' s := by
  subst h
  rfl

theorem run_ask_bind {c : C} {r : R c} {e : E} {f : R c → ExceptT F (Program R) B}
    (h : exec c e s = some (r, s')) (es' : List E) :
    run exec (ask c >>= f : ExceptT F (Program R) B) (e :: es') s = run exec (f r) es' s' := by
  change (exec c e s).bind _ = _
  rw [h]
  rfl

theorem run_perform_bind {c : C} {r : R c} {e : E} {f : R c → Program R B}
    (h : exec c e s = some (r, s')) (es' : List E) :
    run exec (perform c >>= f) (e :: es') s = run exec (f r) es' s' := by
  change (exec c e s).bind _ = _
  rw [h]
  rfl

theorem exists_of_run_perform_bind {c : C} {f : R c → Program R B} {x : B × S}
    (h : run exec (perform c >>= f) es s = some x) :
    ∃ e es', es = e :: es' ∧ ∃ r s', exec c e s = some (r, s') ∧
      run exec (f r) es' s' = some x := by
  cases es with
  | nil => cases h
  | cons e es' =>
      obtain ⟨⟨r, s'⟩, hexec, hrest⟩ := Option.bind_eq_some_iff.mp h
      exact ⟨e, es', rfl, r, s', hexec, hrest⟩

end Sequencing

/-- Executes a program to its end where the state alone decides every answer. -/
def settle (reply : (c : C) → S → R c × S) : Program R A → S → A × S
  | .pure a, s => (a, s)
  | .call c next, s => settle reply (next (reply c s).1) (reply c s).2

section Settling
variable {reply : (c : C) → S → R c × S} {B F : Type} {s : S}

theorem settle_bind (p : Program R A) (f : A → Program R B) (s : S) :
    settle reply (p >>= f) s = settle reply (f (settle reply p s).1) (settle reply p s).2 := by
  induction p generalizing s with
  | pure a => rfl
  | call c next ih => exact ih (reply c s).1 (reply c s).2

theorem settle_perform_bind {c : C} {r : R c} {s' : S} (h : reply c s = (r, s'))
    (f : R c → Program R B) : settle reply (perform c >>= f) s = settle reply (f r) s' := by
  change settle reply (f (reply c s).1) (reply c s).2 = _
  rw [h]

theorem settle_ask_bind {c : C} {r : R c} {s' : S} (h : reply c s = (r, s'))
    (f : R c → ExceptT F (Program R) B) :
    settle reply (ask c >>= f : ExceptT F (Program R) B) s = settle reply (f r) s' := by
  change settle reply (f (reply c s).1) (reply c s).2 = _
  rw [h]

theorem settle_attempt_bind {x : Except F A} {a : A} (h : x = .ok a)
    (f : A → ExceptT F (Program R) B) (s : S) :
    settle reply (attempt x >>= f : ExceptT F (Program R) B) s = settle reply (f a) s := by
  subst h
  rfl

theorem settle_always_bind {p : Program R A} {a : A} {s' : S} (h : settle reply p s = (a, s'))
    (f : A → ExceptT F (Program R) B) :
    settle reply (always p >>= f : ExceptT F (Program R) B) s = settle reply (f a) s' := by
  have hbind : (always p >>= f : ExceptT F (Program R) B) =
      (p >>= fun a => (Program.pure (.ok a) : Program R (Except F A))) >>= ExceptT.bindCont f := rfl
  rw [hbind, settle_bind, settle_bind, h]
  rfl

/-- A part that fails ends the whole. -/
theorem settle_except_error {x : ExceptT F (Program R) A} {e : F} {s' : S}
    (h : settle reply (show Program R (Except F A) from x) s = (.error e, s'))
    (f : A → ExceptT F (Program R) B) :
    settle reply (x >>= f : ExceptT F (Program R) B) s = (.error e, s') := by
  have hbind : (x >>= f : ExceptT F (Program R) B) =
      (show Program R (Except F A) from x) >>= ExceptT.bindCont f := rfl
  rw [hbind, settle_bind, h]
  rfl

theorem settle_except_ok {x : ExceptT F (Program R) A} {a : A} {s' : S}
    (h : settle reply (show Program R (Except F A) from x) s = (.ok a, s'))
    (f : A → ExceptT F (Program R) B) :
    settle reply (x >>= f : ExceptT F (Program R) B) s = settle reply (f a) s' := by
  have hbind : (x >>= f : ExceptT F (Program R) B) =
      (show Program R (Except F A) from x) >>= ExceptT.bindCont f := rfl
  rw [hbind, settle_bind, h]
  rfl

/-- Such an execution is one of those with choices, if some choice has every answer. -/
theorem exists_run_eq_settle {exec : (c : C) → E → S → Option (R c × S)}
    (hreply : ∀ c s, ∃ e, exec c e s = some (reply c s)) (p : Program R A) (s : S) :
    ∃ es, run exec p es s = some (settle reply p s) := by
  induction p generalizing s with
  | pure a => exact ⟨[], rfl⟩
  | call c next ih =>
      obtain ⟨e, he⟩ := hreply c s
      obtain ⟨es, hes⟩ := ih (reply c s).1 (reply c s).2
      refine ⟨e :: es, ?_⟩
      rw [run, he, Option.bind_some, hes]
      rfl

end Settling

end Execution

structure Policy {C : Type} (R : C → Type) (M : Type) where
  permits : M → C → Prop
  moves : M → (c : C) → R c → M → Prop

section Policies
variable {C : Type} {R : C → Type} {M A B E S : Type} {P : Policy R M} {c : C}

/-- Every call of the program is permitted when it is made, and the value it ends
with is related by `post` to the watching state reached. -/
def Follows (P : Policy R M) (post : M → A → Prop) : Program R A → M → Prop
  | .pure a, m => post m a
  | .call c next, m =>
      P.permits m c ∧ ∀ r m', P.moves m c r m' → Follows P post (next r) m'

theorem Follows.pure {post : M → A → Prop} {a : A} {m : M} (h : post m a) :
    Follows P post (Pure.pure a) m := h

theorem follows_call {post : M → A → Prop} {next : R c → Program R A} {m : M} :
    Follows P post (Program.call c next) m ↔
      P.permits m c ∧ ∀ r m', P.moves m c r m' → Follows P post (next r) m' := Iff.rfl

theorem follows_value {post : M → A → Prop} {a : A} {m : M} :
    Follows P post (Program.pure a) m ↔ post m a := Iff.rfl

theorem Follows.permits_upcoming {post : M → A → Prop} {p : Program R A} {m : M}
    (h : Follows P post p m) (hc : p.upcoming = some c) : P.permits m c := by
  cases p with
  | pure a => cases hc
  | call c' next =>
      cases hc
      exact h.1

theorem Follows.mono {post post' : M → A → Prop} (himp : ∀ m a, post m a → post' m a)
    {p : Program R A} {m : M} (h : Follows P post p m) : Follows P post' p m := by
  induction p generalizing m with
  | pure a => exact himp m a h
  | call c next ih => exact ⟨h.1, fun r m' hm => ih r (h.2 r m' hm)⟩

/-- A program that follows one policy follows every policy that permits as much and
whose moves the first can match. -/
theorem Follows.weaken {N : Type} {Q : Policy R N} {L : M → N → Prop}
    (hpermits : ∀ m n c, L m n → P.permits m c → Q.permits n c)
    (hmoves : ∀ m n c r n', L m n → P.permits m c → Q.moves n c r n' →
      ∃ m', P.moves m c r m' ∧ L m' n')
    {p : Program R A} {m : M} {n : N} (hrel : L m n) (h : Follows P (fun _ _ => True) p m) :
    Follows Q (fun _ _ => True) p n := by
  induction p generalizing m n with
  | pure a => trivial
  | call c next ih =>
      refine ⟨hpermits m n c hrel h.1, ?_⟩
      intro r n' hn
      obtain ⟨m', hm, hrel'⟩ := hmoves m n c r n' hrel h.1 hn
      exact ih r hrel' (h.2 r m' hm)

/-- Where the first policy always has a move, only what is permitted has to be compared. -/
theorem Follows.relax {N : Type} {Q : Policy R N}
    (hpermits : ∀ m n c, P.permits m c → Q.permits n c) (hmoves : ∀ m c r, ∃ m', P.moves m c r m')
    {p : Program R A} {m : M} (n : N) (h : Follows P (fun _ _ => True) p m) :
    Follows Q (fun _ _ => True) p n := by
  refine Follows.weaken (L := fun _ _ => True) ?_ ?_ trivial h
  · intro m n c _ hc
    exact hpermits m n c hc
  · intro m _ c r _ _ _ _
    obtain ⟨m', hm'⟩ := hmoves m c r
    exact ⟨m', hm', trivial⟩

/-- A policy that permits everything asks nothing of a program. -/
theorem Follows.of_permits_all (hall : ∀ m c, P.permits m c) (p : Program R A) (m : M) :
    Follows P (fun _ _ => True) p m := by
  induction p generalizing m with
  | pure a => trivial
  | call c next ih => exact ⟨hall m c, fun r m' _ => ih r m'⟩

/-- Any calls, any answers. -/
def anything (R : C → Type) : Policy R Unit := ⟨fun _ _ => True, fun _ _ _ _ => True⟩

theorem Follows.perform {post : M → R c → Prop} {m : M} (hc : P.permits m c)
    (hpost : ∀ r m', P.moves m c r m' → post m' r) : Follows P post (Programs.perform c) m :=
  ⟨hc, hpost⟩

theorem Follows.perform_bind {post : M → B → Prop} {f : R c → Program R B} {m : M}
    (hc : P.permits m c) (hnext : ∀ r m', P.moves m c r m' → Follows P post (f r) m') :
    Follows P post (Programs.perform c >>= f) m :=
  ⟨hc, hnext⟩

/-- Sequencing: whatever the first part establishes, the rest starts from. -/
theorem Follows.bind {mid : M → A → Prop} {post : M → B → Prop} {p : Program R A}
    {f : A → Program R B} {m : M} (h : Follows P mid p m)
    (hrest : ∀ m a, mid m a → Follows P post (f a) m) : Follows P post (p >>= f) m := by
  induction p generalizing m with
  | pure a => exact hrest m a h
  | call c next ih => exact ⟨h.1, fun r m' hm => ih r (h.2 r m' hm)⟩

/-- What is dropped has kept to the policy up to there. -/
theorem Follows.dropAfter {post : M → A → Prop} {p : Program R A} {m : M} (n : ℕ)
    (h : Follows P post p m) : Follows P (fun _ _ => True) (Programs.dropAfter n p) m := by
  induction p generalizing m n with
  | pure a =>
      rw [Programs.dropAfter]
      trivial
  | call c next ih =>
      cases n with
      | zero => trivial
      | succ n => exact ⟨h.1, fun r m' hm => ih r n (h.2 r m' hm)⟩

section Failing
variable {post : M → Except E B → Prop} {m : M}

/-- Sequencing of programs that may fail: an error of the first part ends the
whole program, a value continues it. -/
theorem Follows.except_bind {mid : M → Except E A → Prop} {x : ExceptT E (Program R) A}
    {f : A → ExceptT E (Program R) B} (h : Follows P mid x m)
    (herror : ∀ m e, mid m (.error e) → post m (.error e))
    (hrest : ∀ m a, mid m (.ok a) → Follows P post (f a) m) :
    Follows P post (x >>= f : ExceptT E (Program R) B) m := by
  have hbind : (x >>= f : ExceptT E (Program R) B) =
      (show Program R (Except E A) from x) >>= ExceptT.bindCont f := rfl
  rw [hbind]
  apply Follows.bind h
  intro m result hmid
  cases result with
  | error e => exact herror m e hmid
  | ok a => exact hrest m a hmid

theorem Follows.ok {b : B} (h : post m (.ok b)) :
    Follows P post (Pure.pure b : ExceptT E (Program R) B) m := h

theorem Follows.throw {e : E} (h : post m (.error e)) :
    Follows P post (MonadExcept.throw e : ExceptT E (Program R) B) m := h

theorem Follows.ask_bind {f : R c → ExceptT E (Program R) B} (hc : P.permits m c)
    (hnext : ∀ r m', P.moves m c r m' → Follows P post (f r) m') :
    Follows P post (ask c >>= f : ExceptT E (Program R) B) m :=
  ⟨hc, hnext⟩

theorem Follows.always_bind {mid : M → A → Prop} {p : Program R A}
    {f : A → ExceptT E (Program R) B} (h : Follows P mid p m)
    (hrest : ∀ m a, mid m a → Follows P post (f a) m) :
    Follows P post (always p >>= f : ExceptT E (Program R) B) m := by
  have hp : Follows P (fun m (result : Except E A) => ∃ a, result = .ok a ∧ mid m a) (always p) m :=
    h.bind fun m a hmid => show ∃ a', Except.ok a = Except.ok a' ∧ mid m a' from ⟨a, rfl, hmid⟩
  apply Follows.except_bind hp
  · rintro m e ⟨a, ha, -⟩
    cases ha
  · rintro m a ⟨a', ha, hmid⟩
    cases ha
    exact hrest m a hmid

theorem Follows.attempt_bind {x : Except E A} {f : A → ExceptT E (Program R) B}
    (herror : ∀ e, x = .error e → post m (.error e))
    (hrest : ∀ a, x = .ok a → Follows P post (f a) m) :
    Follows P post (attempt x >>= f : ExceptT E (Program R) B) m := by
  cases x with
  | error e => exact herror e rfl
  | ok a => exact hrest a rfl

end Failing

/-- A program that follows a policy keeps whatever the permitted calls keep. -/
theorem Follows.run {exec : (c : C) → E → S → Option (R c × S)} {Inv : M → S → Prop}
    (hstep : ∀ m c e s r s', Inv m s → P.permits m c → exec c e s = some (r, s') →
      ∃ m', P.moves m c r m' ∧ Inv m' s')
    {post : M → A → Prop} {p : Program R A} {m : M} (h : Follows P post p m)
    {es : List E} {s s' : S} {a : A} (hinv : Inv m s)
    (hrun : Programs.run exec p es s = some (a, s')) : ∃ m', post m' a ∧ Inv m' s' := by
  induction p generalizing m es s with
  | pure b =>
      cases es with
      | nil =>
          obtain ⟨rfl, rfl⟩ : b = a ∧ s = s' := by simpa [Programs.run] using hrun
          exact ⟨m, h, hinv⟩
      | cons e es => simp [Programs.run] at hrun
  | call c next ih =>
      cases es with
      | nil => simp [Programs.run] at hrun
      | cons e es =>
          obtain ⟨⟨r, s₁⟩, hexec, hrest⟩ := Option.bind_eq_some_iff.mp hrun
          obtain ⟨m', hm, hinv'⟩ := hstep m c e s r s₁ hinv h.1 hexec
          exact ih r (h.2 r m' hm) hinv' hrest

-- Unification must not evaluate programs: the rules above are the interface.
attribute [irreducible] Follows

end Policies

section TwoRuns
variable {C : Type} {R : C → Type} {A A' B B' E S : Type}

/-- Two programs run from two states make the same calls under the same choices, leave their
states as they are, and end with related values. -/
inductive InStep (exec : (c : C) → E → S → Option (R c × S)) (s₁ s₂ : S) (rel : A → A' → Prop) :
    Program R A → Program R A' → Prop
  | value {a : A} {a' : A'} (h : rel a a') : InStep exec s₁ s₂ rel (.pure a) (.pure a')
  | call {c : C} {next₁ : R c → Program R A} {next₂ : R c → Program R A'}
      (hboth : ∀ e, (exec c e s₁ = none ∧ exec c e s₂ = none) ∨
        ∃ r₁ r₂, exec c e s₁ = some (r₁, s₁) ∧ exec c e s₂ = some (r₂, s₂))
      (hnext : ∀ e r₁ r₂, exec c e s₁ = some (r₁, s₁) → exec c e s₂ = some (r₂, s₂) →
        InStep exec s₁ s₂ rel (next₁ r₁) (next₂ r₂)) :
      InStep exec s₁ s₂ rel (.call c next₁) (.call c next₂)

variable {exec : (c : C) → E → S → Option (R c × S)} {s₁ s₂ : S} {rel : A → A' → Prop}

theorem InStep.run {p₁ : Program R A} {p₂ : Program R A'} (h : InStep exec s₁ s₂ rel p₁ p₂)
    (es : List E) :
    (Programs.run exec p₁ es s₁ = none ∧ Programs.run exec p₂ es s₂ = none) ∨
      ∃ a a', rel a a' ∧ Programs.run exec p₁ es s₁ = some (a, s₁) ∧
        Programs.run exec p₂ es s₂ = some (a', s₂) := by
  induction h generalizing es with
  | @value a a' hrel =>
      cases es with
      | nil => exact .inr ⟨a, a', hrel, rfl, rfl⟩
      | cons e es => exact .inl ⟨rfl, rfl⟩
  | @call c next₁ next₂ hboth hnext ih =>
      cases es with
      | nil => exact .inl ⟨rfl, rfl⟩
      | cons e es =>
          simp only [Programs.run]
          rcases hboth e with ⟨h₁, h₂⟩ | ⟨r₁, r₂, h₁, h₂⟩
          · rw [h₁, h₂]
            exact .inl ⟨rfl, rfl⟩
          · rw [h₁, h₂]
            exact ih e r₁ r₂ h₁ h₂ es

theorem InStep.bind {rel' : B → B' → Prop} {p₁ : Program R A} {p₂ : Program R A'}
    {f₁ : A → Program R B} {f₂ : A' → Program R B'} (h : InStep exec s₁ s₂ rel p₁ p₂)
    (hrest : ∀ a a', rel a a' → InStep exec s₁ s₂ rel' (f₁ a) (f₂ a')) :
    InStep exec s₁ s₂ rel' (p₁ >>= f₁) (p₂ >>= f₂) := by
  induction h with
  | @value a a' hrel => exact hrest a a' hrel
  | @call c next₁ next₂ hboth hnext ih => exact .call hboth ih

section Failing
variable {F : Type} {rel : Except F B → Except F B' → Prop}

theorem InStep.except_bind {mid : Except F A → Except F A' → Prop} {x₁ : ExceptT F (Program R) A}
    {x₂ : ExceptT F (Program R) A'} {f₁ : A → ExceptT F (Program R) B}
    {f₂ : A' → ExceptT F (Program R) B'} (h : InStep exec s₁ s₂ mid x₁ x₂)
    (hrest : ∀ result result', mid result result' →
      InStep exec s₁ s₂ rel (ExceptT.bindCont f₁ result) (ExceptT.bindCont f₂ result')) :
    InStep exec s₁ s₂ rel (x₁ >>= f₁ : ExceptT F (Program R) B)
      (x₂ >>= f₂ : ExceptT F (Program R) B') :=
  InStep.bind h hrest

theorem InStep.ask_bind {c : C} {f₁ : R c → ExceptT F (Program R) B}
    {f₂ : R c → ExceptT F (Program R) B'}
    (hboth : ∀ e, (exec c e s₁ = none ∧ exec c e s₂ = none) ∨
      ∃ r₁ r₂, exec c e s₁ = some (r₁, s₁) ∧ exec c e s₂ = some (r₂, s₂))
    (hnext : ∀ e r₁ r₂, exec c e s₁ = some (r₁, s₁) → exec c e s₂ = some (r₂, s₂) →
      InStep exec s₁ s₂ rel (f₁ r₁) (f₂ r₂)) :
    InStep exec s₁ s₂ rel (ask c >>= f₁ : ExceptT F (Program R) B)
      (ask c >>= f₂ : ExceptT F (Program R) B') :=
  .call hboth hnext

theorem InStep.always_bind {mid : A → A' → Prop} {p₁ : Program R A} {p₂ : Program R A'}
    {f₁ : A → ExceptT F (Program R) B} {f₂ : A' → ExceptT F (Program R) B'}
    (h : InStep exec s₁ s₂ mid p₁ p₂)
    (hrest : ∀ a a', mid a a' → InStep exec s₁ s₂ rel (f₁ a) (f₂ a')) :
    InStep exec s₁ s₂ rel (always p₁ >>= f₁ : ExceptT F (Program R) B)
      (always p₂ >>= f₂ : ExceptT F (Program R) B') := by
  have hvalues : InStep exec s₁ s₂ (fun (result : Except F A) (result' : Except F A') =>
      ∃ a a', result = .ok a ∧ result' = .ok a' ∧ mid a a')
      (show Program R (Except F A) from always p₁) (show Program R (Except F A') from always p₂) :=
    h.bind fun a a' hmid => .value ⟨a, a', rfl, rfl, hmid⟩
  refine InStep.bind hvalues ?_
  rintro _ _ ⟨a, a', rfl, rfl, hmid⟩
  exact hrest a a' hmid

end Failing
end TwoRuns
end SimplyIpExporter.Programs
