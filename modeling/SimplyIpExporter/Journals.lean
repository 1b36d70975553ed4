import SimplyIpExporter.Interleaving
import Mathlib.Algebra.BigOperators.Ring.Finset

/-!
# Journals of interleaved runs

The journal of a run has an entry for each call that was made: by which program, with
what answer, and the state before and after it. What one program has done in a run is
read off its own entries; what all of them have done together is the sum over the
programs.
-/
namespace SimplyIpExporter.Journals
open Programs Interleaving

structure Entry {C : Type} (R : C → Type) (I S : Type) where
  thread : I
  call : C
  answer : R call
  before : S
  after : S

section Journal
variable {C : Type} {R : C → Type} {I A E W S : Type} [DecidableEq I]

/-- What an event adds. -/
def entries (sys : System R E W S) (p : Pool R I A S) : Event I E W → List (Entry R I S)
  | .world _ => []
  | .act i e =>
      match p.threads i with
      | .pure _ => []
      | .call c _ => ((sys.exec c e p.state).map fun answer =>
          (⟨i, c, answer.1, p.state, answer.2⟩ : Entry R I S)).toList

def journal (sys : System R E W S) (p : Pool R I A S) : List (Event I E W) → List (Entry R I S)
  | [] => []
  | ev :: es => entries sys p ev ++ ((step sys p ev).elim [] fun q => journal sys q es)

omit [DecidableEq I] in
theorem entries_act {sys : System R E W S} {p : Pool R I A S} {i : I} {e : E} {c : C}
    {next : R c → Program R A} {r : R c} {s' : S} (hc : p.threads i = .call c next)
    (hexec : sys.exec c e p.state = some (r, s')) :
    entries sys p (.act i e) = [⟨i, c, r, p.state, s'⟩] := by
  simp [entries, hc, hexec]

theorem journal_append_singleton {sys : System R E W S} {p q : Pool R I A S}
    {past : List (Event I E W)} (hrun : run sys p past = some q) (ev : Event I E W) :
    journal sys p (past ++ [ev]) = journal sys p past ++ entries sys q ev := by
  induction past generalizing p with
  | nil =>
      cases hrun
      cases hstep : step sys q ev <;> simp [journal, hstep]
  | cons ev₁ past ih =>
      rw [Interleaving.run, List.foldlM_cons] at hrun
      obtain ⟨p₁, hstep, hrest⟩ := Option.bind_eq_some_iff.mp hrun
      simp only [List.cons_append, journal, hstep, Option.elim_some, ih hrest, List.append_assoc]

/-- Every entry is a call as it was executed. -/
theorem exec_of_mem_journal {sys : System R E W S} {p : Pool R I A S} {es : List (Event I E W)}
    {en : Entry R I S} (h : en ∈ journal sys p es) :
    ∃ e, sys.exec en.call e en.before = some (en.answer, en.after) := by
  induction es generalizing p with
  | nil => cases h
  | cons ev es ih =>
      rcases List.mem_append.mp h with hfirst | hrest
      · cases ev with
        | world w => cases hfirst
        | act i e =>
            cases hc : p.threads i with
            | pure a => simp [entries, hc] at hfirst
            | call c next =>
                simp only [entries, hc] at hfirst
                obtain ⟨⟨r, s'⟩, hexec, rfl⟩ :=
                  Option.map_eq_some_iff.mp (Option.mem_toList.mp hfirst)
                exact ⟨e, hexec⟩
      · cases hstep : step sys p ev with
        | none =>
            rw [hstep] at hrest
            cases hrest
        | some q =>
            rw [hstep] at hrest
            exact ih hrest

/-- The entries of one program. -/
def ownEntries (i : I) (j : List (Entry R I S)) : List (Entry R I S) :=
  j.filter fun en => decide (en.thread = i)

theorem ownEntries_append (i : I) (j j' : List (Entry R I S)) :
    ownEntries i (j ++ j') = ownEntries i j ++ ownEntries i j' := List.filter_append ..

theorem ownEntries_self {i : I} {en : Entry R I S} (h : en.thread = i) :
    ownEntries i [en] = [en] := by
  simp [ownEntries, h]

theorem ownEntries_other {i : I} {en : Entry R I S} (h : en.thread ≠ i) :
    ownEntries i [en] = [] := by
  simp [ownEntries, h]

/-- A count over a journal is the sum of the counts of the programs. -/
theorem sum_ownEntries [Fintype I] (measure : Entry R I S → ℕ) (j : List (Entry R I S)) :
    (j.map measure).sum = ∑ i, ((ownEntries i j).map measure).sum := by
  induction j with
  | nil => simp [ownEntries]
  | cons en j ih =>
      have hsplit : ∀ i, ((ownEntries i (en :: j)).map measure).sum =
          (if en.thread = i then measure en else 0) + ((ownEntries i j).map measure).sum := by
        intro i
        by_cases h : en.thread = i
        · simp [ownEntries, h]
        · simp [ownEntries, h]
      simp only [List.map_cons, List.sum_cons, ih, hsplit, Finset.sum_add_distrib,
        Finset.sum_ite_eq, Finset.mem_univ, if_true]

end Journal

section Splits
variable {X : Type}

/-- Every element is good after those that stand before it. -/
def Throughout (good : List X → X → Prop) (xs : List X) : Prop :=
  ∀ past x rest, xs = past ++ x :: rest → good past x

/-- Where a longer list is split: at its last element, or before. -/
theorem split_snoc {xs past rest : List X} {x y : X} (h : xs ++ [y] = past ++ x :: rest) :
    (past = xs ∧ x = y ∧ rest = []) ∨ ∃ rest', rest = rest' ++ [y] ∧ xs = past ++ x :: rest' := by
  induction rest using List.reverseRecOn with
  | nil =>
      obtain ⟨hpast, hx⟩ := List.append_inj' h rfl
      exact .inl ⟨hpast.symm, (List.cons.inj hx).1.symm, rfl⟩
  | append_singleton rest' z _ =>
      have hassoc : past ++ x :: (rest' ++ [z]) = (past ++ x :: rest') ++ [z] := by simp
      rw [hassoc] at h
      obtain ⟨hxs, hz⟩ := List.append_inj' h rfl
      rw [(List.cons.inj hz).1]
      exact .inr ⟨rest', rfl, hxs⟩

theorem Throughout.nil {good : List X → X → Prop} : Throughout good [] := by
  intro past x rest h
  simp at h

theorem Throughout.snoc {good : List X → X → Prop} {xs : List X} {y : X} (h : Throughout good xs)
    (hy : good xs y) : Throughout good (xs ++ [y]) := by
  intro past x rest hsplit
  rcases split_snoc hsplit with ⟨rfl, rfl, -⟩ | ⟨rest', -, hold⟩
  · exact hy
  · exact h past x rest' hold

end Splits
end SimplyIpExporter.Journals
