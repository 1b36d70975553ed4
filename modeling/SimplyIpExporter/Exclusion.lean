import SimplyIpExporter.Interleaving

/-!
# One holder at a time

Programs that take a lock, keep it over several calls and give it back. Where a program
stands is read off its watching state; the lock itself is one bit of the shared state.
While the bit is clear nobody holds the lock, and never do two.
-/
namespace SimplyIpExporter.Exclusion

section Holders
variable {I M : Type} [DecidableEq I] {holds : M → Bool} {ms : I → M} {locked : Bool} {i : I}
  {m' : M}

structure Exclusive (holds : M → Bool) (ms : I → M) (locked : Bool) : Prop where
  free : locked = false → ∀ i, holds (ms i) = false
  one : ∀ i k, holds (ms i) = true → holds (ms k) = true → i = k

omit [DecidableEq I] in
theorem Exclusive.start {ms : I → M} (h : ∀ i, holds (ms i) = false) :
    Exclusive holds ms false where
  free _ := h
  one i k hi _ := by
    rw [h i] at hi
    cases hi

/-- The lock is taken while it is free. -/
theorem Exclusive.acquire (h : Exclusive holds ms false) (m' : M) :
    Exclusive holds (Function.update ms i m') true where
  free hfree := by cases hfree
  one k l hk hl := by
    have honly : ∀ k, holds (Function.update ms i m' k) = true → k = i := by
      intro k hk
      by_contra hne
      rw [Function.update_of_ne hne, h.free rfl k] at hk
      cases hk
    rw [honly k hk, honly l hl]

/-- The holder gives it back. -/
theorem Exclusive.release (h : Exclusive holds ms locked) (hi : holds (ms i) = true)
    (hm' : holds m' = false) : Exclusive holds (Function.update ms i m') false := by
  apply Exclusive.start
  intro k
  by_cases hk : k = i
  · rw [hk, Function.update_self]
    exact hm'
  · rw [Function.update_of_ne hk]
    cases hholds : holds (ms k) with
    | false => rfl
    | true => exact absurd (h.one k i hholds hi) hk

/-- A program that neither takes the lock nor gives it back. -/
theorem Exclusive.keep (h : Exclusive holds ms locked) (hm' : holds m' = holds (ms i)) :
    Exclusive holds (Function.update ms i m') locked := by
  have hsame : ∀ k, holds (Function.update ms i m' k) = holds (ms k) := by
    intro k
    by_cases hk : k = i
    · rw [hk, Function.update_self]
      exact hm'
    · rw [Function.update_of_ne hk]
  refine ⟨?_, ?_⟩
  · intro hfree k
    rw [hsame]
    exact h.free hfree k
  · intro k l hk hl
    rw [hsame] at hk hl
    exact h.one k l hk hl

end Holders
end SimplyIpExporter.Exclusion
