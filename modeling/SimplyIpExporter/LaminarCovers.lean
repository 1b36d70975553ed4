import Mathlib.Data.Finset.Card
import Mathlib.Data.Set.Function
import Mathlib.Order.WellFounded

/-!
# Smallest covers by blocks of a laminar family

Any two blocks of a laminar family are disjoint or nested. A set that is a union of
blocks then has a single smallest cover: the blocks that are largest among those
inside the set. So a function that returns a smallest cover depends only on the set
covered, not on the blocks it was given.
-/
namespace SimplyIpExporter.LaminarCovers

section Covers
variable {ι α : Type*}

/-- Named blocks, any two disjoint or nested, with no infinite ascent. -/
structure Laminar (names : Set ι) (block : ι → Set α) (rank : ι → ℕ) : Prop where
  nonempty : ∀ i ∈ names, (block i).Nonempty
  injOn : Set.InjOn block names
  nested : ∀ i ∈ names, ∀ j ∈ names, ∀ x, x ∈ block i → x ∈ block j →
    block i ⊆ block j ∨ block j ⊆ block i
  ascent : ∀ i ∈ names, ∀ j ∈ names, block i ⊆ block j → i ≠ j → rank j < rank i

/-- A block inside `target` that no other block inside `target` includes. -/
def Largest (names : Set ι) (block : ι → Set α) (target : Set α) (i : ι) : Prop :=
  i ∈ names ∧ block i ⊆ target ∧ ∀ j ∈ names, block j ⊆ target → block i ⊆ block j → j = i

structure IsCover (names : Set ι) (block : ι → Set α) (target : Set α) (cover : Finset ι) :
    Prop where
  named : ∀ i ∈ cover, i ∈ names
  mem_iff : ∀ x, (∃ i ∈ cover, x ∈ block i) ↔ x ∈ target

variable {names : Set ι} {block : ι → Set α} {rank : ι → ℕ} {target : Set α} {cover : Finset ι}

theorem IsCover.subset (h : IsCover names block target cover) {i : ι} (hi : i ∈ cover) :
    block i ⊆ target := fun x hx => (h.mem_iff x).mp ⟨i, hi, hx⟩

theorem Laminar.exists_largest (h : Laminar names block rank) {i : ι} (hi : i ∈ names)
    (hsub : block i ⊆ target) : ∃ j, Largest names block target j ∧ block i ⊆ block j := by
  -- among the blocks between `i` and the target, one of least rank
  induction hrank : rank i using Nat.strong_induction_on generalizing i with
  | _ n ih =>
      by_cases hlargest : ∀ j ∈ names, block j ⊆ target → block i ⊆ block j → j = i
      · exact ⟨i, ⟨hi, hsub, hlargest⟩, subset_rfl⟩
      · push Not at hlargest
        obtain ⟨j, hj, hjsub, hij, hne⟩ := hlargest
        have hlt : rank j < n := hrank ▸ h.ascent i hi j hj hij (Ne.symm hne)
        obtain ⟨k, hk, hjk⟩ := ih (rank j) hlt hj hjsub rfl
        exact ⟨k, hk, hij.trans hjk⟩

theorem Laminar.largest_unique (h : Laminar names block rank) {i j : ι} {x : α}
    (hi : Largest names block target i) (hj : Largest names block target j)
    (hxi : x ∈ block i) (hxj : x ∈ block j) : i = j := by
  rcases h.nested i hi.1 j hj.1 x hxi hxj with hij | hji
  · exact (hi.2.2 j hj.1 hj.2.1 hij).symm
  · exact hj.2.2 i hi.1 hi.2.1 hji

/-- A smallest cover consists of the largest blocks inside what it covers. -/
theorem Laminar.mem_smallest_iff (h : Laminar names block rank)
    (hcover : IsCover names block target cover)
    (hsmallest : ∀ other, IsCover names block target other → cover.card ≤ other.card) (i : ι) :
    i ∈ cover ↔ Largest names block target i := by
  classical
  have hexists : ∀ c ∈ cover, ∃ j, Largest names block target j ∧ block c ⊆ block j :=
    fun c hc => h.exists_largest (hcover.named c hc) (hcover.subset hc)
  choose! grow hgrow hinside using hexists
  -- growing every block gives another cover, which cannot be smaller
  have hgrown : IsCover names block target (cover.image grow) := by
    constructor
    · intro j hj
      obtain ⟨c, hc, rfl⟩ := Finset.mem_image.mp hj
      exact (hgrow c hc).1
    · intro x
      constructor
      · rintro ⟨j, hj, hx⟩
        obtain ⟨c, hc, rfl⟩ := Finset.mem_image.mp hj
        exact (hgrow c hc).2.1 hx
      · intro hx
        obtain ⟨c, hc, hxc⟩ := (hcover.mem_iff x).mpr hx
        exact ⟨grow c, Finset.mem_image_of_mem grow hc, hinside c hc hxc⟩
  have hcard : (cover.image grow).card = cover.card :=
    le_antisymm Finset.card_image_le (hsmallest _ hgrown)
  have hinj : Set.InjOn grow cover := Finset.card_image_iff.mp hcard
  have hfixed : ∀ c ∈ cover, grow c = c := by
    intro c hc
    have hback : block (grow c) ⊆ block c := by
      intro x hx
      obtain ⟨c', hc', hxc'⟩ := (hcover.mem_iff x).mpr ((hgrow c hc).2.1 hx)
      have hsame : grow c' = grow c :=
        h.largest_unique (hgrow c' hc') (hgrow c hc) (hinside c' hc' hxc') hx
      rw [← hinj hc' hc hsame]
      exact hxc'
    exact h.injOn (hgrow c hc).1 (hcover.named c hc) (hback.antisymm (hinside c hc))
  constructor
  · intro hi
    have hlargest := hgrow i hi
    rw [hfixed i hi] at hlargest
    exact hlargest
  · intro hi
    obtain ⟨x, hx⟩ := h.nonempty i hi.1
    obtain ⟨c, hc, hxc⟩ := (hcover.mem_iff x).mpr (hi.2.1 hx)
    have hlargest := hgrow c hc
    rw [hfixed c hc] at hlargest
    rw [h.largest_unique hi hlargest hx hxc]
    exact hc

/-- Two smallest covers of one set are the same. -/
theorem Laminar.smallest_unique (h : Laminar names block rank) {cover' : Finset ι}
    (hcover : IsCover names block target cover)
    (hsmallest : ∀ other, IsCover names block target other → cover.card ≤ other.card)
    (hcover' : IsCover names block target cover')
    (hsmallest' : ∀ other, IsCover names block target other → cover'.card ≤ other.card) :
    cover = cover' := by
  ext i
  rw [h.mem_smallest_iff hcover hsmallest, h.mem_smallest_iff hcover' hsmallest']

theorem IsCover.exists_smallest (h : IsCover names block target cover) :
    ∃ least, IsCover names block target least ∧
      ∀ other, IsCover names block target other → least.card ≤ other.card := by
  obtain ⟨least, hleast, hmin⟩ := (measure Finset.card).wf.has_min
    {c | IsCover names block target c} ⟨cover, h⟩
  exact ⟨least, hleast, fun other hother => Nat.le_of_not_lt (hmin other hother)⟩

end Covers
end SimplyIpExporter.LaminarCovers
