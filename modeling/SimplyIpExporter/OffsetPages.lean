import Mathlib.Data.List.Sort
import Mathlib.Order.Lattice

/-!
# Pages of a sorted list

A list sorted by a key, largest first, is read in pages by offset. Which page an element is
on is decided by its rank, the number of elements with a larger key. A reader that takes
one page after the other while the list grows sees ranks that only rise; such a reader
misses no element that it could have found on an earlier page.
-/
namespace SimplyIpExporter.OffsetPages
variable {α K : Type} [LinearOrder K] {key : α → K}

def Descending (key : α → K) (xs : List α) : Prop := xs.Pairwise fun a b => key b < key a

/-- How many elements have a larger key. -/
def rank (key : α → K) (xs : List α) (x : α) : ℕ := xs.countP fun y => decide (key x < key y)

def page (limit offset : ℕ) (xs : List α) : List α := (xs.drop offset).take limit

theorem rank_perm {xs ys : List α} (h : xs.Perm ys) (x : α) : rank key xs x = rank key ys x :=
  h.countP_eq _

theorem rank_append (xs ys : List α) (x : α) :
    rank key (xs ++ ys) x = rank key xs x + rank key ys x := List.countP_append

/-- A rank is decided by the key. -/
theorem rank_congr {x y : α} (h : key x = key y) (xs : List α) : rank key xs x = rank key xs y := by
  simp only [rank, h]

theorem rank_lt_length {xs : List α} {x : α} (h : x ∈ xs) : rank key xs x < xs.length := by
  refine lt_of_le_of_ne List.countP_le_length fun hall => ?_
  have hself := List.countP_eq_length.mp hall x h
  simp at hself

theorem Descending.getElem_rank {xs : List α} (h : Descending key xs) {x : α} (hx : x ∈ xs) :
    xs[rank key xs x]? = some x := by
  induction xs with
  | nil => cases hx
  | cons y xs ih =>
      obtain ⟨hy, hxs⟩ := List.pairwise_cons.mp h
      rcases List.mem_cons.mp hx with rfl | hmem
      · have hzero : rank key (x :: xs) x = 0 := by
          refine List.countP_eq_zero.mpr fun z hz => ?_
          rcases List.mem_cons.mp hz with rfl | hz
          · simp
          · simpa using (hy z hz).le
        rw [hzero]
        rfl
      · have hsucc : rank key (y :: xs) x = rank key xs x + 1 := by
          simp [rank, hy x hmem]
        rw [hsucc, List.getElem?_cons_succ]
        exact ih hxs hmem

/-- The page of an element is the one its rank falls into. -/
theorem Descending.mem_page {xs : List α} (h : Descending key xs) {x : α} (hx : x ∈ xs)
    {limit offset : ℕ} (hlow : offset ≤ rank key xs x) (hhigh : rank key xs x < offset + limit) :
    x ∈ page limit offset xs := by
  have hat : (page limit offset xs)[rank key xs x - offset]? = some x := by
    rw [page, List.getElem?_take_of_lt (by omega), List.getElem?_drop, Nat.add_sub_of_le hlow]
    exact h.getElem_rank hx
  exact List.mem_of_getElem? hat

/-- After a page that is not full there is nothing more. -/
theorem length_le_of_short {xs : List α} {limit offset : ℕ}
    (h : (page limit offset xs).length < limit) : xs.length < offset + limit := by
  simp only [page, List.length_take, List.length_drop] at h
  omega

/-- A rank that rises from page to page, and ends on the last page or before, is met. -/
theorem exists_page (ranks : ℕ → ℕ) {limit n : ℕ} (hrise : ∀ j < n, ranks j ≤ ranks (j + 1))
    (hend : ranks n < n * limit + limit) :
    ∃ j ≤ n, j * limit ≤ ranks j ∧ ranks j < j * limit + limit := by
  have hex : ∃ j, ranks j < j * limit + limit := ⟨n, hend⟩
  obtain ⟨j, hj, hfirst⟩ : ∃ j, ranks j < j * limit + limit ∧
      ∀ i < j, ¬ ranks i < i * limit + limit :=
    ⟨Nat.find hex, Nat.find_spec hex, fun i hi => Nat.find_min hex hi⟩
  have hle : j ≤ n := by
    by_contra hlt
    exact hfirst n (by omega) hend
  refine ⟨j, hle, ?_, hj⟩
  cases j with
  | zero => simp
  | succ i =>
      have hbefore := hfirst i (by omega)
      have hstep := hrise i (by omega)
      rw [Nat.succ_mul]
      omega

end SimplyIpExporter.OffsetPages
