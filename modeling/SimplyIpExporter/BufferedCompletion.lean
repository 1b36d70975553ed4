import Mathlib.Data.List.Perm.Basic

/-!
# Buffered collection in completion order

Jobs are started in order with at most `limit` of them under way; those under way
finish in any order. Results are collected as they arrive, and the first error
ends the collection and abandons the rest. The order of arrival is given by
`pick`: before the `n`-th arrival it names, modulo their number, which of the jobs
under way finishes next.
-/
namespace SimplyIpExporter.BufferedCompletion
variable {J R E : Type}

/-- The answer of a job is settled when it is started: the `n`-th job started gets
`answer n`. -/
structure Buffer (J R E : Type) where
  waiting : List J
  underWay : List (Except E R)
  started : ℕ
  results : List R

def Buffer.left (b : Buffer J R E) : ℕ := b.waiting.length + b.underWay.length

/-- Starts jobs while there is room. -/
def fill (answer : ℕ → J → Except E R) (limit : ℕ) (b : Buffer J R E) : Buffer J R E :=
  let room := limit - b.underWay.length
  { waiting := b.waiting.drop room
    underWay := b.underWay ++ (b.waiting.take room).mapIdx fun i j => answer (b.started + i) j
    started := b.started + (b.waiting.take room).length
    results := b.results }

/-- Collects until nothing is left or an error arrives; also the number of jobs
that were started. -/
def collect (answer : ℕ → J → Except E R) (limit : ℕ) (pick : ℕ → ℕ) :
    ℕ → Buffer J R E → Except E (List R) × ℕ
  | 0, b => (.ok b.results, b.started)
  | fuel + 1, b =>
      let b := fill answer limit b
      let next := pick b.results.length % b.underWay.length
      match b.underWay[next]? with
      | none => (.ok b.results, b.started)
      | some (.error e) => (.error e, b.started)
      | some (.ok r) => collect answer limit pick fuel
          { b with underWay := b.underWay.eraseIdx next, results := b.results ++ [r] }

def bufferUnordered (answer : ℕ → J → Except E R) (limit : ℕ) (pick : ℕ → ℕ) (jobs : List J) :
    Except E (List R) × ℕ :=
  collect answer limit pick jobs.length ⟨jobs, [], 0, []⟩

section AllSucceed
variable {answer : ℕ → J → Except E R} {f : J → R} {jobs : List J}
  (hanswer : ∀ n j, jobs[n]? = some j → answer n j = .ok (f j))

/-- Nothing under way fails, and `all` is what is or will be collected. -/
def Yields (f : J → R) (b : Buffer J R E) (all : List R) : Prop :=
  ∃ rs : List R, b.underWay = rs.map .ok ∧ (b.results ++ rs ++ b.waiting.map f).Perm all

include hanswer in
/-- Jobs are started in order, so each is given the answer of its own place. -/
theorem mapIdx_answer {waiting : List J} {started : ℕ} (hwaiting : waiting = jobs.drop started)
    (room : ℕ) :
    ((waiting.take room).mapIdx fun i j => answer (started + i) j) =
      ((waiting.take room).map f).map .ok := by
  refine List.ext_getElem? fun i => ?_
  rw [List.getElem?_mapIdx, List.getElem?_map, List.getElem?_map]
  cases hget : (waiting.take room)[i]? with
  | none => rfl
  | some j =>
      have hjob : jobs[started + i]? = some j := by
        rw [List.getElem?_take] at hget
        split_ifs at hget with hi
        rwa [← List.getElem?_drop, ← hwaiting]
      simp [hanswer _ _ hjob]

include hanswer in
theorem Yields.fill {b : Buffer J R E} {all : List R} (h : Yields f b all)
    (hwaiting : b.waiting = jobs.drop b.started) (limit : ℕ) :
    Yields f (fill answer limit b) all := by
  obtain ⟨rs, hrs, hperm⟩ := h
  refine ⟨rs ++ (b.waiting.take (limit - b.underWay.length)).map f, ?_, ?_⟩
  · simp only [BufferedCompletion.fill, mapIdx_answer hanswer hwaiting, hrs, List.map_append]
  · simp only [BufferedCompletion.fill, List.append_assoc, ← List.map_append, List.take_append_drop]
    simpa only [List.append_assoc] using hperm

theorem waiting_fill (answer : ℕ → J → Except E R) {b : Buffer J R E}
    (hwaiting : b.waiting = jobs.drop b.started) (limit : ℕ) :
    (fill answer limit b).waiting = jobs.drop (fill answer limit b).started := by
  simp only [BufferedCompletion.fill, hwaiting, List.drop_drop, List.length_take, List.length_drop]
  rcases Nat.le_total (limit - b.underWay.length) (jobs.length - b.started) with h | h
  · rw [Nat.min_eq_left h]
  · rw [Nat.min_eq_right h, List.drop_eq_nil_of_le (by omega), List.drop_eq_nil_of_le (by omega)]

/-- Any job under way may finish next, and has succeeded when it does. -/
theorem Yields.arrival {b : Buffer J R E} {all : List R} (h : Yields f b all) {next : ℕ}
    (hnext : next < b.underWay.length) :
    ∃ r, b.underWay[next]? = some (.ok r) ∧
      Yields f { b with underWay := b.underWay.eraseIdx next, results := b.results ++ [r] }
        all := by
  obtain ⟨rs, hrs, hperm⟩ := h
  have hlt : next < rs.length := by simpa [hrs] using hnext
  refine ⟨rs[next], by simp [hrs, hlt], rs.eraseIdx next, by simp [hrs, List.eraseIdx_map], ?_⟩
  refine List.Perm.trans ?_ hperm
  simp only [List.append_assoc, List.singleton_append]
  exact ((List.getElem_cons_eraseIdx_perm hlt).append_right _).append_left _

theorem left_fill (answer : ℕ → J → Except E R) (limit : ℕ) (b : Buffer J R E) :
    (fill answer limit b).left = b.left := by
  simp only [Buffer.left, fill, List.length_append, List.length_mapIdx, List.length_take,
    List.length_drop]
  omega

theorem started_fill (answer : ℕ → J → Except E R) (limit : ℕ) (b : Buffer J R E) :
    (fill answer limit b).started + (fill answer limit b).waiting.length =
      b.started + b.waiting.length := by
  simp only [fill, List.length_take, List.length_drop]
  omega

/-- Something is under way as long as something is left. -/
theorem underWay_fill_pos (answer : ℕ → J → Except E R) {limit : ℕ} (hlimit : 0 < limit)
    {b : Buffer J R E} (h : 0 < b.left) : 0 < (fill answer limit b).underWay.length := by
  simp only [Buffer.left, fill, List.length_append, List.length_mapIdx, List.length_take] at h ⊢
  omega

include hanswer in
/-- When every job succeeds, all results are collected, in some order. -/
theorem collect_perm {limit : ℕ} (hlimit : 0 < limit) (pick : ℕ → ℕ) (fuel : ℕ) {all : List R} :
    ∀ b : Buffer J R E, b.left = fuel → Yields f b all → b.waiting = jobs.drop b.started →
      ∃ rs, collect answer limit pick fuel b = (.ok rs, b.started + b.waiting.length) ∧
        rs.Perm all := by
  induction fuel with
  | zero =>
      intro b hleft h _
      obtain ⟨rs, hrs, hperm⟩ := h
      obtain ⟨hw, hu⟩ : b.waiting = [] ∧ b.underWay = [] := by
        simpa [Buffer.left] using hleft
      obtain rfl : rs = [] := by simpa [hu] using hrs.symm
      exact ⟨b.results, by simp [collect, hw], by simpa [hw] using hperm⟩
  | succ fuel ih =>
      intro b hleft h hwaiting
      have hpos := underWay_fill_pos answer hlimit (b := b) (by omega)
      have hleft' : (fill answer limit b).left = fuel + 1 := by rw [left_fill, hleft]
      have hnext := Nat.mod_lt (pick (fill answer limit b).results.length) hpos
      obtain ⟨r, hget, hrest⟩ := (h.fill hanswer hwaiting limit).arrival hnext
      obtain ⟨out, hout, hall⟩ := ih _ (by
        simp only [Buffer.left, List.length_eraseIdx, hnext, if_true] at hleft' ⊢
        omega) hrest (waiting_fill answer hwaiting limit)
      refine ⟨out, ?_, hall⟩
      simp only [collect, hget]
      rw [hout, started_fill]

include hanswer in
theorem bufferUnordered_perm {limit : ℕ} (hlimit : 0 < limit) (pick : ℕ → ℕ) :
    ∃ rs, bufferUnordered answer limit pick jobs = (.ok rs, jobs.length) ∧
      rs.Perm (jobs.map f) := by
  obtain ⟨rs, hrs, hperm⟩ := collect_perm hanswer hlimit pick jobs.length
    ⟨jobs, [], 0, []⟩ (by simp [Buffer.left]) ⟨[], rfl, List.Perm.refl _⟩ rfl
  rw [Nat.zero_add] at hrs
  exact ⟨rs, hrs, hperm⟩

end AllSucceed

section Succeeded
variable {answer : ℕ → J → Except E R} {jobs : List J}

/-- Every job started has succeeded or is still under way. -/
def Accounted (answer : ℕ → J → Except E R) (jobs : List J) (b : Buffer J R E) : Prop :=
  ∀ n j, n < b.started → jobs[n]? = some j → (∃ r, answer n j = .ok r) ∨ answer n j ∈ b.underWay

theorem Accounted.fill {b : Buffer J R E} (h : Accounted answer jobs b)
    (hwaiting : b.waiting = jobs.drop b.started) (limit : ℕ) :
    Accounted answer jobs (fill answer limit b) := by
  intro n j hn hj
  by_cases hold : n < b.started
  · refine (h n j hold hj).imp id ?_
    exact List.mem_append_left _
  · right
    have hplace : n - b.started < (b.waiting.take (limit - b.underWay.length)).length := by
      simp only [BufferedCompletion.fill] at hn
      omega
    have hjob : (b.waiting.take (limit - b.underWay.length))[n - b.started] = j := by
      have hget : jobs[b.started + (n - b.started)]? = some j := by
        rw [Nat.add_sub_cancel' (Nat.le_of_not_lt hold), hj]
      rw [← List.getElem?_drop, ← hwaiting] at hget
      rw [List.getElem_take]
      exact (List.getElem?_eq_some_iff.mp hget).2
    refine List.mem_append_right _ (List.mem_mapIdx.mpr ⟨n - b.started, hplace, ?_⟩)
    rw [hjob, Nat.add_sub_cancel' (Nat.le_of_not_lt hold)]

theorem Accounted.arrival {b : Buffer J R E} (h : Accounted answer jobs b) {next : ℕ} {r : R}
    (hnext : b.underWay[next]? = some (.ok r)) :
    Accounted answer jobs
      { b with underWay := b.underWay.eraseIdx next, results := b.results ++ [r] } := by
  obtain ⟨hlt, hget⟩ := List.getElem?_eq_some_iff.mp hnext
  intro n j hn hj
  rcases h n j hn hj with hok | hmem
  · exact .inl hok
  · have hperm := List.getElem_cons_eraseIdx_perm hlt
    rcases List.mem_cons.mp (hperm.mem_iff.mpr hmem) with harrived | hleft
    · exact .inl ⟨r, by rw [harrived, hget]⟩
    · exact .inr hleft

/-- A collection that succeeds has seen every job it started succeed. -/
theorem collect_ok {limit : ℕ} (hlimit : 0 < limit) (pick : ℕ → ℕ) (fuel : ℕ) {rs : List R}
    {started : ℕ} :
    ∀ b : Buffer J R E, b.left = fuel → Accounted answer jobs b → b.waiting = jobs.drop b.started →
      collect answer limit pick fuel b = (.ok rs, started) →
      ∀ n j, n < started → jobs[n]? = some j → ∃ r, answer n j = .ok r := by
  induction fuel with
  | zero =>
      intro b hleft h _ hcollect n j hn hj
      obtain ⟨-, hu⟩ : b.waiting = [] ∧ b.underWay = [] := by simpa [Buffer.left] using hleft
      cases hcollect
      rcases h n j hn hj with hok | hmem
      · exact hok
      · rw [hu] at hmem
        cases hmem
  | succ fuel ih =>
      intro b hleft h hwaiting hcollect
      have hpos := underWay_fill_pos answer hlimit (b := b) (by omega)
      have hleft' : (fill answer limit b).left = fuel + 1 := by rw [left_fill, hleft]
      have hnext := Nat.mod_lt (pick (fill answer limit b).results.length) hpos
      simp only [collect] at hcollect
      split at hcollect
      · rename_i hnone
        exact absurd hnext (Nat.not_lt.mpr (List.getElem?_eq_none_iff.mp hnone))
      · cases hcollect
      · rename_i r hget
        refine ih _ ?_ ((h.fill hwaiting limit).arrival hget) (waiting_fill answer hwaiting limit)
          hcollect
        simp only [Buffer.left, List.length_eraseIdx, hnext, if_true] at hleft' ⊢
        omega

theorem bufferUnordered_ok {limit : ℕ} (hlimit : 0 < limit) (pick : ℕ → ℕ) {rs : List R}
    {started : ℕ} (h : bufferUnordered answer limit pick jobs = (.ok rs, started)) :
    ∀ n j, n < started → jobs[n]? = some j → ∃ r, answer n j = .ok r := by
  refine collect_ok hlimit pick jobs.length ⟨jobs, [], 0, []⟩ (by simp [Buffer.left]) ?_ rfl h
  intro n j hn
  cases hn

end Succeeded
end SimplyIpExporter.BufferedCompletion
