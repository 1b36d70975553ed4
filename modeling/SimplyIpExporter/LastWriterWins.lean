import Mathlib.Data.List.AList

/-!
# Stores updated by a list of writes

A write names a key and either stores a value there or removes the key. Applying
a list of writes in order leaves, at every key, the value of the last write to
that key; keys no write names keep what they held.

The observation of interest is whether some stored value satisfies a test. The
last section decides exactly when that observation is the same for every order
of one list of writes: whenever some write of the list would satisfy the test,
there has to be a key that satisfies it whichever of its writes comes last.
-/
namespace SimplyIpExporter.LastWriterWins

variable {K V : Type} [DecidableEq K]

/-- A finite map with distinct keys. -/
abbrev Store (K V : Type) := AList (fun _ : K => V)

structure Write (K V : Type) where
  key : K
  value : Option V
  deriving DecidableEq, Repr

def write (m : Store K V) (w : Write K V) : Store K V :=
  match w.value with
  | none => m.erase w.key
  | some v => m.insert w.key v

def writeAll (m : Store K V) (ws : List (Write K V)) : Store K V := ws.foldl write m

@[simp] theorem writeAll_nil (m : Store K V) : writeAll m [] = m := rfl

@[simp] theorem writeAll_cons (m : Store K V) (w : Write K V) (ws : List (Write K V)) :
    writeAll m (w :: ws) = writeAll (write m w) ws := rfl

theorem lookup_write (m : Store K V) (w : Write K V) (k : K) :
    (write m w).lookup k = if w.key = k then w.value else m.lookup k := by
  unfold write
  split_ifs with h
  · subst h
    cases hv : w.value with
    | none => exact AList.lookup_erase _ _
    | some v => exact AList.lookup_insert _
  · cases hv : w.value with
    | none => exact AList.lookup_erase_ne (Ne.symm h)
    | some v => exact AList.lookup_insert_ne (Ne.symm h)

/-- Keeps the entries whose value passes. -/
def retain (P : V → Bool) (m : Store K V) : Store K V :=
  ⟨m.entries.filter fun e => P e.2, m.nodupKeys.sublist List.filter_sublist⟩

theorem lookup_retain (P : V → Bool) (m : Store K V) (k : K) :
    (retain P m).lookup k = (m.lookup k).filter P := by
  apply Option.ext
  intro v
  rw [← Option.mem_def, AList.mem_lookup_iff, Option.filter_eq_some_iff, ← Option.mem_def,
    AList.mem_lookup_iff]
  exact List.mem_filter

/-- The value of the last write to a key, when there is one. -/
def lastWrite (k : K) : List (Write K V) → Option (Option V)
  | [] => none
  | w :: ws => (lastWrite k ws).or (if w.key = k then some w.value else none)

theorem lookup_writeAll (m : Store K V) (ws : List (Write K V)) (k : K) :
    (writeAll m ws).lookup k = (lastWrite k ws).getD (m.lookup k) := by
  induction ws generalizing m with
  | nil => rfl
  | cons w ws ih =>
      rw [writeAll_cons, ih, lookup_write]
      simp only [lastWrite]
      cases lastWrite k ws with
      | some v => rfl
      | none => split_ifs <;> rfl

theorem lastWrite_append (k : K) (xs ys : List (Write K V)) :
    lastWrite k (xs ++ ys) = (lastWrite k ys).or (lastWrite k xs) := by
  induction xs with
  | nil => simp [lastWrite]
  | cons w xs ih => simp only [List.cons_append, lastWrite, ih, Option.or_assoc]

theorem lastWrite_mem {k : K} {ws : List (Write K V)} {v : Option V}
    (h : lastWrite k ws = some v) : ⟨k, v⟩ ∈ ws := by
  induction ws with
  | nil => simp [lastWrite] at h
  | cons w ws ih =>
      simp only [lastWrite, Option.or_eq_some_iff] at h
      rcases h with h | ⟨-, h⟩
      · exact List.mem_cons_of_mem _ (ih h)
      · split_ifs at h with hk
        cases h
        subst hk
        exact List.mem_cons_self

theorem lastWrite_eq_none {k : K} {ws : List (Write K V)} :
    lastWrite k ws = none ↔ ∀ w ∈ ws, w.key ≠ k := by
  induction ws with
  | nil => simp [lastWrite]
  | cons w ws ih => simp [lastWrite, ih, and_comm]

theorem exists_lastWrite {k : K} {ws : List (Write K V)} {w : Write K V}
    (hw : w ∈ ws) (hk : w.key = k) : ∃ v, lastWrite k ws = some v := by
  cases h : lastWrite k ws with
  | none => exact absurd hk (lastWrite_eq_none.mp h w hw)
  | some v => exact ⟨v, rfl⟩

/-- Some stored value passes the test. -/
def Exposes (P : V → Bool) (m : Store K V) : Prop := ∃ k v, m.lookup k = some v ∧ P v = true

def Write.passes (P : V → Bool) (w : Write K V) : Bool := w.value.any P

omit [DecidableEq K] in
theorem Write.passes_iff {P : V → Bool} {w : Write K V} :
    w.passes P = true ↔ ∃ v, w.value = some v ∧ P v = true := by
  simp [Write.passes, Option.any_eq_true]

/-- A key that passes whatever the order: every write to it passes, or none
touches it and the value already stored there passes. -/
def Settled (P : V → Bool) (m : Store K V) (ws : List (Write K V)) (k : K) : Prop :=
  (∃ w ∈ ws, w.key = k) ∧ (∀ w ∈ ws, w.key = k → w.passes P = true) ∨
    (∀ w ∈ ws, w.key ≠ k) ∧ ∃ v, m.lookup k = some v ∧ P v = true

/-- As soon as one write of the list passes, some key is settled. -/
def Agreed (P : V → Bool) (m : Store K V) (ws : List (Write K V)) : Prop :=
  ∀ w ∈ ws, w.passes P = true → ∃ k, Settled P m ws k

theorem exposes_of_settled {P : V → Bool} {m : Store K V} {ws : List (Write K V)} {k : K}
    (h : Settled P m ws k) : Exposes P (writeAll m ws) := by
  rcases h with ⟨⟨w, hw, hk⟩, hall⟩ | ⟨hnone, v, hv, hp⟩
  · obtain ⟨v, hv⟩ := exists_lastWrite hw hk
    obtain ⟨u, hu, hp⟩ := Write.passes_iff.mp (hall _ (lastWrite_mem hv) rfl)
    refine ⟨k, u, ?_, hp⟩
    rw [lookup_writeAll, hv]
    exact hu
  · refine ⟨k, v, ?_, hp⟩
    rw [lookup_writeAll, lastWrite_eq_none.mpr hnone]
    exact hv

/-- A stored value that passes was written by the list or stood there before. -/
theorem exposes_writeAll {P : V → Bool} {m : Store K V} {ws : List (Write K V)}
    (h : Exposes P (writeAll m ws)) :
    (∃ w ∈ ws, w.passes P = true) ∨ ∃ k, Settled P m ws k := by
  obtain ⟨k, v, hv, hp⟩ := h
  rw [lookup_writeAll] at hv
  cases hl : lastWrite k ws with
  | none =>
      rw [hl] at hv
      exact .inr ⟨k, .inr ⟨lastWrite_eq_none.mp hl, v, hv, hp⟩⟩
  | some u =>
      rw [hl] at hv
      exact .inl ⟨⟨k, u⟩, lastWrite_mem hl, Write.passes_iff.mpr ⟨v, hv, hp⟩⟩

theorem exposes_iff_of_agreed {P : V → Bool} {m : Store K V} {ws : List (Write K V)}
    (h : Agreed P m ws) :
    Exposes P (writeAll m ws) ↔
      (∃ w ∈ ws, w.passes P = true) ∨ ∃ k, Settled P m ws k := by
  refine ⟨exposes_writeAll, ?_⟩
  rintro (⟨w, hw, hp⟩ | ⟨k, hk⟩)
  · obtain ⟨k, hk⟩ := h w hw hp
    exact exposes_of_settled hk
  · exact exposes_of_settled hk

section Order
variable {P : V → Bool} {m : Store K V} {ws ws' : List (Write K V)}

theorem Settled.perm {k : K} (hp : ws'.Perm ws) (h : Settled P m ws k) : Settled P m ws' k := by
  simpa only [Settled, hp.mem_iff] using h

theorem Agreed.perm (hp : ws'.Perm ws) (h : Agreed P m ws) : Agreed P m ws' := by
  intro w hw hpass
  obtain ⟨k, hk⟩ := h w (hp.mem_iff.mp hw) hpass
  exact ⟨k, hk.perm hp⟩

/-- Passing writes last: their keys end up passing. -/
theorem exposes_of_passing_last {w : Write K V} (hw : w ∈ ws) (hp : w.passes P = true) :
    Exposes P (writeAll m (ws.filter (fun w => !w.passes P) ++ ws.filter (Write.passes P))) := by
  have hmem : w ∈ ws.filter (Write.passes P) := List.mem_filter.mpr ⟨hw, hp⟩
  obtain ⟨v, hv⟩ := exists_lastWrite hmem rfl
  have hlast : (⟨w.key, v⟩ : Write K V).passes P = true := (List.mem_filter.mp (lastWrite_mem hv)).2
  obtain ⟨u, hu, hpu⟩ := Write.passes_iff.mp hlast
  refine ⟨w.key, u, ?_, hpu⟩
  rw [lookup_writeAll, lastWrite_append, hv]
  exact hu

/-- Passing writes first: only a settled key can still pass. -/
theorem settled_of_passing_first
    (h : Exposes P (writeAll m (ws.filter (Write.passes P) ++ ws.filter (fun w => !w.passes P)))) :
    ∃ k, Settled P m ws k := by
  obtain ⟨k, v, hv, hp⟩ := h
  rw [lookup_writeAll, lastWrite_append] at hv
  cases hl : lastWrite k (ws.filter (fun w => !w.passes P)) with
  | some u =>
      -- the last write to `k` fails the test, so `k` cannot hold a passing value
      rw [hl] at hv
      have hu : u = some v := hv
      have hfail := (List.mem_filter.mp (lastWrite_mem hl)).2
      simp [Write.passes, hu, hp] at hfail
  | none =>
      have hpass : ∀ w ∈ ws, w.key = k → w.passes P = true := by
        intro w hw hk
        by_contra hf
        refine lastWrite_eq_none.mp hl w (List.mem_filter.mpr ⟨hw, ?_⟩) hk
        simpa using hf
      by_cases hex : ∃ w ∈ ws, w.key = k
      · exact ⟨k, .inl ⟨hex, hpass⟩⟩
      · have hnone : ∀ w ∈ ws, w.key ≠ k := fun w hw hk => hex ⟨w, hw, hk⟩
        have hl' : lastWrite k (ws.filter (Write.passes P)) = none :=
          lastWrite_eq_none.mpr fun w hw => hnone w (List.mem_filter.mp hw).1
        rw [hl, hl'] at hv
        exact ⟨k, .inr ⟨hnone, v, hv, hp⟩⟩

/-- The observation is the same for every order of the writes exactly when they
agree on it. -/
theorem exposes_order_iff :
    (∀ ws', ws'.Perm ws → (Exposes P (writeAll m ws') ↔ Exposes P (writeAll m ws))) ↔
      Agreed P m ws := by
  constructor
  · intro h w hw hp
    have h₁ : (ws.filter (fun w => !w.passes P) ++ ws.filter (Write.passes P)).Perm ws :=
      List.perm_append_comm.trans (List.filter_append_perm _ _)
    have h₂ : (ws.filter (Write.passes P) ++ ws.filter (fun w => !w.passes P)).Perm ws :=
      List.filter_append_perm _ _
    exact settled_of_passing_first ((h _ h₂).mpr ((h _ h₁).mp (exposes_of_passing_last hw hp)))
  · intro h ws' hp
    rw [exposes_iff_of_agreed h, exposes_iff_of_agreed (h.perm hp)]
    simp only [Settled, hp.mem_iff]

end Order
section Columns
variable {C : Type} {T : C → Type}

/-- An update gives new values to some columns of a record and leaves the others. -/
def overlay (row : (c : C) → T c) (update : (c : C) → Option (T c)) : (c : C) → T c :=
  fun c => (update c).getD (row c)

def overlayAll (row : (c : C) → T c) (updates : List ((c : C) → Option (T c))) : (c : C) → T c :=
  updates.foldl overlay row

/-- The value that the last update of a column has given to it. -/
def lastSet (c : C) (updates : List ((c : C) → Option (T c))) : Option (T c) :=
  (updates.filterMap fun update => update c).getLast?

theorem lastSet_cons (c : C) (update : (c : C) → Option (T c))
    (updates : List ((c : C) → Option (T c))) :
    lastSet c (update :: updates) = (lastSet c updates).or (update c) := by
  unfold lastSet
  cases h : update c with
  | none => simp [h]
  | some v =>
      rw [List.filterMap_cons_some h, List.getLast?_cons]
      cases (updates.filterMap fun update => update c).getLast? <;> rfl

theorem overlayAll_eq (row : (c : C) → T c) (updates : List ((c : C) → Option (T c))) (c : C) :
    overlayAll row updates c = (lastSet c updates).getD (row c) := by
  induction updates generalizing row with
  | nil => rfl
  | cons update updates ih =>
      have hfirst : overlayAll row (update :: updates) =
          overlayAll (overlay row update) updates := rfl
      rw [hfirst, ih, lastSet_cons]
      cases lastSet c updates <;> rfl

end Columns

end SimplyIpExporter.LastWriterWins
