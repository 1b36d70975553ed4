import SimplyIpExporter.LastWriterWins

/-!
# Stores whose keys are spellings

Several keys may spell one name. A store keyed by spelling is compared with the store
that the same writes, in the same order, leave when they are keyed by name. Each holds
at every key the value of the last write to it; the two agree, and the first holds no
name twice, exactly when no spelling is overtaken: what is stored under a spelling is
always what the last write about its name has stored.
-/
namespace SimplyIpExporter.SpelledKeys
open LastWriterWins

section Last
variable {K N V : Type} [DecidableEq N] (name : K → N)

/-- The last write about a name, under whatever spelling. -/
def lastAbout (n : N) (ws : List (Write K V)) : Option (Write K V) :=
  ws.reverse.find? fun w => decide (name w.key = n)

/-- The write as one to the name. -/
def rename (w : Write K V) : Write N V := ⟨name w.key, w.value⟩

theorem lastAbout_cons (n : N) (w : Write K V) (ws : List (Write K V)) :
    lastAbout name n (w :: ws) =
      (lastAbout name n ws).or (if name w.key = n then some w else none) := by
  simp only [lastAbout, List.reverse_cons, List.find?_append, List.find?_singleton,
    decide_eq_true_eq]

theorem lastWrite_rename (n : N) (ws : List (Write K V)) :
    lastWrite n (ws.map (rename name)) = (lastAbout name n ws).map (·.value) := by
  induction ws with
  | nil => rfl
  | cons w ws ih =>
      rw [List.map_cons, lastWrite, ih, lastAbout_cons]
      cases lastAbout name n ws with
      | some w' => rfl
      | none =>
          by_cases h : name w.key = n
          · simp [rename, h]
          · simp [rename, h]

theorem name_of_lastAbout {n : N} {ws : List (Write K V)} {w : Write K V}
    (h : lastAbout name n ws = some w) : name w.key = n := by
  simpa using List.find?_some h

/-- The last write about a name is also the last under its own spelling. -/
theorem lastAbout_own [DecidableEq K] {n : N} {ws : List (Write K V)} {w : Write K V}
    (h : lastAbout name n ws = some w) : lastAbout id w.key ws = some w := by
  obtain ⟨hname, later, earlier, hsplit, hlater⟩ := List.find?_eq_some_iff_append.mp h
  apply List.find?_eq_some_iff_append.mpr
  refine ⟨by simp, later, earlier, hsplit, ?_⟩
  intro w' hw'
  have hother := hlater w' hw'
  simp only [Bool.not_eq_true', decide_eq_false_iff_not] at hother ⊢
  simp only [decide_eq_true_eq] at hname
  intro hkey
  rw [id_eq] at hkey
  exact hother (by rw [hkey, hname])

theorem lookup_renamed (n : N) (ws : List (Write K V)) :
    (writeAll ∅ (ws.map (rename name))).lookup n = (lastAbout name n ws).bind (·.value) := by
  rw [lookup_writeAll, lastWrite_rename]
  cases lastAbout name n ws <;> rfl

end Last

section Stores
variable {K N V : Type} [DecidableEq K] [DecidableEq N] (name : K → N)

theorem lookup_spelled (k : K) (ws : List (Write K V)) :
    (writeAll ∅ ws).lookup k = (lastAbout id k ws).bind (·.value) := by
  rw [← lookup_renamed]
  congr
  exact (List.map_id ws).symm

/-- Each name is held under one spelling, and with what it is held under as a name. -/
structure Faithful (spelled : Store K V) (named : Store N V) : Prop where
  once : ∀ k k' v v', spelled.lookup k = some v → spelled.lookup k' = some v' →
    name k = name k' → k = k'
  same : ∀ n v, named.lookup n = some v ↔ ∃ k, name k = n ∧ spelled.lookup k = some v

/-- The last write under the spelling stored something, but the last one about its name
came later, under another spelling. -/
def Overtaken (ws : List (Write K V)) (k : K) : Prop :=
  ∃ v w, lastWrite k ws = some (some v) ∧ lastAbout name (name k) ws = some w ∧ w.key ≠ k

theorem lookup_eq_some_iff {ws : List (Write K V)} {k : K} {v : V} :
    (writeAll ∅ ws).lookup k = some v ↔ lastWrite k ws = some (some v) := by
  rw [lookup_writeAll]
  cases lastWrite k ws with
  | none => simp
  | some u => simp

/-- What is stored under a spelling that is not overtaken is the last word on its name. -/
theorem lastAbout_of_held {ws : List (Write K V)} {k : K} {v : V} (hnot : ¬ Overtaken name ws k)
    (hheld : (writeAll ∅ ws).lookup k = some v) :
    lastAbout name (name k) ws = some ⟨k, some v⟩ := by
  have hown := hheld
  rw [lookup_spelled] at hown
  obtain ⟨w, hlast, hvalue⟩ := Option.bind_eq_some_iff.mp hown
  have hkey : w.key = k := name_of_lastAbout id hlast
  -- some write is about the name, so there is a last one
  have hsome : (lastAbout name (name k) ws).isSome = true := by
    rw [lastAbout, List.find?_isSome]
    exact ⟨w, List.mem_of_find?_eq_some hlast, by simp [hkey]⟩
  obtain ⟨w', hw'⟩ := Option.isSome_iff_exists.mp hsome
  have hsame : w'.key = k := by
    by_contra hne
    exact hnot ⟨v, w', lookup_eq_some_iff.mp hheld, hw', hne⟩
  have hlast' := lastAbout_own name hw'
  rw [hsame, hlast, Option.some.injEq] at hlast'
  rw [hw', ← hlast']
  cases w
  cases hkey
  cases hvalue
  rfl

theorem faithful_iff (ws : List (Write K V)) :
    Faithful name (writeAll ∅ ws) (writeAll ∅ (ws.map (rename name))) ↔
      ∀ k, ¬ Overtaken name ws k := by
  constructor
  · rintro hfaithful k ⟨v, w, hwritten, hlast, hne⟩
    have hheld := lookup_eq_some_iff.mpr hwritten
    have hnamed := (hfaithful.same (name k) v).mpr ⟨k, rfl, hheld⟩
    rw [lookup_renamed, hlast, Option.bind_some] at hnamed
    -- the later write has stored the value too, under its own spelling
    have hother : (writeAll ∅ ws).lookup w.key = some v := by
      rw [lookup_spelled, lastAbout_own name hlast, Option.bind_some, hnamed]
    exact hne (hfaithful.once w.key k v v hother hheld (name_of_lastAbout name hlast))
  · intro hnone
    refine ⟨?_, ?_⟩
    · intro k k' v v' hheld hheld' hname
      have hlast := lastAbout_of_held name (hnone k) hheld
      rw [hname, lastAbout_of_held name (hnone k') hheld', Option.some.injEq] at hlast
      exact (congrArg Write.key hlast).symm
    · intro n v
      constructor
      · intro hnamed
        rw [lookup_renamed] at hnamed
        obtain ⟨w, hlast, hvalue⟩ := Option.bind_eq_some_iff.mp hnamed
        refine ⟨w.key, name_of_lastAbout name hlast, ?_⟩
        rw [lookup_spelled, lastAbout_own name hlast, Option.bind_some, hvalue]
      · rintro ⟨k, rfl, hheld⟩
        rw [lookup_renamed, lastAbout_of_held name (hnone k) hheld]
        rfl

/-- With one spelling for each name, nothing is overtaken. -/
theorem not_overtaken_of_spelled_alike {ws : List (Write K V)}
    (h : ∀ w ∈ ws, ∀ w' ∈ ws, name w.key = name w'.key → w.key = w'.key) (k : K) :
    ¬ Overtaken name ws k := by
  rintro ⟨v, w, hwritten, hlast, hne⟩
  have hheld := lookup_eq_some_iff.mpr hwritten
  rw [lookup_spelled] at hheld
  obtain ⟨w', hlast', -⟩ := Option.bind_eq_some_iff.mp hheld
  have hkey : w'.key = k := name_of_lastAbout id hlast'
  have hw : w ∈ ws := List.mem_reverse.mp (List.mem_of_find?_eq_some hlast)
  have hw' : w' ∈ ws := List.mem_reverse.mp (List.mem_of_find?_eq_some hlast')
  apply hne
  rw [← hkey]
  apply h w hw w' hw'
  rw [hkey, name_of_lastAbout name hlast]

end Stores

section Partial
variable {K N V : Type} [DecidableEq N] (name : K → Option N)

/-- The write as one to the name, if the key has one. -/
def renameSome (w : Write K V) : Option (Write N V) := (name w.key).map fun n => ⟨n, w.value⟩

theorem lastWrite_renameSome (n : N) (ws : List (Write K V)) :
    lastWrite n (ws.filterMap (renameSome name)) =
      lastWrite (some n) (ws.map (rename name)) := by
  induction ws with
  | nil => rfl
  | cons w ws ih =>
      rw [List.map_cons, lastWrite, ← ih]
      cases h : name w.key with
      | none => simp [renameSome, rename, h]
      | some m => simp [renameSome, rename, h, lastWrite]

end Partial
end SimplyIpExporter.SpelledKeys
