import Mathlib.Data.List.Nodup

/-!
# Tables with a primary key

A table is a list of rows with distinct keys. A row is inserted only under a new
key, and a change of rows keeps their keys, so the keys stay distinct by
construction. What a lookup returns after each operation is stated in terms of
the lookup before it.
-/
namespace SimplyIpExporter.KeyedTables

structure Table (Row K : Type) (key : Row → K) where
  rows : List Row
  distinct : (rows.map key).Nodup

namespace Table
variable {Row K : Type} {key : Row → K}

def empty : Table Row K key := ⟨[], List.nodup_nil⟩

theorem eq_of_key (t : Table Row K key) {r r' : Row} (hr : r ∈ t.rows) (hr' : r' ∈ t.rows)
    (hkey : key r = key r') : r = r' :=
  List.inj_on_of_nodup_map t.distinct hr hr' hkey

/-- Rewrites the rows that pass; `f` must keep the key. -/
def change (t : Table Row K key) (p : Row → Bool) (f : Row → Row) (hf : ∀ r, key (f r) = key r) :
    Table Row K key where
  rows := t.rows.map fun r => if p r then f r else r
  distinct := by
    have hkeys : (t.rows.map fun r => if p r then f r else r).map key = t.rows.map key := by
      rw [List.map_map]
      apply List.map_congr_left
      intro r _
      by_cases hp : p r
      · simp [hp, hf]
      · simp [hp]
    rw [hkeys]
    exact t.distinct

/-- Removes the rows that pass. -/
def delete (t : Table Row K key) (p : Row → Bool) : Table Row K key where
  rows := t.rows.filter fun r => !p r
  distinct := t.distinct.sublist (List.filter_sublist.map key)

/-- Rows that fail the test before and after a change may change unnoticed. -/
theorem filter_change {t : Table Row K key} {p : Row → Bool} {f : Row → Row}
    {hf : ∀ r, key (f r) = key r} {q : Row → Bool}
    (hq : ∀ r ∈ t.rows, p r = true → q r = false ∧ q (f r) = false) :
    (t.change p f hf).rows.filter q = t.rows.filter q := by
  have hlist : ∀ rows : List Row, (∀ r ∈ rows, p r = true → q r = false ∧ q (f r) = false) →
      (rows.map fun r => if p r then f r else r).filter q = rows.filter q := by
    intro rows
    induction rows with
    | nil => exact fun _ => rfl
    | cons r rows ih =>
        intro h
        rw [List.map_cons, List.filter_cons, List.filter_cons,
          ih fun r' hr' => h r' (by simp [hr'])]
        by_cases hp : p r = true
        · obtain ⟨hold, hnew⟩ := h r List.mem_cons_self hp
          simp [hp, hold, hnew]
        · simp [hp]
  exact hlist t.rows hq

theorem filter_delete {t : Table Row K key} {p q : Row → Bool}
    (hq : ∀ r ∈ t.rows, p r = true → q r = false) :
    (t.delete p).rows.filter q = t.rows.filter q := by
  simp only [delete, List.filter_filter]
  apply List.filter_congr
  intro r hr
  by_cases hp : p r = true
  · simp [hp, hq r hr hp]
  · simp [hp]

section Lookup
variable [DecidableEq K]

def find (t : Table Row K key) (k : K) : Option Row := t.rows.find? fun r => decide (key r = k)

theorem find_eq_some {t : Table Row K key} {k : K} {r : Row} :
    t.find k = some r ↔ r ∈ t.rows ∧ key r = k := by
  constructor
  · intro h
    exact ⟨List.mem_of_find?_eq_some h, by simpa using List.find?_some h⟩
  · rintro ⟨hr, rfl⟩
    cases hfind : t.find (key r) with
    | none => exact absurd (List.find?_eq_none.mp hfind r hr) (by simp)
    | some r' =>
        have hkey : key r' = key r := by simpa using List.find?_some hfind
        rw [t.eq_of_key (List.mem_of_find?_eq_some hfind) hr hkey]

theorem find_eq_none {t : Table Row K key} {k : K} :
    t.find k = none ↔ ∀ r ∈ t.rows, key r ≠ k := by
  simp [find]

/-- One row passes when it does and every row that passes has its key. -/
theorem filter_eq_singleton {t : Table Row K key} {k : K} {r : Row} {p : Row → Bool}
    (hfind : t.find k = some r) (hp : p r = true)
    (honly : ∀ r' ∈ t.rows, p r' = true → key r' = k) :
    t.rows.filter p = [r] := by
  obtain ⟨hr, hkey⟩ := find_eq_some.mp hfind
  have hsame : ∀ r' ∈ t.rows.filter p, r' = r := by
    intro r' hr'
    obtain ⟨hmem, hp'⟩ := List.mem_filter.mp hr'
    exact t.eq_of_key hmem hr ((honly r' hmem hp').trans hkey.symm)
  have hnodup : (t.rows.filter p).Nodup := (List.Nodup.of_map key t.distinct).filter p
  have hmem : r ∈ t.rows.filter p := List.mem_filter.mpr ⟨hr, hp⟩
  cases hfilter : t.rows.filter p with
  | nil =>
      rw [hfilter] at hmem
      cases hmem
  | cons r₁ rest =>
      rw [hfilter] at hsame hnodup
      have hrest : rest = [] := by
        refine List.eq_nil_iff_forall_not_mem.mpr fun r₂ hr₂ => ?_
        have heq : r₂ = r₁ :=
          (hsame r₂ (List.mem_cons_of_mem _ hr₂)).trans (hsame r₁ (by simp)).symm
        exact (List.nodup_cons.mp hnodup).1 (heq ▸ hr₂)
      rw [hrest, hsame r₁ (by simp)]

/-- A new row under a new key. -/
def insert (t : Table Row K key) (r : Row) : Option (Table Row K key) :=
  if h : key r ∉ t.rows.map key then
    some ⟨t.rows ++ [r], by
      rw [List.map_append, List.map_singleton]
      exact List.nodup_append.mpr ⟨t.distinct, List.nodup_singleton _, by
        intro k hk k' hk' heq
        rw [List.mem_singleton.mp hk'] at heq
        exact h (heq ▸ hk)⟩⟩
  else none

theorem rows_insert {t t' : Table Row K key} {r : Row} (h : t.insert r = some t') :
    t'.rows = t.rows ++ [r] ∧ t.find (key r) = none := by
  unfold insert at h
  split at h
  · rename_i hnew
    cases h
    refine ⟨rfl, find_eq_none.mpr ?_⟩
    intro r' hr' hkey
    exact hnew (List.mem_map.mpr ⟨r', hr', hkey⟩)
  · cases h

theorem insert_of_find_none {t : Table Row K key} {r : Row} (h : t.find (key r) = none) :
    ∃ t', t.insert r = some t' := by
  have hnew : key r ∉ t.rows.map key := by
    intro hmem
    obtain ⟨r', hr', hkey⟩ := List.mem_map.mp hmem
    exact find_eq_none.mp h r' hr' hkey
  exact ⟨_, dif_pos hnew⟩

theorem find_insert {t t' : Table Row K key} {r : Row} (h : t.insert r = some t') (k : K) :
    t'.find k = if key r = k then some r else t.find k := by
  obtain ⟨hrows, hnone⟩ := rows_insert h
  have hsplit : t'.find k = (t.find k).or (if key r = k then some r else none) := by
    simp only [find, hrows, List.find?_append, List.find?_singleton, decide_eq_true_eq]
  rw [hsplit]
  by_cases hk : key r = k
  · rw [← hk, hnone]
    simp
  · simp [hk]

theorem find_change (t : Table Row K key) (p : Row → Bool) (f : Row → Row)
    (hf : ∀ r, key (f r) = key r) (k : K) :
    (t.change p f hf).find k = (t.find k).map fun r => if p r then f r else r := by
  have hkey : ∀ r, decide (key (if p r then f r else r) = k) = decide (key r = k) := by
    intro r
    by_cases hp : p r
    · simp [hp, hf]
    · simp [hp]
  simp only [find, change, List.find?_map, Function.comp_def, hkey]

theorem find_delete (t : Table Row K key) (p : Row → Bool) (k : K) :
    (t.delete p).find k = (t.find k).filter fun r => !p r := by
  apply Option.ext
  intro r
  simp only [find_eq_some, delete, List.mem_filter, Option.filter_eq_some_iff]
  tauto

end Lookup
end Table
end SimplyIpExporter.KeyedTables
