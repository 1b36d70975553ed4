import Mathlib.Data.List.AList
import Mathlib.Data.List.Nodup

/-!
# Bounded maps that forget the key first seen

A tracker is a map together with a queue of its keys in the order in which they came
in. A key that is already tracked gets a new value and keeps its place. A new key
goes to the back; when the map is full, keys at the front are dropped first.

The queue is what is left of the log of newcomers, so a key that has been dropped was
followed, since it last came in, by as many different newcomers as the map can hold.
-/
namespace SimplyIpExporter.FirstSeenQueues

structure Tracker (K V : Type) where
  entries : AList fun _ : K => V
  order : List K

namespace Tracker
variable {K V : Type}

def empty : Tracker K V := ⟨∅, []⟩

def Tracks (t : Tracker K V) (k : K) : Prop := k ∈ t.entries

section Operations
variable [DecidableEq K]

instance (t : Tracker K V) (k : K) : Decidable (t.Tracks k) :=
  inferInstanceAs (Decidable (k ∈ t.entries))

/-- Drops keys from the front of the queue until there is room for one more. -/
def evictFrom (capacity : ℕ) (entries : AList fun _ : K => V) : List K → Tracker K V
  | [] => ⟨entries, []⟩
  | oldest :: rest =>
    if capacity ≤ entries.keys.length then evictFrom capacity (entries.erase oldest) rest
    else ⟨entries, oldest :: rest⟩

/-- How the loop that drops keys is left. -/
inductive Exit where
  | room
  | emptyQueue
  deriving DecidableEq, Repr

def evictExit (capacity : ℕ) (entries : AList fun _ : K => V) : List K → Exit
  | [] => if capacity ≤ entries.keys.length then .emptyQueue else .room
  | oldest :: rest =>
    if capacity ≤ entries.keys.length then evictExit capacity (entries.erase oldest) rest else .room

def record (capacity : ℕ) (k : K) (v : V) (t : Tracker K V) : Tracker K V :=
  if t.Tracks k then { t with entries := t.entries.insert k v }
  else
    let roomy := evictFrom capacity t.entries t.order
    ⟨roomy.entries.insert k v, roomy.order ++ [k]⟩

end Operations

/-- The queue lists the tracked keys, each of them once. -/
structure Lists (capacity : ℕ) (t : Tracker K V) : Prop where
  perm : t.order.Perm t.entries.keys
  bounded : t.order.length ≤ capacity

theorem Lists.empty {capacity : ℕ} : Lists capacity (Tracker.empty : Tracker K V) where
  perm := .refl _
  bounded := Nat.zero_le _

theorem Lists.mem_order {capacity : ℕ} {t : Tracker K V} (h : Lists capacity t) {k : K} :
    k ∈ t.order ↔ t.Tracks k := h.perm.mem_iff

theorem Lists.nodup {capacity : ℕ} {t : Tracker K V} (h : Lists capacity t) : t.order.Nodup :=
  h.perm.nodup_iff.mpr t.entries.nodupKeys

section Evictions
variable [DecidableEq K] {capacity : ℕ} {entries : AList fun _ : K => V} {order : List K}

/-- The loop is left for want of keys exactly when it has not made room. -/
theorem evictExit_eq_room_iff :
    evictExit capacity entries order = .room ↔
      (evictFrom capacity entries order).entries.keys.length < capacity := by
  induction order generalizing entries with
  | nil =>
      unfold evictExit evictFrom
      by_cases hfull : capacity ≤ entries.keys.length
      · simp [hfull]
      · simp [hfull, Nat.lt_of_not_le hfull]
  | cons oldest rest ih =>
      unfold evictExit evictFrom
      by_cases hfull : capacity ≤ entries.keys.length
      · rw [if_pos hfull, if_pos hfull]
        exact ih
      · rw [if_neg hfull, if_neg hfull]
        exact iff_of_true rfl (Nat.lt_of_not_le hfull)

theorem evictFrom_suffix : (evictFrom capacity entries order).order <:+ order := by
  induction order generalizing entries with
  | nil => exact List.suffix_refl _
  | cons oldest rest ih =>
      unfold evictFrom
      split
      · exact ih.trans (List.suffix_cons oldest rest)
      · exact List.suffix_refl _

theorem perm_erase {oldest : K} {rest : List K} (h : (oldest :: rest).Perm entries.keys) :
    rest.Perm (entries.erase oldest).keys := by
  have herase := h.erase oldest
  rwa [List.erase_cons_head, ← AList.keys_erase] at herase

/-- Each round takes the same key from both. -/
theorem evictFrom_perm (h : order.Perm entries.keys) :
    (evictFrom capacity entries order).order.Perm
      (evictFrom capacity entries order).entries.keys := by
  induction order generalizing entries with
  | nil => exact h
  | cons oldest rest ih =>
      unfold evictFrom
      split
      · exact ih (perm_erase h)
      · exact h

/-- A queue that lists all keys runs out no sooner than the map. -/
theorem evictFrom_room (h : order.Perm entries.keys) (hpos : 0 < capacity) :
    (evictFrom capacity entries order).entries.keys.length < capacity := by
  induction order generalizing entries with
  | nil =>
      have hempty : entries.keys = [] := h.nil_eq.symm
      change entries.keys.length < capacity
      rw [hempty]
      exact hpos
  | cons oldest rest ih =>
      unfold evictFrom
      by_cases hfull : capacity ≤ entries.keys.length
      · rw [if_pos hfull]
        exact ih (perm_erase h)
      · rw [if_neg hfull]
        exact Nat.lt_of_not_le hfull

end Evictions

section Listed
variable [DecidableEq K] {capacity : ℕ} {t : Tracker K V} {k : K} {v : V}

theorem Lists.evict (h : Lists capacity t) :
    Lists capacity (evictFrom capacity t.entries t.order) where
  perm := evictFrom_perm h.perm
  bounded := le_trans evictFrom_suffix.length_le h.bounded

/-- What was not tracked is not tracked after others have been dropped. -/
theorem Lists.not_tracks_evict (h : Lists capacity t) (hnew : ¬ t.Tracks k) :
    ¬ (evictFrom capacity t.entries t.order).Tracks k := by
  intro htracks
  have hmem := evictFrom_suffix.subset (h.evict.mem_order.mpr htracks)
  exact hnew (h.mem_order.mp hmem)

theorem Lists.insert_tracked (h : Lists capacity t) (htracked : t.Tracks k) :
    Lists capacity ⟨t.entries.insert k v, t.order⟩ where
  perm := by
    rw [AList.keys_insert]
    exact h.perm.trans (List.perm_cons_erase htracked)
  bounded := h.bounded

theorem Lists.insert_new (h : Lists capacity t) (hnew : ¬ t.Tracks k)
    (hroom : t.entries.keys.length < capacity) :
    Lists capacity ⟨t.entries.insert k v, t.order ++ [k]⟩ where
  perm := by
    rw [AList.keys_insert, List.erase_of_not_mem hnew]
    exact (List.perm_append_singleton k t.order).trans (h.perm.cons k)
  bounded := by
    rw [← h.perm.length_eq] at hroom
    simpa using Nat.succ_le_of_lt hroom

end Listed

/-- The first `capacity` keys of the list differ from each other and from `k`. -/
def Followed (capacity : ℕ) (k : K) (later : List K) : Prop :=
  ∃ front, front <+: later ∧ front.length = capacity ∧ front.Nodup ∧ k ∉ front

theorem Followed.append {capacity : ℕ} {k : K} {later : List K} (h : Followed capacity k later)
    (more : List K) : Followed capacity k (later ++ more) := by
  obtain ⟨front, hfront, hlength, hnodup, hk⟩ := h
  exact ⟨front, hfront.trans (List.prefix_append later more), hlength, hnodup, hk⟩

/-- The queue lists the tracked keys, and is what is left of the log of newcomers. -/
structure Queues (capacity : ℕ) (log : List K) (t : Tracker K V) : Prop where
  perm : t.order.Perm t.entries.keys
  bounded : t.order.length ≤ capacity
  log : ∃ gone, log = gone ++ t.order ∧
    ∀ before k after, gone = before ++ k :: after → Followed capacity k (after ++ t.order)

section Steps
variable {capacity : ℕ} {log : List K} {t : Tracker K V} {k : K} {v : V}

theorem Queues.empty : Queues capacity [] (Tracker.empty : Tracker K V) where
  perm := .refl _
  bounded := Nat.zero_le _
  log := by
    refine ⟨[], rfl, ?_⟩
    intro before k after h
    simp at h

theorem Queues.lists (h : Queues capacity log t) : Lists capacity t := ⟨h.perm, h.bounded⟩

theorem Queues.mem_order (h : Queues capacity log t) : k ∈ t.order ↔ t.Tracks k := h.lists.mem_order

theorem Queues.nodup (h : Queues capacity log t) : t.order.Nodup := h.lists.nodup

theorem Queues.length (h : Queues capacity log t) : t.entries.keys.length = t.order.length :=
  h.perm.length_eq.symm

/-- A key of the log that is not tracked any more: since it last came in, as many
different others have come in as the map can hold. -/
theorem Queues.forgotten (h : Queues capacity log t) (hlogged : k ∈ log) (hgone : ¬ t.Tracks k) :
    ∃ before after, log = before ++ k :: after ∧ k ∉ after ∧ Followed capacity k after := by
  obtain ⟨gone, hlog, hfollowed⟩ := h.log
  have hnot : k ∉ t.order := mt h.mem_order.mp hgone
  have hmem : k ∈ gone := by
    rw [hlog, List.mem_append] at hlogged
    exact hlogged.resolve_right hnot
  obtain ⟨after, before, hsplit, hlast⟩ := List.eq_append_cons_of_mem (List.mem_reverse.mpr hmem)
  have hgoneEq : gone = before.reverse ++ k :: after.reverse := by
    simpa using congrArg List.reverse hsplit
  refine ⟨before.reverse, after.reverse ++ t.order, ?_, ?_, hfollowed _ k _ hgoneEq⟩
  · rw [hlog, hgoneEq]
    simp
  · simp [hlast, hnot]

variable [DecidableEq K]

/-- With room, nothing is dropped. -/
theorem evictFrom_of_lt {entries : AList fun _ : K => V} {order : List K}
    (h : entries.keys.length < capacity) : evictFrom capacity entries order = ⟨entries, order⟩ := by
  cases order with
  | nil => rfl
  | cons oldest rest => exact if_neg (Nat.not_le.mpr h)

/-- A full map loses exactly the key at the front. -/
theorem Queues.evictFrom_of_full (h : Queues capacity log t) {oldest : K} {rest : List K}
    (horder : t.order = oldest :: rest) (hfull : t.order.length = capacity) :
    evictFrom capacity t.entries t.order = ⟨t.entries.erase oldest, rest⟩ := by
  have hkeys : t.entries.keys.length = capacity := h.length.trans hfull
  have htracked : oldest ∈ t.entries.keys := h.perm.mem_iff.mp (by simp [horder])
  have hroom : (t.entries.erase oldest).keys.length < capacity := by
    rw [AList.keys_erase, List.length_erase_of_mem htracked, hkeys]
    have hpos : 0 < t.entries.keys.length := List.length_pos_of_mem htracked
    omega
  rw [horder]
  exact (if_pos (Nat.le_of_eq hkeys.symm)).trans (evictFrom_of_lt hroom)

/-- A tracked key keeps its place. -/
theorem Queues.refresh (h : Queues capacity log t) (htracked : t.Tracks k) :
    Queues capacity log (record capacity k v t) := by
  rw [record, if_pos htracked]
  exact ⟨(h.lists.insert_tracked htracked).perm, h.bounded, h.log⟩

theorem Queues.enter_room (h : Queues capacity log t) (hnew : ¬ t.Tracks k)
    (hroom : t.order.length < capacity) :
    Queues capacity (log ++ [k]) (record capacity k v t) := by
  have hrecord : record capacity k v t = ⟨t.entries.insert k v, t.order ++ [k]⟩ := by
    rw [record, if_neg hnew, evictFrom_of_lt (h.length ▸ hroom)]
  have hlists : Lists capacity ⟨t.entries.insert k v, t.order ++ [k]⟩ :=
    h.lists.insert_new hnew (h.length ▸ hroom)
  obtain ⟨gone, hlog, hgone⟩ := h.log
  rw [hrecord]
  refine ⟨hlists.perm, hlists.bounded, gone, by simp [hlog], ?_⟩
  intro before k' after heq
  rw [← List.append_assoc]
  exact (hgone before k' after heq).append [k]

theorem Queues.enter_full (h : Queues capacity log t) (hnew : ¬ t.Tracks k) {oldest : K}
    {rest : List K} (horder : t.order = oldest :: rest) (hfull : t.order.length = capacity) :
    Queues capacity (log ++ [k]) (record capacity k v t) := by
  have hrecord : record capacity k v t =
      ⟨(t.entries.erase oldest).insert k v, rest ++ [k]⟩ := by
    rw [record, if_neg hnew, h.evictFrom_of_full horder hfull]
  have hnodup := h.nodup
  rw [horder, List.nodup_cons] at hnodup
  have hk : k ∉ oldest :: rest := by
    rw [← horder, h.mem_order]
    exact hnew
  obtain ⟨hne, -⟩ := not_or.mp (mt List.mem_cons.mpr hk)
  have hpos : 0 < capacity := by
    rw [← hfull, horder]
    exact Nat.succ_pos _
  have hlists : Lists capacity ⟨(t.entries.erase oldest).insert k v, rest ++ [k]⟩ := by
    have hevicted := h.lists.evict
    have hroom := evictFrom_room h.perm hpos
    have hstill := h.lists.not_tracks_evict hnew
    rw [h.evictFrom_of_full horder hfull] at hevicted hroom hstill
    exact hevicted.insert_new hstill hroom
  obtain ⟨gone, hlog, hgone⟩ := h.log
  rw [hrecord]
  refine ⟨hlists.perm, hlists.bounded, gone ++ [oldest], by simp [hlog, horder], ?_⟩
  -- the key just dropped is followed by the rest of the queue and the newcomer
  intro before k' after heq
  rcases List.eq_nil_or_concat after with rfl | ⟨after, last, rfl⟩
  · obtain ⟨-, rfl⟩ : gone = before ∧ oldest = k' := by
      simpa using List.append_inj' heq rfl
    refine ⟨rest ++ [k], List.prefix_rfl, ?_, hlists.nodup, ?_⟩
    · rw [horder] at hfull
      simpa using hfull
    · simp [hnodup.1, Ne.symm hne]
  · obtain ⟨hbefore, rfl⟩ : gone = before ++ k' :: after ∧ oldest = last := by
      have hsplit : gone ++ [oldest] = (before ++ k' :: after) ++ [last] := by simpa using heq
      simpa using List.append_inj' hsplit rfl
    have hfollowed := (hgone before k' after hbefore).append [k]
    rw [horder] at hfollowed
    simpa using hfollowed

/-- A new key goes to the log, a tracked one does not. -/
theorem Queues.record (h : Queues capacity log t) (hpos : 0 < capacity) :
    Queues capacity (log ++ if t.Tracks k then [] else [k]) (Tracker.record capacity k v t) := by
  by_cases htracked : t.Tracks k
  · rw [if_pos htracked, List.append_nil]
    exact h.refresh htracked
  · rw [if_neg htracked]
    rcases Nat.lt_or_eq_of_le h.bounded with hroom | hfull
    · exact h.enter_room htracked hroom
    · cases horder : t.order with
      | nil =>
          rw [horder] at hfull
          simp only [List.length_nil] at hfull
          omega
      | cons oldest rest => exact h.enter_full htracked horder hfull

theorem lookup_record (capacity : ℕ) (k : K) (v : V) (t : Tracker K V) :
    (Tracker.record capacity k v t).entries.lookup k = some v := by
  unfold Tracker.record
  split <;> exact AList.lookup_insert _

/-- Recording changes nobody else's value, though it may drop one. -/
theorem lookup_record_ne {k' : K} {u : V} (hne : k' ≠ k)
    (h : (Tracker.record capacity k v t).entries.lookup k' = some u) :
    t.entries.lookup k' = some u := by
  have hevict : ∀ (order : List K) (entries : AList fun _ : K => V),
      (evictFrom capacity entries order).entries.lookup k' = some u →
        entries.lookup k' = some u := by
    intro order
    induction order with
    | nil => exact fun _ h => h
    | cons oldest rest ih =>
        intro entries h
        unfold evictFrom at h
        split at h
        · have hrest := ih _ h
          by_cases holdest : k' = oldest
          · rw [holdest, AList.lookup_erase] at hrest
            cases hrest
          · rwa [AList.lookup_erase_ne holdest] at hrest
        · exact h
  unfold Tracker.record at h
  split at h
  · rwa [AList.lookup_insert_ne hne] at h
  · rw [AList.lookup_insert_ne hne] at h
    exact hevict _ _ h

end Steps
end Tracker
end SimplyIpExporter.FirstSeenQueues
