import SimplyIpExporter.SyncPasses

/-!
# The history of one endpoint's cache

One endpoint is watched. Beside the state of the process runs a history: what Vault
held when the worker last fetched, and which fetch the cache of the endpoint goes
back to. The invariant here ties the worker's own variables to the tables, the cache
and that history. It needs no assumption: the worker's copy of a cursor is the stored
one, because nobody else writes it, and what the worker stores is what it has just
fetched.
-/
namespace SimplyIpExporter.SyncHistory
open Entities KeyedTables AddressCache VaultClient VaultMemberships Storage Services Programs
open Interleaving EndpointHandlers SyncWorker Routes SyncPasses

/-- A successful fetch: what was asked for and returned, what Vault held, and which
groups the endpoint's row named at that moment. -/
structure Serving where
  vault : Vault
  groups : String
  since : Option NaiveDateTime
  records : List VaultApiRecord
  configured : Option String

structure History where
  served : Option Serving
  /-- The fetch that the cache of the endpoint goes back to. -/
  synced : Option Serving

def History.start : History := ⟨none, none⟩

def note (focus : Uuid) : (c : Call) → Answer c → World → History → History
  | .fetchIps groups since, .ok records, s, h =>
      let configured := (s.db.endpoints.find focus).map (·.vaultGroups)
      { h with served := some ⟨s.vault, groups, since, records, configured⟩ }
  | .applyFull id _, _, _, h | .applyDiff id _, _, _, h =>
      if id = focus then { h with synced := h.served } else h
  | _, _, _, h => h

def observed (crates : Crates) (focus : Uuid) : System Answer Choice Change (World × History) :=
  observe (system crates) (note focus)

abbrev Observed (I : Type) := Pool Answer I (Option (Except AppError Response)) (World × History)

def Serving.names (f : Serving) : List String := groupNames f.groups

/-- The whole second a cursor stands for in a query. -/
def wholeSecond (t : NaiveDateTime) : NaiveDateTime := timestamp t * nanosPerSecond

/-- Every membership that is no longer as the fetch saw it changed at the bound or
later. -/
def ChangedFrom (bound : NaiveDateTime) (f : Serving) (v : Vault) : Prop :=
  ∀ g ∈ f.names, ∀ address, f.vault.lookup (g, address) ≠ v.lookup (g, address) →
    ∃ m, v.lookup (g, address) = some m ∧ bound ≤ m.changedAt

theorem changedFrom_iff {bound : NaiveDateTime} {f : Serving} {v : Vault} : ChangedFrom bound f v ↔
    ∀ key ∈ f.vault.keys ++ v.keys, key.1 ∈ f.names → f.vault.lookup key ≠ v.lookup key →
      (v.lookup key).any (fun m => decide (bound ≤ m.changedAt)) = true := by
  constructor
  · rintro h ⟨g, address⟩ _ hg hne
    obtain ⟨m, hm, hbound⟩ := h g hg address hne
    simp [hm, hbound]
  · intro h g hg address hne
    have hmem : (g, address) ∈ f.vault.keys ++ v.keys := by
      by_contra hnot
      obtain ⟨hold, hnew⟩ := not_or.mp (mt List.mem_append.mpr hnot)
      exact hne ((AList.lookup_eq_none.mpr hold).trans (AList.lookup_eq_none.mpr hnew).symm)
    obtain ⟨m, hm, hbound⟩ := (Option.any_eq_true _ _).mp (h (g, address) hmem hg hne)
    exact ⟨m, hm, of_decide_eq_true hbound⟩

instance (bound : NaiveDateTime) (f : Serving) (v : Vault) : Decidable (ChangedFrom bound f v) :=
  decidable_of_iff' _ changedFrom_iff

theorem ChangedFrom.refl (bound : NaiveDateTime) (f : Serving) : ChangedFrom bound f f.vault :=
  fun _ _ _ hne => absurd rfl hne

theorem ChangedFrom.commit {bound t lastSeenAt : NaiveDateTime} {f : Serving} {v : Vault}
    {group address : String} {deleted : Bool} (hf : ChangedFrom bound f v) (hbound : bound ≤ t) :
    ChangedFrom bound f (v.insert (group, address) ⟨lastSeenAt, deleted, t⟩) := by
  intro g hg a hne
  by_cases hkey : (g, a) = (group, address)
  · rw [hkey, AList.lookup_insert]
    exact ⟨_, rfl, hbound⟩
  · rw [AList.lookup_insert_ne hkey] at hne ⊢
    exact hf g hg a hne

/-- What has changed from the cursor on is what a query from the cursor lists. -/
theorem ChangedFrom.batch {t : NaiveDateTime} {f f₀ : Serving}
    (hf : ChangedFrom (wholeSecond t) f₀ f.vault) (hnames : f₀.names = f.names)
    (hperm : f.records.Perm (query f.vault f.names (some t))) :
    Batch f₀.vault f.vault f.names f.records where
  current := by
    intro r hr
    obtain ⟨g, hg, address, m, hm, rfl, -⟩ := mem_query.mp (hperm.mem_iff.mp hr)
    exact ⟨g, hg, m, hm, rfl⟩
  changed := by
    intro g hg address hne
    obtain ⟨m, hm, hbound⟩ := hf g (hnames ▸ hg) address hne
    exact ⟨m, hm, hperm.mem_iff.mpr (mem_query.mpr ⟨g, hg, address, m, hm, rfl, hbound⟩)⟩

/-- The stored cursor of the endpoint. -/
def cursor (focus : Uuid) (s : World) : Option NaiveDateTime :=
  (s.db.endpoints.find focus).bind (·.lastSyncedAt)

theorem wholeSecond_le (t : NaiveDateTime) : wholeSecond t ≤ t := Int.ediv_mul_le t (by decide)

theorem cursor_of_row {focus : Uuid} {s : World} {row : Endpoint}
    (hrow : row ∈ s.db.endpoints.rows) (hid : row.id = focus) :
    cursor focus s = row.lastSyncedAt := by
  rw [cursor, Table.find_eq_some.mpr ⟨hrow, hid⟩]
  rfl

/-- An update of an endpoint reaches no cache, and moves a cursor only if it sets it. -/
theorem exec_updateEndpoint (focus : Uuid) {crates : Crates} {id : Uuid} {ch : EndpointChanges}
    {row' : Endpoint} {e : Choice} {s s' : World}
    (hexec : exec crates (.db (.updateEndpoint id ch)) e s = some (.ok row', s')) :
    cursor focus s' =
        (if id = focus then ch.lastSyncedAt.getD (cursor focus s) else cursor focus s) ∧
      s'.cache = s.cache ∧ s'.vault = s.vault ∧ s'.clock = s.clock := by
  obtain ⟨db, hrun, -, rfl⟩ := exec_db_ok hexec
  obtain ⟨row, hrow, -, rfl⟩ := run_updateEndpoint hrun
  refine ⟨?_, rfl, rfl, rfl⟩
  unfold cursor
  dsimp only
  rw [Table.find_change]
  by_cases hid : id = focus
  · subst hid
    have hid' : row.id = id := (Table.find_eq_some.mp hrow).2
    simp [hrow, hid', EndpointChanges.apply]
  · rw [if_neg hid]
    cases hfind : s.db.endpoints.find focus with
    | none => rfl
    | some r =>
        have hr : r.id ≠ id := by
          rw [(Table.find_eq_some.mp hfind).2]
          exact Ne.symm hid
        simp [hr]

/-- What the worker's variables say about the tables, the cache and the history. -/
structure PassTracks (focus : Uuid) (w : Pass) (s : World) (h : History) : Prop where
  distinct : (w.rows.map (·.id)).Nodup
  copied : ∀ row ∈ w.rows, row.id = focus → row.lastSyncedAt = cursor focus s
  received : ∀ records, w.reply = some records → ∃ ep f, w.current = some ep ∧ h.served = some f ∧
    f.records = records ∧ f.groups = ep.vaultGroups ∧
    f.since = (if w.full then none else ep.lastSyncedAt) ∧
    f.records.Perm (query f.vault f.names f.since)
  stored : ∀ ep, w.current = some ep → ep.id = focus → w.applied = true → h.synced = h.served
  begun : ∀ ep, w.current = some ep → ep.id = focus → w.full = false → h.synced ≠ none
  blank : h.synced = none → (s.cache.lookup focus).bind (·.lastFullSyncAt) = none
  past : ∀ t, cursor focus s = some t → t ≤ s.clock
  read : ∀ t, w.now = some t → t ≤ s.clock

section PassTracks
variable {crates : Crates} {focus : Uuid} {w : Pass} {s s' : World} {h : History} {e : Choice}

/-- Nothing that matters to the worker has moved, except perhaps the clock. -/
theorem PassTracks.frame (ht : PassTracks focus w s h) (hcursor : cursor focus s' = cursor focus s)
    (hcache : s'.cache.lookup focus = s.cache.lookup focus) (hclock : s.clock ≤ s'.clock) :
    PassTracks focus w s' h where
  distinct := ht.distinct
  copied := by
    rw [hcursor]
    exact ht.copied
  received := ht.received
  stored := ht.stored
  begun := ht.begun
  blank := by
    rw [hcache]
    exact ht.blank
  past := by
    rw [hcursor]
    intro t hcur
    exact (ht.past t hcur).trans hclock
  read := by
    intro t hnow
    exact (ht.read t hnow).trans hclock

/-- The worker holds fewer rows and has nothing in hand. -/
theorem PassTracks.listed {rows : List Endpoint} (ht : PassTracks focus w s h)
    (hdistinct : (rows.map (·.id)).Nodup)
    (hcopied : ∀ row ∈ rows, row.id = focus → row.lastSyncedAt = cursor focus s) :
    PassTracks focus (.listed rows) s h where
  distinct := hdistinct
  copied := hcopied
  received := by
    intro records hreply
    cases hreply
  stored := by
    intro ep hcurrent
    cases hcurrent
  begun := by
    intro ep hcurrent
    cases hcurrent
  blank := ht.blank
  past := ht.past
  read := by
    intro t hnow
    cases hnow

theorem PassTracks.list {answer : Except DbErr (List Endpoint)} (ht : PassTracks focus w s h)
    (hexec : exec crates (.db .allEndpoints) e s = some (answer, s')) :
    PassTracks focus (w.next (.db .allEndpoints) answer) s' h := by
  cases answer with
  | error err =>
      cases exec_db_error hexec
      exact ht
  | ok rows =>
      obtain ⟨db, hrun, -, rfl⟩ := exec_db_ok hexec
      cases hrun
      refine ht.listed s.db.endpoints.distinct ?_
      intro row hrow hid
      exact (cursor_of_row hrow hid).symm

theorem PassTracks.begin {due : Bool} {id : Uuid} (ht : PassTracks focus w s h)
    (hpermits : w.permits (.fullSyncDue id))
    (hexec : exec crates (.fullSyncDue id) e s = some (due, s')) :
    PassTracks focus (w.next (.fullSyncDue id) due) s' h := by
  obtain ⟨ep, hhead, rfl⟩ := hpermits
  obtain ⟨t, rfl, rfl⟩ := exec_fullSyncDue hexec
  obtain ⟨rest, hpending⟩ := List.head?_eq_some_iff.mp hhead
  have hnext : w.next (.fullSyncDue ep.id)
      (AddressCache.fullSyncDue ep.id fullSyncInterval t s.cache) =
      .begun ep rest (AddressCache.fullSyncDue ep.id fullSyncInterval t s.cache) := by
    simp [Pass.next, Pass.begun, hpending]
  have hrows :
      (Pass.begun ep rest (AddressCache.fullSyncDue ep.id fullSyncInterval t s.cache)).rows =
      w.pending := hpending.symm
  have hsublist : w.pending.Sublist w.rows := List.sublist_append_right _ _
  rw [hnext]
  refine ⟨?_, ?_, ?_, ?_, ?_, ht.blank, ht.past, ?_⟩
  · rw [hrows]
    exact ht.distinct.sublist (hsublist.map _)
  · rw [hrows]
    intro row hrow
    exact ht.copied row (hsublist.mem hrow)
  · intro records hreply
    cases hreply
  · intro ep' _ _ happlied
    cases happlied
  · -- without an earlier sync the cache has no full sync to go back to
    rintro _ ⟨⟩ rfl hdue hnone
    have hblank := ht.blank hnone
    have hdue' : AddressCache.fullSyncDue ep.id fullSyncInterval t s.cache = false := hdue
    rw [AddressCache.fullSyncDue, hblank] at hdue'
    cases hdue'
  · intro t' hnow
    cases hnow

theorem PassTracks.tick {t : NaiveDateTime} (ht : PassTracks focus w s h)
    (hexec : exec crates .now e s = some (t, s')) : PassTracks focus (w.next .now t) s' h := by
  obtain ⟨hclock, rfl⟩ := exec_now hexec
  refine ⟨ht.distinct, ht.copied, ht.received, ht.stored, ht.begun, ht.blank, ?_, ?_⟩
  · intro t' hcur
    exact (ht.past t' hcur).trans hclock
  · rintro t' ⟨⟩
    exact le_refl t

theorem PassTracks.fetch {groups : String} {since : Option NaiveDateTime}
    {reply : Except VaultError (List VaultApiRecord)} (ht : PassTracks focus w s h)
    (hpermits : w.permits (.fetchIps groups since))
    (hexec : exec crates (.fetchIps groups since) e s = some (reply, s')) :
    PassTracks focus (w.next (.fetchIps groups since) reply) s'
      (note focus (.fetchIps groups since) reply s h) := by
  obtain ⟨rfl, hperm⟩ := exec_fetchIps hexec
  cases reply with
  | error err => exact ht
  | ok records =>
      obtain ⟨happlied, ep, hcurrent, rfl, rfl⟩ := hpermits
      refine ⟨ht.distinct, ht.copied, ?_, ?_, ht.begun, ht.blank, ht.past, ht.read⟩
      · rintro _ ⟨⟩
        exact ⟨ep, _, hcurrent, rfl, rfl, rfl, rfl, hperm records rfl⟩
      · intro ep' _ _ happlied'
        have htrue : w.applied = true := happlied'
        rw [happlied] at htrue
        cases htrue

/-- Storing what was received, in either way. -/
theorem PassTracks.store {id : Uuid} {records : List VaultApiRecord} (ht : PassTracks focus w s h)
    (hreceived : w.Received id records)
    (hcache : id ≠ focus → s'.cache.lookup focus = s.cache.lookup focus) (hdb : s'.db = s.db)
    (hclock : s'.clock = s.clock) :
    PassTracks focus { w with applied := true } s'
      (if id = focus then { h with synced := h.served } else h) := by
  obtain ⟨⟨ep, hcurrent, rfl⟩, hreply, -⟩ := hreceived
  obtain ⟨ep', f, hcurrent', hserved, hrest⟩ := ht.received records hreply
  obtain rfl : ep = ep' := Option.some.inj (hcurrent.symm.trans hcurrent')
  have hcursor : cursor focus s' = cursor focus s := by
    unfold cursor
    rw [hdb]
  by_cases hid : ep.id = focus
  · rw [if_pos hid]
    refine ⟨ht.distinct, ?_, ht.received, fun _ _ _ _ => rfl, ?_, ?_, ?_, ?_⟩
    · rw [hcursor]
      exact ht.copied
    · intro _ _ _ _
      simp [hserved]
    · intro hnone
      simp [hserved] at hnone
    · rw [hcursor, hclock]
      exact ht.past
    · rw [hclock]
      exact ht.read
  · rw [if_neg hid]
    obtain ⟨hdistinct, hcopied, hreceived', -, hbegun, hblank, hpast, hread⟩ :=
      ht.frame hcursor (hcache hid) hclock.ge
    refine ⟨hdistinct, hcopied, hreceived', ?_, hbegun, hblank, hpast, hread⟩
    intro ep' hep' hid' _
    obtain rfl : ep = ep' := Option.some.inj (hcurrent.symm.trans hep')
    exact absurd hid' hid

theorem PassTracks.mark {id : Uuid} {ch : EndpointChanges} {answer : Except DbErr Endpoint}
    (ht : PassTracks focus w s h) (hpermits : w.permits (.db (.updateEndpoint id ch)))
    (hexec : exec crates (.db (.updateEndpoint id ch)) e s = some (answer, s')) :
    PassTracks focus (.listed w.pending) s' h := by
  obtain ⟨-, ⟨ep, hcurrent, rfl⟩, t, hnow, rfl⟩ := hpermits
  have hrows : w.rows = ep :: w.pending := by
    rw [Pass.rows, hcurrent]
    rfl
  have hdistinct := ht.distinct
  rw [hrows, List.map_cons, List.nodup_cons] at hdistinct
  have hlisted : PassTracks focus (.listed w.pending) s h := by
    refine ht.listed hdistinct.2 ?_
    intro row hrow
    exact ht.copied row (by rw [hrows]; exact List.mem_cons_of_mem _ hrow)
  cases answer with
  | error err =>
      cases exec_db_error hexec
      exact hlisted
  | ok row' =>
      obtain ⟨hcursor, hcache, -, hclock⟩ := exec_updateEndpoint focus hexec
      by_cases hid : ep.id = focus
      · subst hid
        rw [if_pos rfl, Option.getD_some] at hcursor
        refine ⟨hdistinct.2, ?_, hlisted.received, hlisted.stored, hlisted.begun, ?_, ?_, ?_⟩
        · intro row hrow hid
          exact absurd (hid ▸ List.mem_map_of_mem hrow) hdistinct.1
        · rw [hcache]
          exact ht.blank
        · rw [hcursor, hclock]
          rintro t' ⟨⟩
          exact ht.read t hnow
        · intro t' hnow'
          cases hnow'
      · rw [if_neg hid] at hcursor
        exact hlisted.frame hcursor (by rw [hcache]) hclock.ge

/-- One call of the worker. -/
theorem PassTracks.step {c : Call} {r : Answer c} (ht : PassTracks focus w s h)
    (hpermits : w.permits c) (hexec : exec crates c e s = some (r, s')) :
    PassTracks focus (w.next c r) s' (note focus c r s h) := by
  cases c with
  | db st =>
      cases st with
      | allEndpoints => exact ht.list hexec
      | updateEndpoint id ch => exact ht.mark hpermits hexec
      | _ => exact absurd hpermits id
  | now => exact ht.tick hexec
  | fullSyncDue id => exact ht.begin hpermits hexec
  | fetchIps groups since => exact ht.fetch hpermits hexec
  | applyFull id rs =>
      obtain ⟨-, records, hreceived, -⟩ := hpermits
      obtain ⟨t, rfl⟩ := exec_applyFull hexec
      exact ht.store hreceived (fun hid => AList.lookup_insert_ne (Ne.symm hid)) rfl rfl
  | applyDiff id rs =>
      obtain ⟨-, records, hreceived, -⟩ := hpermits
      cases exec_applyDiff hexec
      exact ht.store hreceived (fun hid => AList.lookup_insert_ne (Ne.symm hid)) rfl rfl
  | _ => exact absurd hpermits id

end PassTracks

/-- What an edit and a change in Vault leave alone. -/
structure Aside (focus : Uuid) (s s' : World) : Prop where
  cursor : cursor focus s' = cursor focus s
  cache : s'.cache = s.cache
  clock : s.clock ≤ s'.clock

theorem aside_of_env (focus : Uuid) {ch : Change} {s s' : World} (henv : env ch s = some s') :
    Aside focus s s' := by
  obtain ⟨group, address, lastSeenAt, deleted, t⟩ := ch
  simp only [env] at henv
  split at henv
  · cases henv
    exact ⟨rfl, rfl, by assumption⟩
  · cases henv

theorem aside_of_edit {crates : Crates} {focus : Uuid} {w : Pass} {c : Call} {e : Choice}
    {s s' : World} {r : Answer c} (hpermits : editing.permits w c)
    (hexec : exec crates c e s = some (r, s')) : Aside focus s s' ∧ s'.vault = s.vault := by
  cases c with
  | db st =>
      cases r with
      | error err =>
          cases exec_db_error hexec
          exact ⟨⟨rfl, rfl, le_rfl⟩, rfl⟩
      | ok rows =>
          cases st with
          | updateEndpoint id ch =>
              have hch : ch.lastSyncedAt = none := hpermits
              obtain ⟨hcursor, hcache, hvault, hclock⟩ := exec_updateEndpoint focus hexec
              rw [hch, Option.getD_none, ite_self] at hcursor
              exact ⟨⟨hcursor, hcache, hclock.ge⟩, hvault⟩
          | insertEndpoint _ => cases hpermits
          | deleteEndpoint _ => cases hpermits
          | _ =>
              obtain ⟨db, hrun, -, rfl⟩ := exec_db_ok hexec
              refine ⟨⟨?_, rfl, le_rfl⟩, rfl⟩
              unfold SyncHistory.cursor
              dsimp only
              rw [run_not_onEndpoints rfl hrun]
  | now | newUuid | random _ =>
      obtain ⟨hsame, hclock⟩ := exec_drawing rfl hexec
      rw [hsame]
      exact ⟨⟨rfl, rfl, hclock⟩, rfl⟩
  | listGroups =>
      cases e <;> cases hexec
      exact ⟨⟨rfl, rfl, le_rfl⟩, rfl⟩
  | _ => exact absurd hpermits id

end SimplyIpExporter.SyncHistory
