import SimplyIpExporter.Journals
import SimplyIpExporter.CacheFreshness

/-!
# Interrupted syncs

A process lives through one boot sync, which is dropped at some await or runs to its
end, and then through the passes of the worker; requests may update endpoints meanwhile.
Every page request of a fetch is answered by a server that may do anything. When the
process dies, the cache is lost and the database is kept.

The journal of a life says what a sync has done so far: its entries since the worker
last asked whether a full sync is due. As long as none of them is a fetch that succeeded,
the sync has touched nothing. A cursor moves only after a fetched batch has been stored,
and a differential batch is stored only on top of a full one, both in the same life.
-/
namespace SimplyIpExporter.InterruptedSyncs
open Entities KeyedTables AddressCache VaultClient VaultMemberships Storage Services Programs
open Interleaving Journals EndpointHandlers SyncWorker Routes SyncPasses SyncHistory CacheFreshness

/-- Fetches are decided page by page, everything else as usual. -/
inductive SyncChoice where
  | plain (choice : Choice)
  | pages (server : Server) (pick : ℕ → ℕ)

def exec (crates : Crates) : (c : Call) → SyncChoice → World → Option (Answer c × World)
  | .fetchIps groups since, .pages server pick, w =>
      some ((VaultClient.fetchIps server pick pageSizeDefault groups since).1, w)
  | .fetchIps _ _, .plain _, _ => none
  | c, .plain choice, w => Services.exec crates c choice w
  | _, .pages _ _, _ => none

def system (crates : Crates) : System Answer SyncChoice Change World := ⟨exec crates, env⟩

structure Life (I : Type) where
  /-- How many calls the boot sync gets to make. -/
  budget : ℕ
  /-- How many passes the worker makes. -/
  passes : ℕ
  requests : I → Task
  updates : ∀ i, IsUpdate (requests i)
  events : List (Event (Option I) SyncChoice Change)

section Lives
variable {I : Type}

/-- The boot sync within its budget, then the worker. -/
def bootAndWork (app : AppState) (budget passes : ℕ) :
    Program Answer (Option (Except AppError Response)) :=
  dropAfter budget (syncAllEndpoints app.vaultConfigured) >>= fun _ =>
    (Task.sync passes).program app

/-- The process as it starts: nothing is cached. -/
def Life.start (app : AppState) (l : Life I) (w : World) : Process (Option I) where
  state := { w with cache := ∅ }
  threads
    | none => bootAndWork app l.budget l.passes
    | some i => (l.requests i).program app

variable [DecidableEq I]

def Life.run (app : AppState) (l : Life I) (w : World) : Option (Process (Option I)) :=
  Interleaving.run (system app.crates) (l.start app w) l.events

def Life.journal (app : AppState) (l : Life I) (w : World) : List (Entry Answer (Option I) World) :=
  Journals.journal (system app.crates) (l.start app w) l.events

/-- One life after the other. -/
def lifetimes (app : AppState) (w : World) (lives : List (Life I)) : Option World :=
  lives.foldlM (fun w l => (l.run app w).map (·.state)) w

end Lives

section Syncs
variable {I : Type}

/-- The call with which the sync of an endpoint begins. -/
def begins : Call → Option Uuid
  | .fullSyncDue id => some id
  | _ => none

/-- The records a fetch has succeeded with. -/
def delivered : (c : Call) → Answer c → Option (List VaultApiRecord)
  | .fetchIps _ _, .ok records => some records
  | _, _ => none

/-- The batch that is stored, and for which endpoint. -/
def batch : Call → Option (Uuid × List VaultRecord)
  | .applyFull id records | .applyDiff id records => some (id, records)
  | _ => none

/-- The entries from the last beginning of a sync on. -/
def lastSync (j : List (Entry Answer I World)) : List (Entry Answer I World) :=
  j.foldl (fun entries en => if (begins en.call).isSome then [en] else entries ++ [en]) []

theorem lastSync_begins {j : List (Entry Answer I World)} {en : Entry Answer I World}
    (h : (begins en.call).isSome) : lastSync (j ++ [en]) = [en] := by
  simp [lastSync, h]

theorem lastSync_append {j : List (Entry Answer I World)} {en : Entry Answer I World}
    (h : begins en.call = none) : lastSync (j ++ [en]) = lastSync j ++ [en] := by
  simp [lastSync, h]

/-- The full-sync clock of the endpoint. -/
def fullSyncClock (id : Uuid) (s : World) : Option ℤ := (s.cache.lookup id).bind (·.lastFullSyncAt)

/-- The cache entry of the endpoint, with its records and its clock, and the stored cursor
are the same. -/
structure SameEntry (id : Uuid) (s s' : World) : Prop where
  cached : s'.cache.lookup id = s.cache.lookup id
  cursor : cursor id s' = cursor id s

theorem SameEntry.trans {id : Uuid} {s₁ s₂ s₃ : World} (h : SameEntry id s₁ s₂)
    (h' : SameEntry id s₂ s₃) : SameEntry id s₁ s₃ :=
  ⟨h'.cached.trans h.cached, h'.cursor.trans h.cursor⟩

theorem SameEntry.of_eq {id : Uuid} {s s' : World} (hcache : s'.cache = s.cache)
    (hdb : s'.db = s.db) :
    SameEntry id s s' where
  cached := by rw [hcache]
  cursor := by rw [SyncHistory.cursor, hdb]; rfl

theorem SameEntry.fullSyncClock {id : Uuid} {s s' : World} (h : SameEntry id s s') :
    fullSyncClock id s' = fullSyncClock id s := by
  rw [InterruptedSyncs.fullSyncClock, h.cached]
  rfl

/-- The batch was fetched, and then stored for the endpoint. -/
def FetchedAndStored (id : Uuid) (entries : List (Entry Answer I World)) : Prop :=
  ∃ fetch store records, [fetch, store].Sublist entries ∧
    delivered fetch.call fetch.answer = some records ∧
    batch store.call = some (id, mapRecords records)

/-- What the journal and the worker's variables say about the cache and the cursors. -/
structure Consistent (j : List (Entry Answer I World)) (w : Pass) (s : World) : Prop where
  begun : ∀ ep, w.current = some ep → ∃ first rest, lastSync j = first :: rest ∧
    first.call = .fullSyncDue ep.id
  failing : ∀ first rest id, lastSync j = first :: rest → first.call = .fullSyncDue id →
    (∀ en ∈ lastSync j, delivered en.call en.answer = none) →
    w.reply = none ∧ w.applied = false ∧ SameEntry id first.before s
  received : ∀ records, w.reply = some records →
    ∃ fetch ∈ lastSync j, delivered fetch.call fetch.answer = some records
  stored : ∀ ep, w.current = some ep → w.applied = true → FetchedAndStored ep.id (lastSync j)
  clocked : ∀ id, (fullSyncClock id s).isSome → ∃ en ∈ j, ∃ records, en.call = .applyFull id records
  differential : ∀ ep, w.current = some ep → w.full = false → (fullSyncClock ep.id s).isSome

end Syncs

section Steps
variable {I : Type} {crates : Crates} {j : List (Entry Answer I World)} {w w' : Pass} {s s' : World}
  {e : SyncChoice} {i : I}

/-- The one call whose answer is put together from pages. -/
def fetches : Call → Bool
  | .fetchIps _ _ => true
  | _ => false

theorem exec_plain {c : Call} {r : Answer c} (hc : fetches c = false)
    (h : exec crates c e s = some (r, s')) :
    ∃ choice, Services.exec crates c choice s = some (r, s') := by
  cases e with
  | plain choice =>
      refine ⟨choice, ?_⟩
      cases c with
      | fetchIps groups since => cases hc
      | _ => exact h
  | pages server pick =>
      cases c with
      | fetchIps groups since => cases hc
      | _ => cases h

theorem exec_fetchIps {groups : String} {since : Option NaiveDateTime}
    {r : Except VaultError (List VaultApiRecord)}
    (h : exec crates (.fetchIps groups since) e s = some (r, s')) : s' = s := by
  cases e with
  | plain choice => cases h
  | pages server pick =>
      cases h
      rfl

/-- Without an entry, when nothing has moved. -/
theorem Consistent.still (hs : Consistent j w s) (hsame : ∀ id, SameEntry id s s') :
    Consistent j w s' where
  begun := hs.begun
  failing := by
    intro first rest id hlatest hfirst hfailed
    obtain ⟨hreply, happlied, hbefore⟩ := hs.failing first rest id hlatest hfirst hfailed
    exact ⟨hreply, happlied, hbefore.trans (hsame id)⟩
  received := hs.received
  stored := hs.stored
  clocked := by
    intro id
    rw [(hsame id).fullSyncClock]
    exact hs.clocked id
  differential := by
    intro ep
    rw [(hsame ep.id).fullSyncClock]
    exact hs.differential ep

theorem FetchedAndStored.append {id : Uuid} {entries : List (Entry Answer I World)}
    (h : FetchedAndStored id entries) (en : Entry Answer I World) :
    FetchedAndStored id (entries ++ [en]) := by
  obtain ⟨fetch, store, records, hsublist, hrest⟩ := h
  exact ⟨fetch, store, records, hsublist.trans (List.sublist_append_left _ _), hrest⟩

section Entries
variable {en : Entry Answer I World}

/-- A journal that goes on with the same sync began where it did before. -/
theorem lastSync_cons_of_append (hbegins : begins en.call = none) {first : Entry Answer I World}
    {rest : List (Entry Answer I World)} {id : Uuid}
    (hlatest : lastSync (j ++ [en]) = first :: rest) (hfirst : first.call = .fullSyncDue id) :
    ∃ rest', lastSync j = first :: rest' := by
  rw [lastSync_append hbegins] at hlatest
  cases hbefore : lastSync j with
  | nil =>
      rw [hbefore] at hlatest
      obtain ⟨rfl, -⟩ : en = first ∧ [] = rest := by simpa using hlatest
      rw [hfirst] at hbegins
      cases hbegins
  | cons first' rest' =>
      rw [hbefore] at hlatest
      obtain ⟨rfl, -⟩ : first' = first ∧ rest' ++ [en] = rest := by simpa using hlatest
      exact ⟨rest', rfl⟩

/-- An entry of no consequence. -/
theorem Consistent.frame (hs : Consistent j w s) (hbegins : begins en.call = none)
    (hcurrent : w'.current = w.current) (hfull : w'.full = w.full) (hreply : w'.reply = w.reply)
    (happlied : w'.applied = w.applied) : Consistent (j ++ [en]) w' s where
  begun := by
    intro ep hep
    obtain ⟨first, rest, hlatest, hfirst⟩ := hs.begun ep (hcurrent ▸ hep)
    refine ⟨first, rest ++ [en], ?_, hfirst⟩
    rw [lastSync_append hbegins, hlatest]
    rfl
  failing := by
    intro first rest id hlatest hfirst hfailed
    obtain ⟨rest', hlatest'⟩ := lastSync_cons_of_append hbegins hlatest hfirst
    rw [lastSync_append hbegins] at hfailed
    rw [hreply, happlied]
    exact hs.failing first rest' id hlatest' hfirst fun en' hen' =>
      hfailed en' (List.mem_append_left _ hen')
  received := by
    intro records hrecords
    obtain ⟨fetch, hfetch, hdelivered⟩ := hs.received records (hreply ▸ hrecords)
    refine ⟨fetch, ?_, hdelivered⟩
    rw [lastSync_append hbegins]
    exact List.mem_append_left _ hfetch
  stored := by
    intro ep hep htrue
    rw [lastSync_append hbegins]
    exact (hs.stored ep (hcurrent ▸ hep) (happlied ▸ htrue)).append en
  clocked := by
    intro id hclock
    obtain ⟨en', hen', hcall⟩ := hs.clocked id hclock
    exact ⟨en', List.mem_append_left _ hen', hcall⟩
  differential := by
    intro ep hep hnot
    exact hs.differential ep (hcurrent ▸ hep) (hfull ▸ hnot)

/-- The worker has no row at hand. -/
theorem Consistent.listed {rows : List Endpoint} (hs : Consistent j w s)
    (hclock : ∀ id, fullSyncClock id s' = fullSyncClock id s)
    (hsame : w.applied = false → ∀ id, SameEntry id s s') : Consistent j (.listed rows) s' where
  begun := by
    intro ep hep
    cases hep
  failing := by
    intro first rest id hlatest hfirst hfailed
    obtain ⟨-, happlied, hbefore⟩ := hs.failing first rest id hlatest hfirst hfailed
    exact ⟨rfl, rfl, hbefore.trans (hsame happlied id)⟩
  received := by
    intro records hreply
    cases hreply
  stored := by
    intro ep hep
    cases hep
  clocked := by
    intro id
    rw [hclock]
    exact hs.clocked id
  differential := by
    intro ep hep
    cases hep

end Entries

theorem Consistent.list {answer : Except DbErr (List Endpoint)} (hs : Consistent j w s)
    (hexec : exec crates (.db .allEndpoints) e s = some (answer, s')) :
    Consistent (j ++ [⟨i, .db .allEndpoints, answer, s, s'⟩]) (w.next (.db .allEndpoints) answer)
      s' := by
  obtain ⟨choice, hplain⟩ := exec_plain rfl hexec
  have hframed : Consistent (j ++ [⟨i, .db .allEndpoints, answer, s, s'⟩]) w s :=
    hs.frame rfl rfl rfl rfl rfl
  cases answer with
  | error err =>
      cases exec_db_error hplain
      exact hframed
  | ok rows =>
      obtain ⟨db, hrun, -, rfl⟩ := exec_db_ok hplain
      cases hrun
      exact hframed.listed (fun _ => rfl) fun _ _ => .of_eq rfl rfl

theorem Consistent.begin {due : Bool} {id : Uuid} (hs : Consistent j w s)
    (hpermits : w.permits (.fullSyncDue id))
    (hexec : exec crates (.fullSyncDue id) e s = some (due, s')) :
    Consistent (j ++ [⟨i, .fullSyncDue id, due, s, s'⟩]) (w.next (.fullSyncDue id) due) s' := by
  obtain ⟨choice, hplain⟩ := exec_plain rfl hexec
  obtain ⟨t, rfl, rfl⟩ := exec_fullSyncDue hplain
  obtain ⟨ep, hhead, rfl⟩ := hpermits
  have hlatest : ∀ en : Entry Answer I World, en.call = .fullSyncDue ep.id →
      lastSync (j ++ [en]) = [en] := by
    intro en hen
    exact lastSync_begins (by rw [hen]; rfl)
  refine ⟨?_, ?_, ?_, ?_, ?_, ?_⟩
  · intro ep' hep'
    obtain rfl : ep = ep' := Option.some.inj (hhead.symm.trans hep')
    exact ⟨_, [], hlatest _ rfl, rfl⟩
  · intro first rest id hfirst hcall _
    rw [hlatest _ rfl] at hfirst
    cases hfirst
    exact ⟨rfl, rfl, .of_eq rfl rfl⟩
  · intro records hreply
    cases hreply
  · intro ep' _ happlied
    cases happlied
  · intro id hclock
    obtain ⟨en, hen, hcall⟩ := hs.clocked id hclock
    exact ⟨en, List.mem_append_left _ hen, hcall⟩
  · -- without a full sync in this life one is due
    intro ep' hep' hnot
    obtain rfl : ep = ep' := Option.some.inj (hhead.symm.trans hep')
    have hdue : AddressCache.fullSyncDue ep.id fullSyncInterval t s.cache = false := hnot
    unfold AddressCache.fullSyncDue at hdue
    change ((s.cache.lookup ep.id).bind (·.lastFullSyncAt)).isSome = true
    cases hclock : (s.cache.lookup ep.id).bind (·.lastFullSyncAt) with
    | none =>
        rw [hclock] at hdue
        cases hdue
    | some ranAt => rfl

theorem Consistent.fetch {groups : String} {since : Option NaiveDateTime}
    {reply : Except VaultError (List VaultApiRecord)} (hs : Consistent j w s)
    (hpermits : w.permits (.fetchIps groups since))
    (hexec : exec crates (.fetchIps groups since) e s = some (reply, s')) :
    Consistent (j ++ [⟨i, .fetchIps groups since, reply, s, s'⟩])
      (w.next (.fetchIps groups since) reply) s' := by
  cases exec_fetchIps hexec
  have hframed : Consistent (j ++ [⟨i, .fetchIps groups since, reply, s, s⟩]) w s :=
    hs.frame rfl rfl rfl rfl rfl
  cases reply with
  | error err => exact hframed
  | ok records =>
      obtain ⟨happlied, ep, hcurrent, -, -⟩ := hpermits
      have hmem : (⟨i, .fetchIps groups since, .ok records, s, s⟩ : Entry Answer I World) ∈
          lastSync (j ++ [⟨i, .fetchIps groups since, .ok records, s, s⟩]) := by
        rw [lastSync_append rfl]
        exact List.mem_append_right _ (List.mem_singleton_self _)
      refine ⟨hframed.begun, ?_, ?_, ?_, hframed.clocked, hframed.differential⟩
      · intro first rest id _ _ hfailed
        cases hfailed _ hmem
      · rintro _ ⟨⟩
        exact ⟨_, hmem, rfl⟩
      · intro ep' hep' htrue
        exact hframed.stored ep' hep' htrue

/-- Storing what was received, in either way. -/
theorem Consistent.store {c : Call} {r : Answer c} {id : Uuid} {records : List VaultApiRecord}
    (hs : Consistent j w s) (hbegins : begins c = none)
    (hbatch : batch c = some (id, mapRecords records)) (hreceived : w.Received id records)
    (hclocked : ∀ id', (fullSyncClock id' s').isSome → (fullSyncClock id' s).isSome ∨
      ∃ records, c = .applyFull id' records)
    (hdifferential : ∀ id', (fullSyncClock id' s).isSome → (fullSyncClock id' s').isSome) :
    Consistent (j ++ [⟨i, c, r, s, s'⟩]) { w with applied := true } s' := by
  obtain ⟨⟨ep, hcurrent, rfl⟩, hreply, -⟩ := hreceived
  have hframed : Consistent (j ++ [⟨i, c, r, s, s'⟩]) w s := hs.frame hbegins rfl rfl rfl rfl
  refine ⟨hframed.begun, ?_, hframed.received, ?_, ?_, ?_⟩
  · intro first rest id hlatest hfirst hfailed
    obtain ⟨hnone, -, -⟩ := hframed.failing first rest id hlatest hfirst hfailed
    rw [hreply] at hnone
    cases hnone
  · intro ep' hep' _
    obtain rfl : ep = ep' := Option.some.inj (hcurrent.symm.trans hep')
    obtain ⟨fetch, hfetch, hdelivered⟩ := hs.received records hreply
    refine ⟨fetch, ⟨i, c, r, s, s'⟩, records, ?_, hdelivered, hbatch⟩
    rw [lastSync_append hbegins]
    exact (List.singleton_sublist.mpr hfetch).append (List.Sublist.refl [_])
  · intro id hclock
    rcases hclocked id hclock with hbefore | ⟨records, hcall⟩
    · exact hframed.clocked id hbefore
    · exact ⟨_, List.mem_append_right _ (List.mem_singleton_self _), records, hcall⟩
  · intro ep' hep' hnot
    exact hdifferential _ (hs.differential ep' hep' hnot)

theorem Consistent.mark {id : Uuid} {ch : EndpointChanges} {answer : Except DbErr Endpoint}
    (hs : Consistent j w s) (hpermits : w.permits (.db (.updateEndpoint id ch)))
    (hexec : exec crates (.db (.updateEndpoint id ch)) e s = some (answer, s')) :
    Consistent (j ++ [⟨i, .db (.updateEndpoint id ch), answer, s, s'⟩]) (.listed w.pending) s' := by
  obtain ⟨choice, hplain⟩ := exec_plain rfl hexec
  obtain ⟨happlied, -, -⟩ := hpermits
  have hframed : Consistent (j ++ [⟨i, .db (.updateEndpoint id ch), answer, s, s'⟩]) w s :=
    hs.frame rfl rfl rfl rfl rfl
  refine hframed.listed ?_ ?_
  · intro id'
    unfold fullSyncClock
    cases answer with
    | error err =>
        cases exec_db_error hplain
        rfl
    | ok row =>
        rw [(exec_updateEndpoint id' hplain).2.1]
  · intro hfalse
    rw [happlied] at hfalse
    cases hfalse

/-- One call of the boot sync or the worker. -/
theorem Consistent.step {c : Call} {r : Answer c} (hs : Consistent j w s) (hpermits : w.permits c)
    (hexec : exec crates c e s = some (r, s')) :
    Consistent (j ++ [⟨i, c, r, s, s'⟩]) (w.next c r) s' := by
  cases c with
  | db st =>
      cases st with
      | allEndpoints => exact hs.list hexec
      | updateEndpoint id ch => exact hs.mark hpermits hexec
      | _ => exact absurd hpermits id
  | now =>
      obtain ⟨choice, hplain⟩ := exec_plain rfl hexec
      obtain ⟨-, rfl⟩ := exec_now hplain
      have hframed : Consistent (j ++ [⟨i, .now, r, s, { s with clock := r }⟩]) (w.next .now r) s :=
        hs.frame rfl rfl rfl rfl rfl
      exact hframed.still fun _ => .of_eq rfl rfl
  | fullSyncDue id => exact hs.begin hpermits hexec
  | fetchIps groups since => exact hs.fetch hpermits hexec
  | applyFull id rs =>
      obtain ⟨choice, hplain⟩ := exec_plain rfl hexec
      obtain ⟨-, records, hreceived, rfl⟩ := hpermits
      obtain ⟨t, rfl⟩ := exec_applyFull hplain
      refine hs.store rfl rfl hreceived ?_ ?_
      · intro id' hclock
        by_cases hid : id' = id
        · exact .inr ⟨_, by rw [hid]⟩
        · left
          simpa [fullSyncClock, AddressCache.applyFull, AList.lookup_insert_ne hid] using hclock
      · intro id' hclock
        by_cases hid : id' = id
        · subst hid
          simp [fullSyncClock, AddressCache.applyFull]
        · simpa [fullSyncClock, AddressCache.applyFull, AList.lookup_insert_ne hid] using hclock
  | applyDiff id rs =>
      obtain ⟨choice, hplain⟩ := exec_plain rfl hexec
      obtain ⟨-, records, hreceived, rfl⟩ := hpermits
      cases exec_applyDiff hplain
      have hsame : ∀ id', fullSyncClock id' { s with
          cache := AddressCache.applyDiff crates id (mapRecords records) s.cache } =
            fullSyncClock id' s := by
        intro id'
        by_cases hid : id' = id
        · subst hid
          cases hentry : s.cache.lookup id' <;>
            simp [fullSyncClock, AddressCache.applyDiff, IpCache.entry, hentry,
              EndpointCache.default]
        · simp [fullSyncClock, AddressCache.applyDiff, AList.lookup_insert_ne hid]
      refine hs.store rfl rfl hreceived ?_ ?_
      · intro id' hclock
        exact .inl (hsame id' ▸ hclock)
      · intro id' hclock
        exact (hsame id').symm ▸ hclock
  | _ => exact absurd hpermits id

/-- Only the storing of a cursor moves one. -/
theorem marked_of_moved {c : Call} {r : Answer c} {id : Uuid} (hpermits : w.permits c)
    (hexec : exec crates c e s = some (r, s')) (hmoved : cursor id s' ≠ cursor id s) :
    ∃ ep, w.current = some ep ∧ ep.id = id ∧ w.applied = true := by
  have hnotStoring : c.storing ≠ false := by
    intro hc
    have hdb : s'.db = s.db := by
      cases hfetch : fetches c with
      | true =>
          cases c with
          | fetchIps groups since => rw [exec_fetchIps hexec]
          | _ => cases hfetch
      | false =>
          obtain ⟨choice, hplain⟩ := exec_plain hfetch hexec
          exact (exec_not_storing hc hplain).1
    exact hmoved (by rw [cursor, hdb]; rfl)
  cases c with
  | db st =>
      obtain ⟨choice, hplain⟩ := exec_plain rfl hexec
      cases r with
      | error err =>
          cases exec_db_error hplain
          exact absurd rfl hmoved
      | ok rows =>
          cases st with
          | allEndpoints =>
              obtain ⟨db, hrun, -, rfl⟩ := exec_db_ok hplain
              cases hrun
              exact absurd rfl hmoved
          | updateEndpoint id' ch =>
              obtain ⟨happlied, ⟨ep, hcurrent, rfl⟩, -⟩ := hpermits
              refine ⟨ep, hcurrent, ?_, happlied⟩
              by_contra hne
              have hcursor := (exec_updateEndpoint id hplain).1
              rw [if_neg hne] at hcursor
              exact hmoved hcursor
          | _ => exact absurd hpermits (fun h => h)
  | deleteKey d => exact absurd hpermits (fun h => h)
  | _ => exact absurd rfl hnotStoring

/-- One call of an update of an endpoint. -/
theorem Consistent.edit {m : Pass} {c : Call} {r : Answer c} (hs : Consistent j w s)
    (hpermits : editing.permits m c) (hexec : exec crates c e s = some (r, s')) :
    Consistent (j ++ [⟨i, c, r, s, s'⟩]) w s' ∧ ∀ id, SameEntry id s s' := by
  have hnotFetch : fetches c = false := by
    cases c with
    | fetchIps groups since => exact absurd hpermits id
    | _ => rfl
  obtain ⟨choice, hplain⟩ := exec_plain hnotFetch hexec
  have hsame : ∀ id, SameEntry id s s' := by
    intro id
    have haside : Aside id s s' := (aside_of_edit hpermits hplain).1
    exact ⟨by rw [haside.cache], haside.cursor⟩
  have hbegins : begins c = none := by
    cases c with
    | fullSyncDue due => exact absurd hpermits id
    | _ => rfl
  exact ⟨(hs.frame hbegins rfl rfl rfl rfl).still hsame, hsame⟩

end Steps

section Runs
variable {I : Type} {app : AppState} {l : Life I} {w : World}

def policy : Option I → Policy Answer Pass
  | none => syncing
  | some _ => editing

theorem start_follows (i : Option I) (m : Pass) :
    Follows (policy i) (fun _ _ => True) ((l.start app w).threads i) m := by
  cases i with
  | none =>
      exact ((syncAllEndpoints_follows app.vaultConfigured m).dropAfter l.budget).bind
        fun m' _ _ => sync_follows app l.passes m'
  | some i => exact update_follows (l.updates i) m

theorem consistent_start : Consistent ([] : List (Entry Answer (Option I) World)) (.listed [])
    { w with cache := ∅ } where
  begun := by
    intro ep hep
    cases hep
  failing := by
    intro first rest id hlatest
    cases hlatest
  received := by
    intro records hreply
    cases hreply
  stored := by
    intro ep hep
    cases hep
  clocked := by
    intro id hclock
    cases hclock
  differential := by
    intro ep hep
    cases hep

theorem sameEntry_of_env {ch : Change} {s s' : World} (henv : env ch s = some s') (id : Uuid) :
    SameEntry id s s' := by
  have haside := aside_of_env id henv
  exact ⟨by rw [haside.cache], haside.cursor⟩

variable [DecidableEq I]

/-- Throughout a life, the boot sync and the worker hold what their journal says. -/
theorem run_consistent {p : Process (Option I)} (hrun : l.run app w = some p) :
    ∃ ms, Watched policy (fun _ _ _ => True)
      (fun past ms s => Consistent (Journals.journal (system app.crates) (l.start app w) past)
        (ms none) s)
      l.events p ms := by
  have hinit : Watched policy (fun _ _ _ => True)
      (fun past ms s => Consistent (Journals.journal (system app.crates) (l.start app w) past)
        (ms none) s)
      [] (l.start app w) fun _ => .listed [] :=
    ⟨fun i => start_follows i _, consistent_start⟩
  refine run_watched _ _ _ (fun _ _ => True) hinit ?_ ?_ hrun (fun _ _ _ _ _ _ => trivial)
  · intro past p ms i e c next r s' hpast hwatched hc _ hpermits hexec
    have hexec' : exec app.crates c e p.state = some (r, s') := hexec
    rw [journal_append_singleton hpast, entries_act hc hexec]
    cases i with
    | none =>
        refine ⟨(ms none).next c r, rfl, ?_⟩
        rw [Function.update_self]
        exact hwatched.inv.step hpermits hexec'
    | some i =>
        refine ⟨ms (some i), ⟨trivial, rfl⟩, ?_⟩
        rw [Function.update_eq_self]
        exact (hwatched.inv.edit hpermits hexec').1
  · intro past p ms ch s' hpast hwatched _ henv
    rw [journal_append_singleton hpast]
    simp only [entries, List.append_nil]
    exact hwatched.inv.still (sameEntry_of_env henv)

/-- What a life has done to the endpoint when it has come to the process. -/
structure Harmless (app : AppState) (l : Life I) (w : World) (p : Process (Option I)) (id : Uuid) :
    Prop where
  /-- A sync that has received no records has left the endpoint as it found it. -/
  failed : ∀ first rest, lastSync (l.journal app w) = first :: rest → first.call = .fullSyncDue id →
    (∀ en ∈ rest, delivered en.call en.answer = none) → SameEntry id first.before p.state
  /-- The cursor moves only in a sync of the endpoint that has fetched and then stored. -/
  advanced : ∀ ev q, step (system app.crates) p ev = some q →
    cursor id q.state ≠ cursor id p.state →
    FetchedAndStored id (lastSync (l.journal app w)) ∧
      ∃ first rest, lastSync (l.journal app w) = first :: rest ∧ first.call = .fullSyncDue id
  /-- A differential batch meets a cache that a full sync has filled in this life. -/
  merged : ∀ i records, (p.threads i).upcoming = some (.applyDiff id records) →
    (fullSyncClock id p.state).isSome ∧
      ∃ en ∈ l.journal app w, ∃ records, en.call = .applyFull id records

theorem harmless_of_run {p : Process (Option I)} (hrun : l.run app w = some p) (id : Uuid) :
    Harmless app l w p id := by
  obtain ⟨ms, hfollows, hsound⟩ := run_consistent hrun
  refine ⟨?_, ?_, ?_⟩
  · intro first rest hlatest hfirst hfailed
    have hall : ∀ en ∈ lastSync (l.journal app w), delivered en.call en.answer = none := by
      rw [hlatest]
      intro en hen
      rcases List.mem_cons.mp hen with rfl | hrest
      · obtain ⟨thread, call, answer, before, after⟩ := en
        cases hfirst
        rfl
      · exact hfailed en hrest
    exact (hsound.failing first rest id hlatest hfirst hall).2.2
  · intro ev q hstep hmoved
    cases ev with
    | world ch =>
        exact absurd (sameEntry_of_env (step_world hstep).1 id).cursor hmoved
    | act i e =>
        obtain ⟨c, next, r, hc, hexec, -⟩ := step_act hstep
        have hupcoming : (p.threads i).upcoming = some c := by rw [hc]; rfl
        have hpermits := (hfollows i).permits_upcoming hupcoming
        cases i with
        | some i => exact absurd ((hsound.edit (i := none) hpermits hexec).2 id).cursor hmoved
        | none =>
            obtain ⟨ep, hcurrent, rfl, happlied⟩ := marked_of_moved hpermits hexec hmoved
            exact ⟨hsound.stored ep hcurrent happlied, hsound.begun ep hcurrent⟩
  · intro i records hupcoming
    have hpermits := (hfollows i).permits_upcoming hupcoming
    cases i with
    | some i => exact absurd hpermits (fun h => h)
    | none =>
        obtain ⟨hfull, batch, ⟨⟨ep, hcurrent, rfl⟩, -, -⟩, -⟩ := hpermits
        have hclock := hsound.differential ep hcurrent hfull
        exact ⟨hclock, hsound.clocked ep.id hclock⟩

end Runs

/-- The life up to one of its moments. -/
def Life.upTo {I : Type} (l : Life I) (past : List (Event (Option I) SyncChoice Change)) : Life I :=
  { l with events := past }

/-- At every moment of every life of every history, however the fetches, the cursor writes
and the boot sync end: a sync without a successful fetch has left the endpoint as it was; a
cursor is stored only after a fetched batch has been stored in the same life; and a
differential batch meets a cache that a full sync has filled in the same life. -/
theorem interrupted_syncs_harmless {I : Type} [DecidableEq I] {app : AppState} {w w' : World}
    {lives : List (Life I)} (hlives : lifetimes app w lives = some w') (id : Uuid) :
    ∀ before l after past rest, lives = before ++ l :: after → l.events = past ++ rest →
      ∃ s p, lifetimes app w before = some s ∧ (l.upTo past).run app s = some p ∧
        Harmless app (l.upTo past) s p id := by
  intro before l after past rest hsplit hevents
  rw [hsplit, lifetimes, List.foldlM_append] at hlives
  obtain ⟨s, hbefore, hrest⟩ := Option.bind_eq_some_iff.mp hlives
  rw [List.foldlM_cons] at hrest
  obtain ⟨s', hlife, -⟩ := Option.bind_eq_some_iff.mp hrest
  obtain ⟨q, hrun, -⟩ := Option.map_eq_some_iff.mp hlife
  rw [Life.run, hevents, run_append] at hrun
  obtain ⟨p, hpast, -⟩ := Option.bind_eq_some_iff.mp hrun
  have hupTo : (l.upTo past).run app s = some p := hpast
  exact ⟨s, p, hbefore, hupTo, harmless_of_run hupTo id⟩

def emptyList : Server := fun _ _ => .response 200 (.array [])

def droppedLife : Life Empty where
  budget := 3
  passes := 1
  requests := Empty.elim
  updates := fun i => i.elim
  events := [.act none (.plain .succeed), .act none (.plain (.instant 1)),
    .act none (.pages emptyList id), .act none (.plain .succeed), .act none (.plain (.instant 2)),
    .act none (.pages (fun _ _ => .unanswered) id)]

def unmarkedLife : Life Empty where
  budget := 6
  passes := 1
  requests := Empty.elim
  updates := fun i => i.elim
  events := [.act none (.plain .succeed), .act none (.plain (.instant 3)),
    .act none (.pages emptyList id), .act none (.plain (.instant 4)), .act none (.plain (.time 5)),
    .act none (.plain .fail), .act none (.plain .succeed), .act none (.plain (.instant 6)),
    .act none (.pages emptyList id)]

/-- After the restart the worker is about to apply a differential batch, on top of the full
sync of the boot, with no cursor stored. -/
theorem interrupted_syncs_harmless_restart :
    ∃ s p, lifetimes sampleApp syncedWorld [droppedLife] = some s ∧
      unmarkedLife.run sampleApp s = some p ∧
      cursor 5 p.state = none ∧ fullSyncClock 5 p.state = some 4 ∧
      Harmless sampleApp unmarkedLife s p 5 := by
  have hlives : (lifetimes sampleApp syncedWorld [droppedLife, unmarkedLife]).map
      (fun w => (cursor 5 w, fullSyncClock 5 w)) = some (none, some 4) := by
    decide +kernel
  obtain ⟨w', hrun, hfacts⟩ := Option.map_eq_some_iff.mp hlives
  obtain ⟨s, p, hbefore, hp, hharmless⟩ :=
    interrupted_syncs_harmless hrun 5 [droppedLife] unmarkedLife [] unmarkedLife.events [] rfl
      (List.append_nil _).symm
  have hp' : unmarkedLife.run sampleApp s = some p := hp
  have hlast : lifetimes sampleApp syncedWorld [droppedLife, unmarkedLife] =
      (lifetimes sampleApp syncedWorld [droppedLife]).bind fun s =>
        (unmarkedLife.run sampleApp s).map (·.state) := by
    rw [lifetimes, show [droppedLife, unmarkedLife] = [droppedLife] ++ [unmarkedLife] from rfl,
      List.foldlM_append]
    simp [lifetimes]
  rw [hlast, hbefore, Option.bind_some, hp', Option.map_some, Option.some.injEq] at hrun
  rw [← hrun] at hfacts
  obtain ⟨hcursor, hclock⟩ := Prod.mk.inj hfacts
  exact ⟨s, p, hbefore, hp', hcursor, hclock, hharmless⟩

end SimplyIpExporter.InterruptedSyncs
