import SimplyIpExporter.Interleaving
import SimplyIpExporter.Storage
import SimplyIpExporter.VaultMemberships

/-!
# What handlers and workers call

The shared state of the process and its surroundings, and the calls that reach
it: one database statement, one reading of a clock, one drawn random value, one
request to Vault, one operation under the cache's lock. Each call is atomic;
between two calls anything else may happen.

A database statement may fail for reasons of its own. Clocks never run backwards.
Identifiers are drawn at random and taken never to be one that a deleted endpoint
had. A Vault answers a listing with an error or with what it holds at that moment,
in any order.
-/
namespace SimplyIpExporter.Services
open RustText Entities KeyedTables LastWriterWins AddressCache VaultClient VaultMemberships Storage
open Programs Interleaving

/-- The groups a `vault_groups` value names. -/
def groupNames (raw : String) : List String := ((split ',' raw).map trim).filter (· != "")

/-- What Vault lists for groups: the live memberships, or those changed since a
whole second, deleted ones included. -/
def query (v : Vault) (groups : List String) (since : Option NaiveDateTime) : List VaultApiRecord :=
  (v.entries.filter fun e => decide (e.1.1 ∈ groups) && match since with
    | none => !e.2.deleted
    | some t => decide (timestamp t * nanosPerSecond ≤ e.2.changedAt)).map fun e => recordOf e.1 e.2

theorem mem_query {v : Vault} {groups : List String} {since : Option NaiveDateTime}
    {r : VaultApiRecord} : r ∈ query v groups since ↔ ∃ g ∈ groups, ∃ address m,
      v.lookup (g, address) = some m ∧ r = recordOf (g, address) m ∧ match since with
        | none => m.deleted = false
        | some t => timestamp t * nanosPerSecond ≤ m.changedAt := by
  simp only [query, List.mem_map, List.mem_filter, Bool.and_eq_true, decide_eq_true_eq]
  constructor
  · rintro ⟨⟨⟨g, address⟩, m⟩, ⟨hmem, hg, hsince⟩, rfl⟩
    refine ⟨g, hg, address, m, AList.mem_lookup_iff.mpr hmem, rfl, ?_⟩
    cases since with
    | none => simpa using hsince
    | some t => simpa using hsince
  · rintro ⟨g, hg, address, m, hm, rfl, hsince⟩
    refine ⟨⟨(g, address), m⟩, ⟨AList.mem_lookup_iff.mp hm, hg, ?_⟩, rfl⟩
    cases since with
    | none => simpa using hsince
    | some t => simpa using hsince

structure VaultGroup where
  id : Uuid
  name : String
  deriving DecidableEq, Repr

structure World where
  db : Database
  /-- Identifiers of endpoints deleted so far. -/
  retired : List Uuid
  cache : IpCache
  vault : Vault
  clock : NaiveDateTime
  /-- The monotonic clock, in nanoseconds. -/
  uptime : ℤ

inductive Call where
  | db (s : Statement)
  | deleteKey (d : KeyDeletion)
  | now
  | newUuid
  | random (length : ℕ)
  | listGroups
  | fetchIps (groups : String) (since : Option NaiveDateTime)
  | evict (id : Uuid)
  | fullSyncDue (id : Uuid)
  | applyFull (id : Uuid) (records : List VaultRecord)
  | applyDiff (id : Uuid) (records : List VaultRecord)

@[reducible] def Answer : Call → Type
  | .db s => Except DbErr s.Rows
  | .deleteKey _ => Except AppError Unit
  | .now => NaiveDateTime
  | .newUuid => Uuid
  | .random _ => List UInt8
  | .listGroups => Except VaultError (List VaultGroup)
  | .fetchIps _ _ => Except VaultError (List VaultApiRecord)
  | .fullSyncDue _ => Bool
  | .evict _ | .applyFull _ _ | .applyDiff _ _ => Unit

/-- What the surroundings decide at a call. -/
inductive Choice where
  | succeed
  | fail
  | time (t : NaiveDateTime)
  | instant (t : ℤ)
  | uuid (id : Uuid)
  | bytes (bytes : List UInt8)
  | groups (reply : Except VaultError (List VaultGroup))
  | records (reply : Except VaultError (List VaultApiRecord))
  | audited (id : Uuid) (t : NaiveDateTime)

/-- Twenty-four hours. -/
def fullSyncInterval : ℤ := 24 * 3600 * nanosPerSecond

/-- The identifiers a statement takes out of use. -/
def retires (s : Statement) (w : World) : List Uuid :=
  match s with
  | .deleteEndpoint id => if (w.db.endpoints.find id).isSome then [id] else []
  | _ => []

/-- An identifier just drawn is not that of a deleted endpoint. -/
def reuses (s : Statement) (w : World) : Bool :=
  match s with
  | .insertEndpoint row => w.retired.contains row.id
  | _ => false

/-- A statement on the database, or its failure. -/
def execStatement (s : Statement) (e : Choice) (w : World) : Option (Except DbErr s.Rows × World) :=
  match e with
  | .succeed =>
    match s.run w.db with
    | .ok (rows, db) => some (.ok rows, { w with db := db, retired := retires s w ++ w.retired })
    | .error err => some (.error err, w)
  | .fail => some (.error .exec, w)
  | _ => none

def exec (crates : Crates) : (c : Call) → Choice → World → Option (Answer c × World)
  | .db s, e, w =>
      if reuses s w then none else execStatement s e w
  | .deleteKey d, .audited id t, w =>
      if w.clock ≤ t then
        match d.run id t w.db with
        | .ok db => some (.ok (), { w with db := db, clock := t })
        | .error err => some (.error err, { w with clock := t })
      else none
  | .deleteKey _, .fail, w => some (.error (.dbError .exec), w)
  | .now, .time t, w => if w.clock ≤ t then some (t, { w with clock := t }) else none
  | .newUuid, .uuid id, w => some (id, w)
  | .random length, .bytes bytes, w => if bytes.length = length then some (bytes, w) else none
  | .listGroups, .groups reply, w => some (reply, w)
  | .fetchIps _ _, .records (.error err), w => some (.error err, w)
  | .fetchIps groups since, .records (.ok rs), w =>
      if rs.isPerm (query w.vault (groupNames groups) since) then some (.ok rs, w) else none
  | .evict id, .succeed, w => some ((), { w with cache := AddressCache.evict id w.cache })
  | .fullSyncDue id, .instant t, w =>
      if w.uptime ≤ t then
        some (AddressCache.fullSyncDue id fullSyncInterval t w.cache, { w with uptime := t })
      else none
  | .applyFull id records, .instant t, w =>
      if w.uptime ≤ t then
        some ((), { w with
          cache := AddressCache.applyFull crates id records t w.cache
          uptime := t })
      else none
  | .applyDiff id records, .succeed, w =>
      some ((), { w with cache := AddressCache.applyDiff crates id records w.cache })
  | _, _, _ => none

/-- A membership changes at a moment: added, observed again or deleted. -/
inductive Change where
  | commit (group address : String) (lastSeenAt : NaiveDateTime) (deleted : Bool)
      (t : NaiveDateTime)

def env : Change → World → Option World
  | .commit group address lastSeenAt deleted t, w =>
    if w.clock ≤ t then
      some { w with
        vault := w.vault.insert (group, address) ⟨lastSeenAt, deleted, t⟩
        clock := t }
    else none

def system (crates : Crates) : System Answer Choice Change World := ⟨exec crates, env⟩

/-- A change in Vault leaves the process alone. -/
theorem env_eq_some {ch : Change} {w w' : World} (h : env ch w = some w') :
    w' = { w with vault := w'.vault, clock := w'.clock } := by
  obtain ⟨group, address, lastSeenAt, deleted, t⟩ := ch
  simp only [env] at h
  split at h
  · cases h
    rfl
  · cases h

/-- A statement that fails changes nothing. -/
theorem exec_db_error {crates : Crates} {s : Statement} {e : Choice} {w w' : World} {err : DbErr}
    (h : exec crates (.db s) e w = some (.error err, w')) : w' = w := by
  simp only [exec] at h
  split at h
  · cases h
  · unfold execStatement at h
    split at h
    · split at h
      · simp at h
      · cases h
        rfl
    · cases h
      rfl
    · cases h

theorem exec_db_ok {crates : Crates} {s : Statement} {e : Choice} {w w' : World} {rows : s.Rows}
    (h : exec crates (.db s) e w = some (.ok rows, w')) :
    ∃ db, s.run w.db = .ok (rows, db) ∧ reuses s w = false ∧
      w' = { w with db := db, retired := retires s w ++ w.retired } := by
  simp only [exec] at h
  split at h
  · cases h
  · rename_i hreuse
    unfold execStatement at h
    split at h
    · split at h
      · rename_i rows' db hrun
        simp only [Option.some.injEq, Prod.mk.injEq, Except.ok.injEq] at h
        obtain ⟨rfl, rfl⟩ := h
        exact ⟨db, hrun, by simpa using hreuse, rfl⟩
      · simp at h
    · simp at h
    · cases h

theorem exec_db_choice {crates : Crates} {s : Statement} {e : Choice} {w w' : World} {rows : s.Rows}
    (h : exec crates (.db s) e w = some (.ok rows, w')) : e = .succeed := by
  simp only [exec] at h
  split at h
  · cases h
  · unfold execStatement at h
    split at h
    · rfl
    · simp at h
    · cases h

/-- Unless it fails for reasons of its own, a statement answers what it reads back. -/
theorem exec_db_answer {crates : Crates} {s : Statement} {e : Choice} {w w' : World}
    {r : Except DbErr s.Rows} (h : exec crates (.db s) e w = some (r, w')) (hfail : e ≠ .fail) :
    r = (s.run w.db).map Prod.fst := by
  simp only [exec] at h
  split at h
  · cases h
  · unfold execStatement at h
    split at h
    · split at h
      · rename_i rows db hrun
        cases h
        rw [hrun]
        rfl
      · rename_i err hrun
        cases h
        rw [hrun]
        rfl
    · exact absurd rfl hfail
    · cases h

/-- An entry that refers to a key there is and has an id of its own is stored. -/
theorem exec_insertAudit {crates : Crates} {row : AuditLog} {w w' : World}
    {r : Answer (.db (.insertAudit row))}
    (h : exec crates (.db (.insertAudit row)) .succeed w = some (r, w'))
    (hrefers : w.db.refers row.apiKeyId = true) (hnew : w.db.auditLogs.find row.id = none) :
    r = .ok row ∧ ∃ t, w' = { w with db := { w.db with auditLogs := t } } := by
  obtain ⟨t, hinsert⟩ := Table.insert_of_find_none hnew
  simp only [exec, reuses, execStatement, Statement.run, insertRow, hrefers, hinsert,
    Bool.false_eq_true, if_false] at h
  cases h
  exact ⟨rfl, t, rfl⟩

/-- The deletion of a key goes through, or fails and changes nothing. -/
theorem exec_deleteKey {crates : Crates} {d : KeyDeletion} {e : Choice} {w w' : World}
    {r : Except AppError Unit} (h : exec crates (.deleteKey d) e w = some (r, w')) :
    w'.retired = w.retired ∧ ((w'.db = w.db ∧ ∃ err, r = .error err) ∨
      ∃ id t, d.run id t w.db = .ok w'.db ∧ r = .ok ()) := by
  cases e with
  | audited id t =>
      simp only [exec] at h
      split at h
      · split at h
        · rename_i db hrun
          cases h
          exact ⟨rfl, .inr ⟨id, t, hrun, rfl⟩⟩
        · rename_i err hrun
          cases h
          exact ⟨rfl, .inl ⟨rfl, err, rfl⟩⟩
      · cases h
  | fail =>
      cases h
      exact ⟨rfl, .inl ⟨rfl, _, rfl⟩⟩
  | _ => cases h

/-- Calls that reach the database. -/
def Call.storing : Call → Bool
  | .db _ | .deleteKey _ => true
  | _ => false

/-- Every other call leaves it alone. -/
theorem exec_not_storing {crates : Crates} {c : Call} {e : Choice} {w w' : World} {r : Answer c}
    (hc : c.storing = false) (h : exec crates c e w = some (r, w')) :
    w'.db = w.db ∧ w'.retired = w.retired := by
  unfold exec at h
  split at h
  case h_1 => cases hc
  case h_2 => cases hc
  case h_3 => cases hc
  all_goals first
    | cases h; exact ⟨rfl, rfl⟩
    | split at h <;> cases h; exact ⟨rfl, rfl⟩
    | cases h

/-- No identifier of an endpoint leaves the table without being retired. -/
structure IdsKept (s s' : World) : Prop where
  gone : ∀ id, s.db.endpoints.find id ≠ none → s'.db.endpoints.find id = none → id ∈ s'.retired
  retired : ∀ id ∈ s.retired, id ∈ s'.retired

theorem IdsKept.of_find {s s' : World}
    (h : ∀ id, s'.db.endpoints.find id = none ↔ s.db.endpoints.find id = none)
    (hretired : s'.retired = s.retired) : IdsKept s s' where
  gone := by
    intro id hsome hnone
    exact absurd ((h id).mp hnone) hsome
  retired := by
    intro id hid
    rw [hretired]
    exact hid

theorem IdsKept.of_eq {s s' : World} (h : s'.db.endpoints = s.db.endpoints)
    (hretired : s'.retired = s.retired) : IdsKept s s' :=
  .of_find (fun id => by rw [h]) hretired

theorem statement_idsKept {s : World} {st : Statement} {rows : st.Rows} {db : Database}
    (hrun : st.run s.db = .ok (rows, db)) :
    IdsKept s { s with db := db, retired := retires st s ++ s.retired } := by
  cases st with
  | insertEndpoint row =>
      obtain ⟨-, t, hinsert, rfl⟩ := run_insertEndpoint hrun
      refine ⟨?_, fun id hid => hid⟩
      intro id hsome hnone
      simp only [Table.find_insert hinsert] at hnone
      split at hnone
      · cases hnone
      · exact absurd hnone hsome
  | updateEndpoint id ch =>
      obtain ⟨row, -, -, rfl⟩ := run_updateEndpoint hrun
      refine .of_find (fun id' => ?_) rfl
      simp only [Table.find_change, Option.map_eq_none_iff]
  | deleteEndpoint id =>
      cases hrun
      refine ⟨?_, fun id' hid => List.mem_append_right _ hid⟩
      intro id' hsome hnone
      simp only [Table.find_delete] at hnone
      obtain ⟨row, hrow⟩ := Option.ne_none_iff_exists'.mp hsome
      have hid : row.id = id := by simpa [hrow] using hnone
      have hid' := (Table.find_eq_some.mp hrow).2
      refine List.mem_append_left _ ?_
      rw [← hid', hid] at hrow ⊢
      simp [retires, hrow]
  | _ => exact .of_eq (run_not_onEndpoints rfl hrun) rfl

theorem exec_idsKept {crates : Crates} {c : Call} {e : Choice} {s s' : World} {r : Answer c}
    (hexec : exec crates c e s = some (r, s')) : IdsKept s s' := by
  cases hc : c.storing with
  | false =>
      obtain ⟨hdb, hretired⟩ := exec_not_storing hc hexec
      exact .of_eq (by rw [hdb]) hretired
  | true =>
      cases c with
      | db st =>
          cases r with
          | error err =>
              cases exec_db_error hexec
              exact .of_eq rfl rfl
          | ok rows =>
              obtain ⟨db, hrun, -, rfl⟩ := exec_db_ok hexec
              exact statement_idsKept hrun
      | deleteKey d =>
          obtain ⟨hretired, ⟨hdb, -⟩ | ⟨id, t, hrun, -⟩⟩ := exec_deleteKey hexec
          · exact .of_eq (by rw [hdb]) hretired
          · exact .of_find (KeyDeletion.find_endpoint hrun) hretired
      | _ => cases hc

/-- What has been retired since some earlier database stays so. -/
theorem IdsKept.since {before : Database} {s s' : World} (h : IdsKept s s')
    (hs : ∀ id, before.endpoints.find id ≠ none → s.db.endpoints.find id = none → id ∈ s.retired) :
    ∀ id, before.endpoints.find id ≠ none → s'.db.endpoints.find id = none → id ∈ s'.retired := by
  intro id hbefore hnone
  by_cases hfind : s.db.endpoints.find id = none
  · exact h.retired id (hs id hbefore hfind)
  · exact h.gone id hfind hnone

/-- Readings of the clock and random draws. -/
def Call.drawing : Call → Bool
  | .now | .newUuid | .random _ => true
  | _ => false

theorem exec_drawing {crates : Crates} {c : Call} {e : Choice} {w w' : World} {r : Answer c}
    (hc : c.drawing = true) (h : exec crates c e w = some (r, w')) :
    w' = { w with clock := w'.clock } ∧ w.clock ≤ w'.clock := by
  unfold exec at h
  split at h
  case h_4 =>
    split at h
    · cases h
      exact ⟨rfl, by assumption⟩
    · cases h
  case h_5 =>
    cases h
    exact ⟨rfl, le_rfl⟩
  case h_6 =>
    split at h
    · cases h
      exact ⟨rfl, le_rfl⟩
    · cases h
  case h_14 => cases h
  all_goals cases hc

section Calls
variable {crates : Crates} {e : Choice} {w w' : World}

theorem exec_now {t : NaiveDateTime} (h : exec crates .now e w = some (t, w')) :
    w.clock ≤ t ∧ w' = { w with clock := t } := by
  cases e with
  | time t' =>
      simp only [exec] at h
      split at h
      · cases h
        exact ⟨by assumption, rfl⟩
      · cases h
  | _ => cases h

theorem exec_fetchIps {groups : String} {since : Option NaiveDateTime}
    {r : Except VaultError (List VaultApiRecord)}
    (h : exec crates (.fetchIps groups since) e w = some (r, w')) :
    w' = w ∧ ∀ rs, r = .ok rs → rs.Perm (query w.vault (groupNames groups) since) := by
  cases e with
  | records reply =>
      cases reply with
      | error err =>
          cases h
          exact ⟨rfl, fun rs hrs => by cases hrs⟩
      | ok rs =>
          simp only [exec] at h
          split at h
          · rename_i hperm
            cases h
            refine ⟨rfl, ?_⟩
            rintro _ ⟨⟩
            exact List.isPerm_iff.mp hperm
          · cases h
  | _ => cases h

theorem exec_fullSyncDue {id : Uuid} {due : Bool}
    (h : exec crates (.fullSyncDue id) e w = some (due, w')) :
    ∃ t, due = AddressCache.fullSyncDue id fullSyncInterval t w.cache ∧
      w' = { w with uptime := t } := by
  cases e with
  | instant t =>
      simp only [exec] at h
      split at h
      · cases h
        exact ⟨t, rfl, rfl⟩
      · cases h
  | _ => cases h

theorem exec_applyFull {id : Uuid} {records : List VaultRecord} {u : Unit}
    (h : exec crates (.applyFull id records) e w = some (u, w')) :
    ∃ t, w' = { w with
      cache := AddressCache.applyFull crates id records t w.cache, uptime := t } := by
  cases e with
  | instant t =>
      simp only [exec] at h
      split at h
      · cases h
        exact ⟨t, rfl⟩
      · cases h
  | _ => cases h

theorem exec_applyDiff {id : Uuid} {records : List VaultRecord} {u : Unit}
    (h : exec crates (.applyDiff id records) e w = some (u, w')) :
    w' = { w with cache := AddressCache.applyDiff crates id records w.cache } := by
  cases e with
  | succeed =>
      cases h
      rfl
  | _ => cases h

end Calls

abbrev Handler (A : Type) := ExceptT AppError (Program Answer) A

/-- A statement inside a handler; its failure is the handler's. -/
def statement (s : Statement) : Handler s.Rows :=
  ask (.db s) >>= fun (answer : Except DbErr s.Rows) =>
    match answer with
    | .ok rows => pure rows
    | .error e => throw (.dbError e)

theorem follows_statement_bind {M B : Type} {P : Policy Answer M}
    {post : M → Except AppError B → Prop} {s : Statement} {f : s.Rows → Handler B} {m : M}
    (hc : P.permits m (.db s))
    (herror : ∀ e m', P.moves m (.db s) (.error e) m' → post m' (.error (.dbError e)))
    (hrest : ∀ rows m', P.moves m (.db s) (.ok rows) m' → Follows P post (f rows) m') :
    Follows P post (statement s >>= f : Handler B) m := by
  have hstatement : Follows P (fun m' result => match result with
      | .ok rows => Follows P post (f rows) m'
      | .error e => post m' (.error e)) (statement s) m := by
    refine Follows.ask_bind hc ?_
    intro answer m' hm
    cases answer with
    | error e => exact Follows.throw (herror e m' hm)
    | ok rows => exact Follows.ok (hrest rows m' hm)
  exact hstatement.except_bind (fun _ _ h => h) fun _ _ h => h

end SimplyIpExporter.Services
