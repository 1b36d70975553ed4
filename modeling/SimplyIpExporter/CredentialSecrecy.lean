import SimplyIpExporter.DaughterConfinement
import SimplyIpExporter.Lockstep
import SimplyIpExporter.SecretsAtRest
import SimplyIpExporter.SyncPasses

/-!
# Stored credentials are not shown

Two services are run side by side. Their keys differ in the stored hashes and signing
secrets, and they may hash and seal differently; everything else is alike. Under the same
requests of the same callers, and whatever the interleaving, they give the same answers,
write the same trail and stay alike. So nothing that leaves the service, errors included,
depends on a stored credential.

The one thing two such services could disagree on is the unique index over the hashes. A
new key is taken to hash to none of the hashes stored.
-/
namespace SimplyIpExporter.CredentialSecrecy
open RustText Entities BoundIps KeyedTables AddressCache VaultClient VaultMemberships Storage
open Services Programs Interleaving EndpointHandlers KeyHandlers SyncWorker Routes SyncPasses
open Lockstep DaughterConfinement
open SecretsAtRest (cratesWith sampleAead)

/-- The same key with other credentials. -/
def SameKey (key key' : ApiKey) : Prop :=
  ∃ hash secret, key' = { key with keyHash := hash, signingSecret := secret }

def KeysAlike (t t' : Table ApiKey Uuid ApiKey.id) : Prop := List.Forall₂ SameKey t.rows t'.rows

def Database.withKeys (db : Database) (t : Table ApiKey Uuid ApiKey.id) : Database :=
  { db with apiKeys := t }

theorem Database.withKeys_apiKeys (db : Database) (t : Table ApiKey Uuid ApiKey.id) :
    (Database.withKeys db t).apiKeys = t := rfl

def World.withKeys (w : World) (t : Table ApiKey Uuid ApiKey.id) : World :=
  { w with db := Database.withKeys w.db t }

/-- Two states that differ in stored credentials only. -/
def Alike (w w' : World) : Prop := ∃ t, KeysAlike w.db.apiKeys t ∧ w' = World.withKeys w t

/-- Another hash of keys and another cipher, which fails no more and no less. -/
structure Ciphering (crates : Crates) where
  sha256 : List UInt8 → List UInt8
  hmacSha256 : String → Option (List UInt8 → List UInt8)
  sealSecret : List UInt8 → String → Option String
  openSecret : String → Option String
  seals : ∀ nonce secret, (sealSecret nonce secret).isSome = (crates.sealSecret nonce secret).isSome

def Ciphering.crates {crates : Crates} (x : Ciphering crates) : Crates :=
  { crates with
    sha256 := x.sha256
    hmacSha256 := x.hmacSha256
    sealSecret := x.sealSecret
    openSecret := x.openSecret }

def Ciphering.app {app : AppState} (x : Ciphering app.crates) : AppState :=
  { app with crates := x.crates }

/-- The same requests, of callers whose keys differ in credentials only. -/
inductive SameTask : Task → Task → Prop
  | request (caller : Caller) (hash : String) (secret : Option String) (r : ApiRequest) :
      SameTask (.request caller r)
        (.request { caller with
          key := { caller.key with keyHash := hash, signingSecret := secret } } r)
  | cleanup : SameTask .cleanup .cleanup
  | sync (passes : ℕ) : SameTask (.sync passes) (.sync passes)

section Tables
variable {t t' u u' : Table ApiKey Uuid ApiKey.id}

theorem find?_alike {rows rows' : List ApiKey} (h : List.Forall₂ SameKey rows rows') (id : Uuid) :
    Option.Rel SameKey (rows.find? fun r => decide (r.id = id))
      (rows'.find? fun r => decide (r.id = id)) := by
  induction h with
  | nil => exact .none
  | @cons key key' rows rows' hkey _ ih =>
      obtain ⟨hash, secret, rfl⟩ := hkey
      by_cases hid : key.id = id
      · rw [List.find?_cons_of_pos (by simpa using hid),
          List.find?_cons_of_pos (by simpa using hid)]
        exact .some ⟨hash, secret, rfl⟩
      · rw [List.find?_cons_of_neg (by simpa using hid),
          List.find?_cons_of_neg (by simpa using hid)]
        exact ih

theorem KeysAlike.find (h : KeysAlike t t') (id : Uuid) :
    Option.Rel SameKey (t.find id) (t'.find id) :=
  find?_alike h id

theorem KeysAlike.ids (h : KeysAlike t t') : t'.rows.map (·.id) = t.rows.map (·.id) := by
  have hids : ∀ {rows rows' : List ApiKey}, List.Forall₂ SameKey rows rows' →
      rows'.map (·.id) = rows.map (·.id) := by
    intro rows rows' hrows
    induction hrows with
    | nil => rfl
    | cons hkey _ ih =>
        obtain ⟨hash, secret, rfl⟩ := hkey
        rw [List.map_cons, List.map_cons, ih]
  exact hids h

theorem KeysAlike.isSome_find (h : KeysAlike t t') (id : Uuid) :
    (t'.find id).isSome = (t.find id).isSome := by
  have hrel := h.find id
  generalize t.find id = found at hrel ⊢
  generalize t'.find id = found' at hrel ⊢
  cases hrel <;> rfl

theorem KeysAlike.insert {row row' : ApiKey} (h : KeysAlike t t') (hrow : SameKey row row')
    (hu : t.insert row = some u) : ∃ u', t'.insert row' = some u' ∧ KeysAlike u u' := by
  obtain ⟨hrows, hnone⟩ := Table.rows_insert hu
  obtain ⟨hash, secret, rfl⟩ := hrow
  have hnone' : t'.find row.id = none := by
    rw [← Option.not_isSome_iff_eq_none, h.isSome_find, hnone]
    simp
  obtain ⟨u', hu'⟩ := Table.insert_of_find_none
    (r := { row with keyHash := hash, signingSecret := secret }) hnone'
  refine ⟨u', hu', ?_⟩
  unfold KeysAlike
  rw [hrows, (Table.rows_insert hu').1]
  exact List.rel_append h (.cons ⟨hash, secret, rfl⟩ .nil)

theorem KeysAlike.insert_none {row row' : ApiKey} (h : KeysAlike t t') (hrow : SameKey row row')
    (hnone : t.insert row = none) : t'.insert row' = none := by
  obtain ⟨hash, secret, rfl⟩ := hrow
  rw [Table.insert, dite_eq_right_iff] at hnone ⊢
  intro hnew
  rw [h.ids] at hnew
  cases hnone hnew

theorem KeysAlike.change {p p' : ApiKey → Bool} {f f' : ApiKey → ApiKey} {hf : ∀ r, (f r).id = r.id}
    {hf' : ∀ r, (f' r).id = r.id} (h : KeysAlike t t') (hp : ∀ r r', SameKey r r' → p r = p' r')
    (hsame : ∀ r r', SameKey r r' → SameKey (f r) (f' r')) :
    KeysAlike (t.change p f hf) (t'.change p' f' hf') := by
  refine List.rel_map ?_ h
  intro r r' hr
  dsimp only
  rw [hp r r' hr]
  split
  · exact hsame r r' hr
  · exact hr

theorem KeysAlike.delete {p : ApiKey → Bool} (h : KeysAlike t t')
    (hp : ∀ r r', SameKey r r' → p r = p r') : KeysAlike (t.delete p) (t'.delete p) := by
  refine List.rel_filter ?_ h
  intro r r' hr
  simp [hp r r' hr]

end Tables

def onCredentials : Call → Bool
  | .db (.findKey _) | .db .allKeys | .db (.insertKey _) | .db (.updateKey _ _) | .deleteKey _ =>
      true
  | _ => false

/-- The calls that two such services make together. -/
inductive Discreet : Pairing Answer
  | other {c : Call} (h : onCredentials c = false) : Discreet c c Eq
  | findKey (id : Uuid) :
      Discreet (.db (.findKey id)) (.db (.findKey id)) (Both (Option.Rel SameKey))
  | allKeys : Discreet (.db .allKeys) (.db .allKeys) (Both (List.Forall₂ SameKey))
  | insertKey {row row' : ApiKey} (h : SameKey row row') :
      Discreet (.db (.insertKey row)) (.db (.insertKey row')) (Both SameKey)
  | updateKey (id : Uuid) {ch ch' : KeyChanges} (h : ∀ r r', SameKey r r' →
      SameKey (ch.apply r) (ch'.apply r')) :
      Discreet (.db (.updateKey id ch)) (.db (.updateKey id ch')) (Both SameKey)
  | deleteKey {d : KeyDeletion} {entry : Option String → AuditEntry}
      (h : ∀ details id t, (entry details).row id t = (d.entry details).row id t) :
      Discreet (.deleteKey d) (.deleteKey { d with entry := entry }) Eq

/-- The hash a call is about to store is not that of another key. -/
def unclaimed : Call → World → Bool
  | .db (.insertKey row), w => decide (∀ r ∈ w.db.apiKeys.rows, r.keyHash ≠ row.keyHash)
  | .db (.updateKey id ch), w =>
      decide (∀ r ∈ w.db.apiKeys.rows, r.id ≠ id → ch.keyHash ≠ some r.keyHash)
  | _, _ => true

section Mirroring
variable {db : Database} {t : Table ApiKey Uuid ApiKey.id} {w : World}

theorem refers_withKeys (h : KeysAlike db.apiKeys t) (key : Option Uuid) :
    (Database.withKeys db t).refers key = db.refers key := by
  cases key with
  | none => rfl
  | some id => exact h.isSome_find id

section Storing
variable {Row : Type} {key : Row → Uuid} {table : Table Row Uuid key} {allowed : Bool} {row : Row}
  (store : Table Row Uuid key → Database) (g : Database → Database)

theorem insertRow_map : insertRow table allowed row (fun u => g (store u)) =
    (insertRow table allowed row store).map fun result => (result.1, g result.2) := by
  unfold insertRow
  cases allowed with
  | false => rfl
  | true => cases table.insert row <;> rfl

theorem updateRow_map {id : Uuid} {f : Row → Row} {hf : ∀ r, key (f r) = key r} :
    updateRow table allowed id f hf (fun u => g (store u)) =
      (updateRow table allowed id f hf store).map fun result => (result.1, g result.2) := by
  unfold updateRow
  cases table.find id with
  | none => rfl
  | some row => cases allowed <;> rfl

end Storing

/-- A statement that does not read or write keys goes past them. -/
theorem run_withKeys (h : KeysAlike db.apiKeys t) {s : Statement}
    (hs : onCredentials (.db s) = false) :
    s.run (Database.withKeys db t) =
      (s.run db).map fun result => (result.1, Database.withKeys result.2 t) := by
  cases s with
  | findKey id | allKeys | insertKey row | updateKey id ch => cases hs
  | updateEndpoint id ch =>
      have hrefers : (Database.withKeys db t).refers = db.refers := funext (refers_withKeys h)
      rw [Statement.run, hrefers]
      exact updateRow_map (fun u => { db with endpoints := u }) (Database.withKeys · t)
  | insertEndpoint row =>
      rw [Statement.run, refers_withKeys h]
      exact insertRow_map (fun u => { db with endpoints := u }) (Database.withKeys · t)
  | insertGrant row =>
      rw [Statement.run, refers_withKeys h]
      exact insertRow_map (fun u => { db with grants := u }) (Database.withKeys · t)
  | insertAudit row =>
      rw [Statement.run, refers_withKeys h]
      exact insertRow_map (fun u => { db with auditLogs := u }) (Database.withKeys · t)
  | _ => rfl

theorem exec_withKeys {crates : Crates} (x : Ciphering crates) (h : KeysAlike w.db.apiKeys t)
    {c : Call} (hc : onCredentials c = false) (e : Choice) :
    exec x.crates c e (World.withKeys w t) =
      (exec crates c e w).map fun result => (result.1, World.withKeys result.2 t) := by
  cases c with
  | deleteKey d => cases hc
  | db s =>
      have hreuses : reuses s (World.withKeys w t) = reuses s w := by cases s <;> rfl
      have hretires : retires s (World.withKeys w t) = retires s w := by cases s <;> rfl
      have hrun := run_withKeys h hc
      simp only [exec, hreuses]
      split
      · rfl
      · cases e with
        | succeed =>
            have hdb : (World.withKeys w t).db = Database.withKeys w.db t := rfl
            simp only [execStatement, hdb, hrun, hretires]
            cases s.run w.db <;> rfl
        | _ => rfl
  | fetchIps groups since =>
      cases e with
      | records reply =>
          cases reply with
          | error err => rfl
          | ok rs =>
              simp only [exec]
              rw [apply_ite (Option.map _)]
              rfl
      | _ => rfl
  | now =>
      cases e with
      | time time =>
          simp only [exec]
          rw [apply_ite (Option.map _)]
          rfl
      | _ => rfl
  | fullSyncDue id | applyFull id records =>
      cases e with
      | instant time =>
          simp only [exec]
          rw [apply_ite (Option.map _)]
          rfl
      | _ => rfl
  | random length =>
      cases e with
      | bytes bytes =>
          simp only [exec]
          rw [apply_ite (Option.map _)]
          rfl
      | _ => rfl
  | newUuid | listGroups | evict id | applyDiff id records => cases e <;> rfl

/-- Calls that do not touch keys keep them. -/
theorem exec_keeps_keys {crates : Crates} {c : Call} {e : Choice} {w' : World} {r : Answer c}
    (hc : onCredentials c = false) (hexec : exec crates c e w = some (r, w')) :
    w'.db.apiKeys = w.db.apiKeys := by
  cases c with
  | db s =>
      have hkeys : s.onKeys = false := by
        cases s with
        | insertKey row | updateKey id ch => cases hc
        | _ => rfl
      cases r with
      | error err =>
          cases exec_db_error hexec
          rfl
      | ok rows =>
          obtain ⟨db, hrun, -, rfl⟩ := exec_db_ok hexec
          exact run_not_onKeys hkeys hrun
  | deleteKey d => cases hc
  | _ => rw [(exec_not_storing rfl hexec).1]

theorem any_alike {rows rows' : List ApiKey} {p p' : ApiKey → Bool}
    (h : List.Forall₂ SameKey rows rows')
    (hp : ∀ r ∈ rows, ∀ r' ∈ rows', SameKey r r' → p r = p' r') :
    rows.any p = rows'.any p' := by
  induction h with
  | nil => rfl
  | cons hkey _ ih =>
      rw [List.any_cons, List.any_cons, hp _ (by simp) _ (by simp) hkey,
        ih fun r hr r' hr' => hp r (by simp [hr]) r' (by simp [hr'])]

/-- A statement on keys, made on both sides. -/
def BothStored {X Y : Type} (rel : X → Y → Prop) (db : Database)
    (result : Except DbErr (X × Database)) (result' : Except DbErr (Y × Database)) : Prop :=
  (∃ e, result = .error e ∧ result' = .error e) ∨
    ∃ x x' u u', result = .ok (x, Database.withKeys db u) ∧
      result' = .ok (x', Database.withKeys db u') ∧
      rel x x' ∧ KeysAlike u u'

theorem insertKey_alike {row row' : ApiKey} (h : KeysAlike db.apiKeys t) (hrow : SameKey row row')
    (hnew : ∀ r ∈ db.apiKeys.rows, r.keyHash ≠ row.keyHash)
    (hnew' : ∀ r ∈ t.rows, r.keyHash ≠ row'.keyHash) :
    BothStored SameKey db ((Statement.insertKey row).run db)
      ((Statement.insertKey row').run (Database.withKeys db t)) := by
  have hallowed :
      (db.apiKeys.rows.any fun r =>
      decide (r.keyHash = row.keyHash) || (r.isMaster && row.isMaster)) =
      t.rows.any fun r => decide (r.keyHash = row'.keyHash) || (r.isMaster && row'.isMaster) := by
    refine any_alike h ?_
    rintro r hr r' hr' hsame
    rw [decide_eq_false (hnew r hr), decide_eq_false (hnew' r' hr')]
    obtain ⟨hash, secret, rfl⟩ := hrow
    obtain ⟨hash, secret, rfl⟩ := hsame
    rfl
  simp only [Statement.run, insertRow, hallowed, Database.withKeys_apiKeys]
  generalize t.rows.any _ = refused
  cases refused with
  | true => exact .inl ⟨_, rfl, rfl⟩
  | false =>
      cases hu : db.apiKeys.insert row with
      | none =>
          rw [h.insert_none hrow hu]
          exact .inl ⟨_, rfl, rfl⟩
      | some u =>
          obtain ⟨u', hu', halike⟩ := h.insert hrow hu
          rw [hu']
          exact .inr ⟨row, row', u, u', rfl, rfl, hrow, halike⟩

theorem updateKey_alike {id : Uuid} {ch ch' : KeyChanges} (h : KeysAlike db.apiKeys t)
    (hsame : ∀ r r', SameKey r r' → SameKey (ch.apply r) (ch'.apply r'))
    (hnew : ∀ r ∈ db.apiKeys.rows, r.id ≠ id → ch.keyHash ≠ some r.keyHash)
    (hnew' : ∀ r ∈ t.rows, r.id ≠ id → ch'.keyHash ≠ some r.keyHash) :
    BothStored SameKey db ((Statement.updateKey id ch).run db)
      ((Statement.updateKey id ch').run (Database.withKeys db t)) := by
  have hallowed : ∀ {ch : KeyChanges} {rows : List ApiKey},
      (∀ r ∈ rows, r.id ≠ id → ch.keyHash ≠ some r.keyHash) →
      (rows.any fun r => decide (r.id ≠ id ∧ ch.keyHash = some r.keyHash)) = false := by
    intro ch rows hrows
    rw [List.any_eq_false]
    intro r hr hclaims
    obtain ⟨hne, hhash⟩ := of_decide_eq_true hclaims
    exact hrows r hr hne hhash
  have hfound := h.find id
  simp only [Statement.run, updateRow, hallowed hnew, Database.withKeys_apiKeys, hallowed hnew']
  generalize db.apiKeys.find id = found at hfound
  generalize t.find id = found' at hfound
  cases hfound with
  | none => exact .inl ⟨_, rfl, rfl⟩
  | some hrow =>
      refine .inr ⟨_, _, _, _, rfl, rfl, hsame _ _ hrow, h.change ?_ hsame⟩
      rintro r _ ⟨hash, secret, rfl⟩
      rfl

theorem reassignTarget_alike (d : KeyDeletion) (entry : Option String → AuditEntry)
    (owned : List Endpoint) (h : KeysAlike db.apiKeys t) :
    (∃ e, reassignTarget d owned db = .error e ∧
        reassignTarget { d with entry := entry } owned (Database.withKeys db t) = .error e) ∨
      ∃ target target', reassignTarget d owned db = .ok target ∧
        reassignTarget { d with entry := entry } owned (Database.withKeys db t) = .ok target' ∧
        Option.Rel SameKey target target' := by
  unfold reassignTarget
  cases hto : d.reassignTo with
  | none =>
      dsimp only
      split
      · exact .inr ⟨none, none, rfl, rfl, .none⟩
      · exact .inl ⟨_, rfl, rfl⟩
  | some targetId =>
      have hfound := h.find targetId
      simp only [Database.withKeys_apiKeys]
      generalize db.apiKeys.find targetId = found at hfound
      generalize t.find targetId = found' at hfound
      cases hfound with
      | none => exact .inl ⟨_, rfl, rfl⟩
      | some hkey => exact .inr ⟨_, _, rfl, rfl, .some hkey⟩

theorem removeRecorded_alike (h : KeysAlike db.apiKeys t) (id : Uuid) (entry : AuditLog) :
    (∃ e, db.removeRecorded id entry = .error e ∧
        (Database.withKeys db t).removeRecorded id entry = .error e) ∨
      ∃ db₁ u, KeysAlike db₁.apiKeys u ∧ db.removeRecorded id entry = .ok db₁ ∧
        (Database.withKeys db t).removeRecorded id entry = .ok (Database.withKeys db₁ u) := by
  have hremoved : KeysAlike (db.removeKey id).apiKeys (t.delete fun r => decide (r.id = id)) := by
    refine h.delete ?_
    rintro r _ ⟨hash, secret, rfl⟩
    rfl
  have hnone : ((Database.withKeys db t).apiKeys.find id).isNone = (db.apiKeys.find id).isNone := by
    rw [← Option.not_isSome, ← Option.not_isSome, Database.withKeys_apiKeys, h.isSome_find]
  have hrun : (Statement.insertAudit entry).run ((Database.withKeys db t).removeKey id) =
      ((Statement.insertAudit entry).run (db.removeKey id)).map fun result =>
        (result.1, Database.withKeys result.2 (t.delete fun r => decide (r.id = id))) :=
    run_withKeys hremoved (s := .insertAudit entry) rfl
  unfold Database.removeRecorded
  rw [hnone, hrun]
  split
  · exact .inl ⟨_, rfl, rfl⟩
  · cases hfinal : (Statement.insertAudit entry).run (db.removeKey id) with
    | error e => exact .inl ⟨_, rfl, rfl⟩
    | ok result =>
        obtain ⟨-, u, -, hdb⟩ := run_insertAudit hfinal
        refine .inr ⟨result.2, _, ?_, rfl, rfl⟩
        rw [hdb]
        exact hremoved

theorem deleteKey_alike {d : KeyDeletion} {entry : Option String → AuditEntry}
    (h : KeysAlike db.apiKeys t)
    (hentry : ∀ details id time, (entry details).row id time = (d.entry details).row id time)
    (id : Uuid) (time : NaiveDateTime) :
    (∃ e, d.run id time db = .error e ∧
        KeyDeletion.run { d with entry := entry } id time (Database.withKeys db t) = .error e) ∨
      ∃ db₁ u, KeysAlike db₁.apiKeys u ∧ d.run id time db = .ok db₁ ∧
        KeyDeletion.run { d with entry := entry } id time (Database.withKeys db t) =
          .ok (Database.withKeys db₁ u) := by
  rcases reassignTarget_alike d entry (db.endpointsOf d.id) h with
    ⟨e, he, he'⟩ | ⟨target, target', htarget, htarget', hsame⟩
  · exact .inl ⟨e, KeyDeletion.run_of_error he, KeyDeletion.run_of_error he'⟩
  · -- The key named on the other side has the same id and name.
    have hmoved : KeyDeletion.moved { d with entry := entry } target' (Database.withKeys db t) =
        Database.withKeys (d.moved target db) t := by
      cases hsame with
      | none => rfl
      | some hkey =>
          obtain ⟨hash, secret, rfl⟩ := hkey
          rfl
    have hdetails : ∀ count, reassignedDetails count target' = reassignedDetails count target := by
      intro count
      cases hsame with
      | none => rfl
      | some hkey =>
          obtain ⟨hash, secret, rfl⟩ := hkey
          rfl
    have hkeys : KeysAlike (d.moved target db).apiKeys t := by
      cases hsame <;> exact h
    have hrun' : KeyDeletion.run { d with entry := entry } id time (Database.withKeys db t) = _ :=
      KeyDeletion.run_of_target htarget'
    rw [hmoved, hdetails, hentry] at hrun'
    rw [KeyDeletion.run_of_target htarget, hrun']
    exact removeRecorded_alike hkeys d.id _

/-- A statement on keys, executed on both sides. -/
theorem exec_alike {crates crates' : Crates} {s s' : Statement} {rel : s.Rows → s'.Rows → Prop}
    (hreuses : reuses s w = false) (hreuses' : reuses s' (World.withKeys w t) = false)
    (hretires : retires s w = []) (hretires' : retires s' (World.withKeys w t) = [])
    (hkeys : KeysAlike w.db.apiKeys t)
    (h : BothStored rel w.db (s.run w.db) (s'.run (Database.withKeys w.db t))) (e : Choice) :
    (exec crates (.db s) e w = none ∧ exec crates' (.db s') e (World.withKeys w t) = none) ∨
      ∃ r w₁ r' w₁', exec crates (.db s) e w = some (r, w₁) ∧
        exec crates' (.db s') e (World.withKeys w t) = some (r', w₁') ∧ Both rel r r' ∧
        Alike w₁ w₁' := by
  have hsame : Alike w (World.withKeys w t) := ⟨t, hkeys, rfl⟩
  have hdb : (World.withKeys w t).db = Database.withKeys w.db t := rfl
  simp only [exec, hreuses, hreuses', Bool.false_eq_true, if_false]
  cases e with
  | succeed =>
      simp only [execStatement, hretires, hretires', hdb]
      rcases h with ⟨err, hrun, hrun'⟩ | ⟨x, x', u, u', hrun, hrun', hrel, hu⟩
      · rw [hrun, hrun']
        exact .inr ⟨_, _, _, _, rfl, rfl, .error err, hsame⟩
      · rw [hrun, hrun']
        exact .inr ⟨_, _, _, _, rfl, rfl, .ok hrel, u', hu, rfl⟩
  | fail => exact .inr ⟨_, _, _, _, rfl, rfl, .error _, hsame⟩
  | _ => exact .inl ⟨rfl, rfl⟩

/-- Paired calls of two services that differ in credentials. -/
theorem discreet_mirrors {crates : Crates} (x : Ciphering crates) :
    Mirrors Discreet Alike (unclaimed · ·) (exec crates) (exec x.crates) := by
  rintro c c' answers e w _ hpair ⟨t, hkeys, rfl⟩ hnew hnew'
  cases hpair with
  | other hc =>
      rw [exec_withKeys x hkeys hc]
      cases hexec : exec crates c e w with
      | none => exact .inl ⟨rfl, rfl⟩
      | some result =>
          refine .inr ⟨_, _, _, _, rfl, rfl, rfl, t, ?_, rfl⟩
          rw [exec_keeps_keys hc hexec]
          exact hkeys
  | findKey id =>
      exact exec_alike rfl rfl rfl rfl hkeys
        (.inr ⟨_, _, w.db.apiKeys, t, rfl, rfl, hkeys.find id, hkeys⟩) e
  | allKeys =>
      exact exec_alike rfl rfl rfl rfl hkeys (.inr
      ⟨_, _, w.db.apiKeys, t, rfl, rfl, hkeys, hkeys⟩) e
  | insertKey hrow => exact exec_alike rfl rfl rfl rfl hkeys (insertKey_alike hkeys hrow
      (of_decide_eq_true hnew) (of_decide_eq_true hnew')) e
  | updateKey id hsame => exact exec_alike rfl rfl rfl rfl hkeys (updateKey_alike hkeys hsame
      (of_decide_eq_true hnew) (of_decide_eq_true hnew')) e
  | deleteKey hentry =>
      cases e with
      | audited id time =>
          have hdb : (World.withKeys w t).db = Database.withKeys w.db t := rfl
          have hclock : (World.withKeys w t).clock = w.clock := rfl
          simp only [exec, hdb, hclock]
          by_cases htime : w.clock ≤ time
          · rw [if_pos htime, if_pos htime]
            rcases deleteKey_alike hkeys hentry id time with ⟨err, hrun, hrun'⟩ |
              ⟨db₁, u, hu, hrun, hrun'⟩
            · rw [hrun, hrun']
              exact .inr ⟨_, _, _, _, rfl, rfl, rfl, t, hkeys, rfl⟩
            · rw [hrun, hrun']
              exact .inr ⟨_, _, _, _, rfl, rfl, rfl, u, hu, rfl⟩
          · rw [if_neg htime, if_neg htime]
            exact .inl ⟨rfl, rfl⟩
      | fail => exact .inr ⟨_, _, _, _, rfl, rfl, rfl, t, hkeys, rfl⟩
      | _ => exact .inl ⟨rfl, rfl⟩

end Mirroring

section Rules
variable {B : Type}

theorem ask_self {pairing : Pairing Answer} {c : Call} {f f' : Answer c → Handler B}
    (hc : pairing c c Eq) (hrest : ∀ r, Same pairing (f r) (f' r)) :
    Same pairing (ask c >>= f : Handler B) (ask c >>= f') := by
  refine Twin.ask_bind hc ?_
  rintro r _ rfl
  exact hrest r

theorem statement_twin {pairing : Pairing Answer} {s s' : Statement} {rel : s.Rows → s'.Rows → Prop}
    {f : s.Rows → Handler B} {f' : s'.Rows → Handler B}
    (hpair : pairing (.db s) (.db s') (Both rel))
    (hrest : ∀ rows rows', rel rows rows' → Same pairing (f rows) (f' rows')) :
    Same pairing (statement s >>= f : Handler B) (statement s' >>= f') := by
  refine Twin.ask_bind hpair ?_
  intro r r' hr
  cases hr with
  | ok hrel => exact hrest _ _ hrel
  | error e => exact .value rfl

theorem statement_self {pairing : Pairing Answer} {s : Statement} {f f' : s.Rows → Handler B}
    (hs : pairing (.db s) (.db s) Eq) (hrest : ∀ rows, Same pairing (f rows) (f' rows)) :
    Same pairing (statement s >>= f : Handler B) (statement s >>= f') := by
  refine Twin.ask_bind hs ?_
  rintro r _ rfl
  cases r with
  | ok rows => exact hrest rows
  | error e => exact .value rfl

theorem statement_same {pairing : Pairing Answer} {s : Statement}
    (hs : pairing (.db s) (.db s) Eq) :
    Same pairing (statement s) (statement s) := by
  refine Twin.ask_bind hs ?_
  rintro r _ rfl
  cases r with
  | ok rows => exact Same.ok rows
  | error e => exact Same.throw _

theorem ask_bind {c : Call} {f f' : Answer c → Handler B} (hc : onCredentials c = false)
    (hrest : ∀ r, Same Discreet (f r) (f' r)) :
    Same Discreet (ask c >>= f : Handler B) (ask c >>= f') :=
  ask_self (.other hc) hrest

theorem statement_bind {s : Statement} {f f' : s.Rows → Handler B}
    (hs : onCredentials (.db s) = false) (hrest : ∀ rows, Same Discreet (f rows) (f' rows)) :
    Same Discreet (statement s >>= f : Handler B) (statement s >>= f') :=
  statement_self (.other hs) hrest

/-- A key that is looked up is the same but for its credentials. -/
theorem findKey_bind {id : Uuid} {f f' : ApiKey → Handler B}
    (hrest : ∀ key hash secret,
      Same Discreet (f key) (f' { key with keyHash := hash, signingSecret := secret })) :
    Same Discreet
      (statement (.findKey id) >>= fun found => attempt (orNotFound found) >>= f : Handler B)
      (statement (.findKey id) >>= fun found => attempt (orNotFound found) >>= f') := by
  refine statement_twin (.findKey id) ?_
  intro found found' hfound
  cases hfound with
  | none => exact .value rfl
  | some hkey =>
      obtain ⟨hash, secret, rfl⟩ := hkey
      exact hrest _ hash secret

end Rules

section Handlers
variable {app : AppState} (x : Ciphering app.crates) (caller : Caller) (hash : String)
  (secret : Option String)

/-- The caller with other credentials. -/
def recredentialed : Caller :=
  { caller with key := { caller.key with keyHash := hash, signingSecret := secret } }

theorem createAuditLog_same (action : String) (target details : Option String) :
    Same Discreet (createAuditLog (auditEntry app caller action target details))
      (createAuditLog
        (auditEntry x.app (recredentialed caller hash secret) action target details)) :=
  ask_bind rfl fun _ => ask_bind rfl fun _ => statement_bind rfl fun _ => .ok ()

/-- A secret is sealed on both sides or on neither. -/
theorem sealed_bind {B : Type} {plain : String} {f f' : String → Handler B}
    (hrest : ∀ stored stored', Same Discreet (f stored) (f' stored')) :
    Same Discreet (sealed app plain >>= f) (sealed x.app plain >>= f') := by
  have hsealed : Twin Discreet (fun result result' =>
      result = .error .internal ∧ result' = .error .internal ∨
        ∃ stored stored', result = .ok stored ∧ result' = .ok stored')
      (sealed app plain) (sealed x.app plain) := by
    refine Twin.ask_bind (.other rfl) ?_
    rintro nonce _ rfl
    have hseals : (x.app.crates.sealSecret nonce plain).isSome = _ := x.seals nonce plain
    refine .value ?_
    generalize app.crates.sealSecret nonce plain = stored at hseals
    generalize x.app.crates.sealSecret nonce plain = stored' at hseals
    cases stored with
    | none =>
        cases stored' with
        | none => exact .inl ⟨rfl, rfl⟩
        | some text' => cases hseals
    | some text =>
        cases stored' with
        | none => cases hseals
        | some text' => exact .inr ⟨text, text', rfl, rfl⟩
  refine Twin.except_bind hsealed ?_
  rintro _ _ (⟨rfl, rfl⟩ | ⟨stored, stored', rfl, rfl⟩)
  · exact .value rfl
  · exact hrest stored stored'

theorem generateSecret_bind {B : Type} {f f' : String → Handler B}
    (hrest : ∀ plain, Same Discreet (f plain) (f' plain)) :
    Same Discreet (generateSecret >>= f) (generateSecret >>= f') :=
  Same.then (ask_bind rfl fun _ => .ok _) hrest

theorem entry_bind {A : Type} (action : String) (target details : Option String) (a : A) :
    Same Discreet
      (createAuditLog (auditEntry app caller action target details) >>= fun _ => pure a : Handler A)
      (createAuditLog
        (auditEntry x.app (recredentialed caller hash secret) action target details) >>=
        fun _ => pure a : Handler A) :=
  Same.then (createAuditLog_same x caller hash secret action target details) fun _ => .ok a

theorem createApiKey_same (payload : CreateKeyPayload) :
    Same Discreet (createApiKey app caller payload)
      (createApiKey x.app (recredentialed caller hash secret) payload) := by
  refine Same.attempt_bind fun _ _ => Same.attempt_bind fun _ _ => Same.attempt_bind fun _ _ => ?_
  refine generateSecret_bind fun plaintextKey => generateSecret_bind fun signingSecret => ?_
  refine ask_bind rfl fun now => ask_bind rfl fun id => sealed_bind x fun stored stored' => ?_
  refine statement_twin (.insertKey ⟨x.crates.hashKey plaintextKey, some stored', rfl⟩) ?_
  rintro created _ ⟨hash', secret', rfl⟩
  exact entry_bind x caller hash secret _ _ _ _

theorem listApiKeys_same :
    Same Discreet (listApiKeys caller) (listApiKeys (recredentialed caller hash secret)) := by
  refine Same.attempt_bind fun _ _ => statement_twin .allKeys ?_
  intro rows rows' hrows
  have hshown : rows.map KeyResponse.of = rows'.map KeyResponse.of := by
    induction hrows with
    | nil => rfl
    | cons hkey _ ih =>
        obtain ⟨hash', secret', rfl⟩ := hkey
        rw [List.map_cons, List.map_cons, ih]
        rfl
  rw [hshown]
  exact .ok _

theorem updateApiKey_same (id : Uuid) (payload : UpdateKeyPayload) :
    Same Discreet (updateApiKey app caller id payload)
      (updateApiKey x.app (recredentialed caller hash secret) id payload) := by
  refine Same.attempt_bind fun _ _ => findKey_bind fun existing hash₁ secret₁ => ?_
  refine Same.attempt_bind fun _ _ => Same.attempt_bind fun _ _ => Same.attempt_bind fun _ _ => ?_
  refine ask_bind rfl fun now => statement_twin (.updateKey existing.id ?_) ?_
  · rintro r _ ⟨hash', secret', rfl⟩
    exact ⟨hash', secret', rfl⟩
  · rintro updated _ ⟨hash', secret', rfl⟩
    exact entry_bind x caller hash secret _ _ _ _

theorem deleteApiKey_same (id : Uuid) (query : DeleteKeyQuery) :
    Same Discreet (deleteApiKey app caller id query)
      (deleteApiKey x.app (recredentialed caller hash secret) id query) := by
  refine Same.attempt_bind fun _ _ => findKey_bind fun existing hash₁ secret₁ => ?_
  refine Same.attempt_bind fun _ _ => Same.attempt_bind fun _ _ => ask_bind rfl fun now => ?_
  refine Twin.ask_bind (.deleteKey fun _ _ _ => rfl) ?_
  rintro outcome _ rfl
  exact Same.attempt outcome

theorem rotateApiKey_same (id : Uuid) :
    Same Discreet (rotateApiKey app caller id)
      (rotateApiKey x.app (recredentialed caller hash secret) id) := by
  refine Same.attempt_bind fun _ _ => findKey_bind fun existing hash₁ secret₁ => ?_
  refine Same.attempt_bind fun _ _ => generateSecret_bind fun plaintextKey => ?_
  refine generateSecret_bind fun signingSecret => sealed_bind x fun stored stored' => ?_
  refine ask_bind rfl fun now => statement_twin (.updateKey existing.id ?_) ?_
  · rintro r _ ⟨hash', secret', rfl⟩
    exact ⟨x.crates.hashKey plaintextKey, some stored', rfl⟩
  · rintro updated _ ⟨hash', secret', rfl⟩
    exact entry_bind x caller hash secret _ _ _ _

theorem rotateSigningSecret_same (id : Uuid) :
    Same Discreet (rotateSigningSecret app caller id)
      (rotateSigningSecret x.app (recredentialed caller hash secret) id) := by
  refine Same.attempt_bind fun _ _ => findKey_bind fun existing hash₁ secret₁ => ?_
  refine Same.attempt_bind fun _ _ => generateSecret_bind fun signingSecret => ?_
  refine sealed_bind x fun stored stored' => ask_bind rfl fun now => ?_
  refine statement_twin (.updateKey existing.id ?_) ?_
  · rintro r _ ⟨hash', secret', rfl⟩
    exact ⟨hash', some stored', rfl⟩
  · rintro updated _ ⟨hash', secret', rfl⟩
    exact entry_bind x caller hash secret _ _ _ _

theorem validateGroupAccess_same (vaultGroups : String) :
    Same Discreet (validateGroupAccess caller.key vaultGroups)
      (validateGroupAccess (recredentialed caller hash secret).key vaultGroups) := by
  change Same Discreet (if caller.key.isMaster then _ else _) (if caller.key.isMaster then _ else _)
  split
  · exact .ok ()
  · exact Same.then (statement_bind rfl fun _ => .ok _) fun _ => .attempt _

theorem createEndpoint_same (payload : CreateEndpointPayload) :
    Same Discreet (createEndpoint app caller payload)
      (createEndpoint x.app (recredentialed caller hash secret) payload) := by
  refine Same.attempt_bind fun _ _ => Same.attempt_bind fun _ _ => ?_
  refine Same.then (validateGroupAccess_same caller hash secret _) fun _ =>
    Same.attempt_bind fun _ _ => ?_
  refine Same.attempt_bind fun _ _ => Same.attempt_bind fun _ _ => ask_bind rfl fun now => ?_
  refine ask_bind rfl fun id => ask_bind rfl fun token => statement_bind rfl fun created => ?_
  exact entry_bind x caller hash secret _ _ _ _

theorem listEndpoints_same :
    Same Discreet (listEndpoints caller) (listEndpoints (recredentialed caller hash secret)) := by
  have hkey : (recredentialed caller hash secret).key.isMaster = caller.key.isMaster := rfl
  unfold listEndpoints
  by_cases hmaster : caller.key.isMaster = true
  · rw [if_pos hmaster, if_pos (hkey.trans hmaster)]
    exact statement_bind rfl fun rows => Same.ok (rows.map EndpointResponse.of)
  · rw [if_neg hmaster, if_neg (hkey ▸ hmaster)]
    exact statement_bind rfl fun rows => Same.ok (rows.map EndpointResponse.of)

theorem checkGroups_same (vaultGroups : Option String) :
    Same Discreet (checkGroups caller.key vaultGroups)
      (checkGroups (recredentialed caller hash secret).key vaultGroups) := by
  cases vaultGroups with
  | none => exact .ok ()
  | some raw => exact Same.attempt_bind fun _ _ => validateGroupAccess_same caller hash secret raw

theorem updateEndpoint_same (id : Uuid) (payload : UpdateEndpointPayload) :
    Same Discreet (updateEndpoint app caller id payload)
      (updateEndpoint x.app (recredentialed caller hash secret) id payload) := by
  refine statement_bind rfl fun found => Same.attempt_bind fun existing _ => ?_
  refine Same.attempt_bind fun _ _ => Same.attempt_bind fun _ _ => ?_
  refine Same.then (checkGroups_same caller hash secret _) fun _ => Same.attempt_bind fun _ _ => ?_
  refine Same.attempt_bind fun _ _ => Same.attempt_bind fun _ _ => ask_bind rfl fun now => ?_
  exact statement_bind rfl fun updated => entry_bind x caller hash secret _ _ _ _

theorem deleteEndpoint_same (id : Uuid) :
    Same Discreet (deleteEndpoint app caller id)
      (deleteEndpoint x.app (recredentialed caller hash secret) id) := by
  refine statement_bind rfl fun found => Same.attempt_bind fun existing _ => ?_
  refine Same.attempt_bind fun _ _ => statement_bind rfl fun removed =>
    Same.attempt_bind fun _ _ => ?_
  exact ask_bind rfl fun _ => createAuditLog_same x caller hash secret _ _ _

theorem checkOwner_same (owner : Option Uuid) :
    Same Discreet (checkOwner owner) (checkOwner owner) := by
  cases owner with
  | none => exact .ok ()
  | some id =>
      refine statement_twin (.findKey id) ?_
      intro found found' hfound
      cases hfound with
      | none => exact .attempt _
      | some _ => exact .attempt _

theorem reassignEndpointOwner_same (id : Uuid) (payload : ReassignOwnerPayload) :
    Same Discreet (reassignEndpointOwner app caller id payload)
      (reassignEndpointOwner x.app (recredentialed caller hash secret) id payload) := by
  refine Same.attempt_bind fun _ _ => statement_bind rfl fun found =>
    Same.attempt_bind fun existing _ => ?_
  refine Same.then (checkOwner_same _) fun _ => ask_bind rfl fun now => ?_
  exact statement_bind rfl fun updated => entry_bind x caller hash secret _ _ _ _

theorem currentGroups_same : Same Discreet (currentGroups app) (currentGroups x.app) :=
  Same.attempt_bind fun _ _ => ask_bind rfl fun _ => .attempt _

theorem grantKeyGroup_same (id : Uuid) (payload : GrantGroupPayload) :
    Same Discreet (grantKeyGroup app caller id payload)
      (grantKeyGroup x.app (recredentialed caller hash secret) id payload) := by
  refine Same.attempt_bind fun _ _ => findKey_bind fun target hash₁ secret₁ => ?_
  refine Same.then (currentGroups_same x) fun groups => Same.attempt_bind fun group _ => ?_
  refine statement_bind rfl fun existing => ?_
  cases existing with
  | some grant => exact .ok grant
  | none =>
      refine ask_bind rfl fun now => ask_bind rfl fun grantId => ?_
      exact statement_bind rfl fun created => entry_bind x caller hash secret _ _ _ _

theorem revokeKeyGroup_same (id permissionId : Uuid) :
    Same Discreet (revokeKeyGroup app caller id permissionId)
      (revokeKeyGroup x.app (recredentialed caller hash secret) id permissionId) := by
  refine Same.attempt_bind fun _ _ => findKey_bind fun target hash₁ secret₁ => ?_
  refine statement_bind rfl fun foundGrant => Same.attempt_bind fun grant _ => ?_
  refine Same.attempt_bind fun _ _ => statement_bind rfl fun _ => ?_
  exact createAuditLog_same x caller hash secret _ _ _

theorem answer_same {A : Type} {wrap : A → Response} {h h' : Handler A}
    (hsame : Same Discreet h h') :
    Same Discreet (answer wrap h) (answer wrap h') := Same.then hsame fun _ => .ok _

theorem handle_same (r : ApiRequest) :
    Same Discreet (handle app caller r) (handle x.app (recredentialed caller hash secret) r) := by
  cases r with
  | getMe => exact .ok _
  | createApiKey payload =>
      exact Same.attempt_bind fun p _ => answer_same (createApiKey_same x caller hash secret p)
  | listApiKeys => exact answer_same (listApiKeys_same caller hash secret)
  | updateApiKey id payload =>
      exact Same.attempt_bind fun id _ => Same.attempt_bind fun p _ =>
        answer_same (updateApiKey_same x caller hash secret id p)
  | deleteApiKey id query =>
      exact Same.attempt_bind fun id _ => Same.attempt_bind fun q _ =>
        answer_same (deleteApiKey_same x caller hash secret id q)
  | rotateApiKey id =>
      exact Same.attempt_bind fun id _ => answer_same (rotateApiKey_same x caller hash secret id)
  | rotateSigningSecret id =>
      exact Same.attempt_bind fun id _ =>
        answer_same (rotateSigningSecret_same x caller hash secret id)
  | createEndpoint payload =>
      exact Same.attempt_bind fun p _ => answer_same (createEndpoint_same x caller hash secret p)
  | listEndpoints => exact answer_same (listEndpoints_same caller hash secret)
  | updateEndpoint id payload =>
      exact Same.attempt_bind fun id _ => Same.attempt_bind fun p _ =>
        answer_same (updateEndpoint_same x caller hash secret id p)
  | deleteEndpoint id =>
      exact Same.attempt_bind fun id _ => answer_same (deleteEndpoint_same x caller hash secret id)
  | reassignEndpointOwner id payload =>
      exact Same.attempt_bind fun id _ => Same.attempt_bind fun p _ =>
        answer_same (reassignEndpointOwner_same x caller hash secret id p)
  | listAuditLogs query =>
      exact Same.attempt_bind fun q _ => answer_same
        (Same.attempt_bind fun _ _ => statement_same (.other rfl))
  | listVaultGroups => exact answer_same (Same.attempt_bind fun _ _ => currentGroups_same x)
  | listKeyGroups id =>
      exact Same.attempt_bind fun id _ => answer_same
        (Same.attempt_bind fun _ _ => statement_same (.other rfl))
  | grantKeyGroup id payload =>
      exact Same.attempt_bind fun id _ => Same.attempt_bind fun p _ =>
        answer_same (grantKeyGroup_same x caller hash secret id p)
  | revokeKeyGroup path =>
      exact Same.attempt_bind fun ids _ =>
        answer_same (revokeKeyGroup_same x caller hash secret ids.1 ids.2)

end Handlers

/-- A policy that keeps off the keys. -/
def keyless : Policy Answer Unit := ⟨fun _ c => onCredentials c = false, fun _ _ _ _ => True⟩

theorem twin_of_keyless {A : Type} {p : Program Answer A}
    (h : Follows keyless (fun _ _ => True) p ()) :
    Twin Discreet Eq p p :=
  Twin.refl_of_follows (fun _ _ hc => .other hc) (fun _ _ _ => ⟨(), trivial⟩) h

theorem program_twin {app : AppState} (x : Ciphering app.crates) {t t' : Task} (h : SameTask t t') :
    Twin Discreet Eq (t.program app) (t'.program x.app) := by
  cases h with
  | request caller hash secret r =>
      refine Twin.bind (handle_same x caller hash secret r) ?_
      rintro outcome _ rfl
      exact .value rfl
  | cleanup =>
      have hpass : Follows keyless (fun _ _ => True) (cleanupStaleGroupPermissions app) () :=
        cleanupStaleGroupPermissions_follows (fun _ => rfl) (fun _ => rfl) (fun _ _ => rfl) app ()
      exact twin_of_keyless (hpass.bind fun _ _ _ => Follows.pure trivial)
  | sync passes =>
      refine twin_of_keyless (sync_follows_of_permits ?_ app passes ())
      intro pass _ c hc
      cases c with
      | db s =>
          cases s with
          | allEndpoints | updateEndpoint id ch => rfl
          | _ => exact hc.elim
      | deleteKey d => exact hc.elim
      | _ => rfl

section Runs
variable {I : Type} [DecidableEq I]

/-- Two services that differ in the stored credentials, in the hash of keys and in the
cipher, with the same requests under way. Whatever one of them does, the other does too,
with the same answer to every request and the same trail, as long as no new key collides
with another. -/
theorem credentials_not_shown {app : AppState} (x : Ciphering app.crates) {tasks tasks' : I → Task}
    (htasks : ∀ i, SameTask (tasks i) (tasks' i)) {w w' : World} (hw : Alike w w')
    {events : List (Event I Choice Change)} {q : Process I}
    (hnew : Along (system app.crates) (suited (unclaimed · ·)) (process app tasks w) events)
    (hnew' : Along (system x.crates) (suited (unclaimed · ·)) (process x.app tasks' w') events)
    (hrun : Interleaving.run (system app.crates) (process app tasks w) events = some q) :
    ∃ q', Interleaving.run (system x.crates) (process x.app tasks' w') events = some q' ∧
      (∀ i, q'.outcome i = q.outcome i) ∧ q'.state.db.auditLogs = q.state.db.auditLogs ∧
      Alike q.state q'.state := by
  have hstart : Paired Discreet Eq Alike (process app tasks w) (process x.app tasks' w') :=
    ⟨fun i => program_twin x (htasks i), hw⟩
  have henv : ∀ ch s s' t, Alike s s' → env ch s = some t → ∃ t', env ch s' = some t' ∧
      Alike t t' := by
    rintro ⟨group, address, lastSeenAt, deleted, time⟩ s _ t ⟨keys, hkeys, rfl⟩ ht
    simp only [env] at ht
    split at ht
    · rename_i htime
      cases ht
      exact ⟨_, if_pos htime, keys, hkeys, rfl⟩
    · cases ht
  obtain ⟨q', hrun', hpaired⟩ := run_lockstep (system app.crates) (system x.crates)
    (discreet_mirrors x) henv hstart hnew hnew' hrun
  refine ⟨q', hrun', fun i => (hpaired.outcome_eq i).symm, ?_, hpaired.state⟩
  obtain ⟨t, -, hstate⟩ := hpaired.state
  rw [hstate]
  rfl

end Runs

def rotatingMaster : ApiKey :=
  { sampleKey with id := 1, name := "master", keyHash := "root", isMaster := true }

def rotatingWorld : World :=
  { sampleWorld with
    db := { sampleWorld.db with apiKeys := ⟨[rotatingMaster, sampleKey], by decide⟩ } }

/-- The same keys with other credentials. -/
def otherKeys : Table ApiKey Uuid ApiKey.id :=
  ⟨[{ rotatingMaster with keyHash := "other", signingSecret := some "hidden" },
    { sampleKey with keyHash := "another" }], by decide⟩

/-- Keys hash to their reversal, and secrets are stored in hexadecimal. -/
def otherCiphering : Ciphering sampleApp.crates where
  sha256 := List.reverse
  hmacSha256 _ := none
  sealSecret := (cratesWith sampleCrates sampleAead .plaintext).sealSecret
  openSecret := (cratesWith sampleCrates sampleAead .plaintext).openSecret
  seals _ _ := rfl

def rotatingTask : Task := .request ⟨rotatingMaster, .v4 0x0a000001#32⟩ (.rotateApiKey (.ok 7))

def rotatingEvents : List (Event Unit Choice Change) :=
  [.succeed, .bytes (List.replicate 32 1), .bytes (List.replicate 32 2),
    .bytes (List.replicate 24 3), .time 1, .succeed, .uuid 9, .time 2, .succeed].map (.act ())

/-- The new key and secret are shown by both services, which store them differently. -/
theorem credentials_not_shown_rotation :
    ∃ q q', Interleaving.run (system sampleApp.crates)
        (process sampleApp (fun _ : Unit => rotatingTask) rotatingWorld) rotatingEvents = some q ∧
      Interleaving.run (system otherCiphering.crates) (process otherCiphering.app
        (fun _ : Unit =>
          .request (recredentialed ⟨rotatingMaster, .v4 0x0a000001#32⟩ "other" (some "hidden"))
          (.rotateApiKey (.ok 7))) (World.withKeys rotatingWorld otherKeys)) rotatingEvents =
            some q' ∧
      q'.outcome () = q.outcome () ∧ (q.outcome ()).isSome = true := by
  have hchecks : ((checkedRun (system sampleApp.crates) (suited (unclaimed · ·))
      (process sampleApp (fun _ : Unit => rotatingTask) rotatingWorld) rotatingEvents).map
        fun q => (q.outcome ()).isSome) = some true := by
    decide +kernel
  have hchecks' :
      (checkedRun (system otherCiphering.crates) (suited (unclaimed · ·))
      (process otherCiphering.app
      (fun _ : Unit =>
        .request (recredentialed ⟨rotatingMaster, .v4 0x0a000001#32⟩ "other" (some "hidden"))
        (.rotateApiKey (.ok 7))) (World.withKeys rotatingWorld otherKeys)) rotatingEvents).isSome =
          true := by
    decide +kernel
  obtain ⟨q, hchecked, hended⟩ := Option.map_eq_some_iff.mp hchecks
  obtain ⟨q₁, hchecked'⟩ := Option.isSome_iff_exists.mp hchecks'
  obtain ⟨hrun, hnew⟩ := checkedRun_eq_some hchecked
  have halike : Alike rotatingWorld (World.withKeys rotatingWorld otherKeys) :=
    ⟨otherKeys, .cons ⟨_, _, rfl⟩ (.cons ⟨_, _, rfl⟩ .nil), rfl⟩
  obtain ⟨q', hrun', hsame, -⟩ := credentials_not_shown otherCiphering
    (fun _ => .request ⟨rotatingMaster, .v4 0x0a000001#32⟩ "other" (some "hidden")
      (.rotateApiKey (.ok 7)))
    halike hnew (checkedRun_eq_some hchecked').2 hrun
  exact ⟨q, q', hrun, hrun', hsame (), hended⟩

end SimplyIpExporter.CredentialSecrecy
