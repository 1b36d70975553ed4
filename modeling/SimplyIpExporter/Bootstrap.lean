import SimplyIpExporter.WriteRules

/-!
# Starting the process

Before requests are served, a Master key is created if the table has none, and the
configured cipher is tried on the Master's secret. Both look for the Master by its
flag. What the environment sets and what is drawn at random is given with each start;
either statement may fail.
-/
namespace SimplyIpExporter.Bootstrap
open Entities KeyedTables Storage Services EndpointHandlers KeyHandlers Routes

/-- What one start finds in its environment and draws. -/
structure BootEnv where
  /-- `INITIAL_MASTER_KEY`, when it is set. -/
  initialMasterKey : Option String
  /-- `BOOTSTRAP_SUBNET`, when it is set to text. -/
  bootstrapSubnet : Option String
  /-- `INITIAL_MASTER_SIGNING_SECRET`, when it is set to text. -/
  initialMasterSigningSecret : Option String
  keyBytes : List UInt8
  secretBytes : List UInt8
  nonce : List UInt8
  id : Uuid
  now : NaiveDateTime
  queryFails : Bool
  insertFails : Bool

inductive BootError where
  | db (e : DbErr)
  | encryptionFailed
  | encryptionKeyMismatch
  deriving DecidableEq, Repr

def findMaster (db : Database) : Option ApiKey := db.apiKeys.rows.find? (·.isMaster)

def BootEnv.plaintextKey (env : BootEnv) : String :=
  env.initialMasterKey.getD (hexText env.keyBytes)

def BootEnv.boundIp (env : BootEnv) : String := env.bootstrapSubnet.getD "0.0.0.0/0,::/0"

def BootEnv.signingSecret (env : BootEnv) : String :=
  match env.initialMasterSigningSecret with
  | some fixed => if fixed = "" then hexText env.secretBytes else fixed
  | none => hexText env.secretBytes

/-- The row of a new Master key. -/
def BootEnv.masterRow (env : BootEnv) (crates : Crates) (stored : String) : ApiKey where
  id := env.id
  name := "System Master"
  keyPrefix := shownPrefix env.plaintextKey
  keyHash := crates.hashKey env.plaintextKey
  signingSecret := some stored
  boundIps := some env.boundIp
  isMaster := true
  canManageKeys := true
  parentKeyId := none
  ownerKeyId := none
  createdAt := env.now
  updatedAt := env.now

/-- The outcome, and the database it leaves. -/
def bootstrapMasterKey (crates : Crates) (env : BootEnv) (db : Database) :
    Except BootError Unit × Database :=
  if env.queryFails then (.error (.db .exec), db)
  else
    match findMaster db with
    | some _ => (.ok (), db)
    | none =>
      match crates.sealSecret env.nonce env.signingSecret with
      | none => (.error .encryptionFailed, db)
      | some stored =>
        if env.insertFails then (.error (.db .exec), db)
        else
          match (Statement.insertKey (env.masterRow crates stored)).run db with
          | .error e => (.error (.db e), db)
          | .ok (_, db') => (.ok (), db')

/-- Whether the Master's secret can be opened; the canary of all others. -/
def verifyEncryptionKey (crates : Crates) (queryFails : Bool) (db : Database) :
    Except BootError Unit :=
  if queryFails then .error (.db .exec)
  else
    match findMaster db with
    | none => .ok ()
    | some master =>
      match master.signingSecret with
      | none => .ok ()
      | some stored =>
        match crates.openSecret stored with
        | none => .error .encryptionKeyMismatch
        | some _ => .ok ()

section Outcomes
variable {crates : Crates} {env : BootEnv} {db db' : Database}

/-- A start that went well found a Master, or has added one to a table without. -/
theorem bootstrapMasterKey_ok (h : bootstrapMasterKey crates env db = (.ok (), db')) :
    (db' = db ∧ ∃ master, findMaster db = some master) ∨
    (findMaster db = none ∧ ∃ stored keys,
      crates.sealSecret env.nonce env.signingSecret = some stored ∧
      db.apiKeys.insert (env.masterRow crates stored) = some keys ∧
      db' = { db with apiKeys := keys }) := by
  unfold bootstrapMasterKey at h
  split at h
  · cases h
  · split at h
    · rename_i master hmaster
      cases h
      exact .inl ⟨rfl, master, hmaster⟩
    · rename_i hnone
      split at h
      · cases h
      · rename_i stored hsealed
        split at h
        · cases h
        · split at h
          · cases h
          · rename_i row final hinsert
            cases h
            obtain ⟨-, keys, hkeys, rfl⟩ := run_insertKey hinsert
            exact .inr ⟨hnone, stored, keys, hsealed, hkeys, rfl⟩

/-- A start that failed has written nothing. -/
theorem bootstrapMasterKey_error {e : BootError}
    (h : bootstrapMasterKey crates env db = (.error e, db')) : db' = db := by
  unfold bootstrapMasterKey at h
  split at h
  · cases h
    rfl
  · split at h
    · cases h
    · split at h
      · cases h
        rfl
      · split at h
        · cases h
          rfl
        · split at h
          · cases h
            rfl
          · cases h

/-- With a Master in the table, a start writes nothing. -/
theorem bootstrapMasterKey_writes_nothing {master : ApiKey} (h : findMaster db = some master)
    (crates : Crates) (env : BootEnv) : (bootstrapMasterKey crates env db).2 = db := by
  unfold bootstrapMasterKey
  rw [h]
  split <;> rfl

/-- The identifier is that of the one Master row. -/
structure OnlyMaster (id : Uuid) (db : Database) : Prop where
  present : ∃ row, db.apiKeys.find id = some row ∧ row.isMaster = true
  only : ∀ row ∈ db.apiKeys.rows, row.isMaster = true → row.id = id

theorem OnlyMaster.filter_eq {id : Uuid} (h : OnlyMaster id db) :
    ∃ row, db.apiKeys.find id = some row ∧ db.apiKeys.rows.filter (·.isMaster) = [row] := by
  obtain ⟨row, hfind, hmaster⟩ := h.present
  exact ⟨row, hfind, Table.filter_eq_singleton hfind hmaster h.only⟩

theorem OnlyMaster.findMaster_eq {id : Uuid} (h : OnlyMaster id db) :
    findMaster db = db.apiKeys.find id := by
  obtain ⟨row, hfind, hfilter⟩ := h.filter_eq
  rw [findMaster, ← List.head?_filter, hfilter, hfind]
  rfl

/-- A table with at most one Master has exactly one after a start that went well. -/
theorem onlyMaster_of_bootstrap (hone : (db.apiKeys.rows.filter (·.isMaster)).length ≤ 1)
    (h : bootstrapMasterKey crates env db = (.ok (), db')) : ∃ id, OnlyMaster id db' := by
  rcases bootstrapMasterKey_ok h with ⟨hsame, master, hmaster⟩ |
    ⟨hnone, stored, keys, -, hkeys, rfl⟩
  · rw [hsame]
    have hmem : master ∈ db.apiKeys.rows := List.mem_of_find?_eq_some hmaster
    have hflag : master.isMaster = true := by simpa using List.find?_some hmaster
    have hfilter : db.apiKeys.rows.filter (·.isMaster) = [master] := by
      have hin : master ∈ db.apiKeys.rows.filter (·.isMaster) := List.mem_filter.mpr ⟨hmem, hflag⟩
      cases hrows : db.apiKeys.rows.filter (·.isMaster) with
      | nil =>
          rw [hrows] at hin
          cases hin
      | cons row rest =>
          rw [hrows] at hone hin
          have hrest : rest = [] := List.length_eq_zero_iff.mp (by simpa using hone)
          subst hrest
          rw [List.mem_singleton.mp hin]
    refine ⟨master.id, ⟨master, Table.find_eq_some.mpr ⟨hmem, rfl⟩, hflag⟩, ?_⟩
    intro row hrow hrowFlag
    have hin : row ∈ db.apiKeys.rows.filter (·.isMaster) := List.mem_filter.mpr ⟨hrow, hrowFlag⟩
    rw [hfilter] at hin
    rw [List.mem_singleton.mp hin]
  · refine ⟨env.id, ⟨env.masterRow crates stored, ?_, rfl⟩, ?_⟩
    · exact (Table.find_insert hkeys env.id).trans (if_pos rfl)
    · intro row hrow hflag
      simp only [(Table.rows_insert hkeys).1, List.mem_append, List.mem_singleton] at hrow
      rcases hrow with hold | rfl
      · exact absurd hflag (List.find?_eq_none.mp hnone row hold)
      · rfl

end Outcomes

/-- A first start without any setting, on a machine whose random bytes are zeros. -/
def sampleBoot : BootEnv where
  initialMasterKey := none
  bootstrapSubnet := none
  initialMasterSigningSecret := none
  keyBytes := List.replicate 32 0
  secretBytes := List.replicate 32 0
  nonce := List.replicate 24 0
  id := 1
  now := 0
  queryFails := false
  insertFails := false

/-- The world after that start. -/
def bootedWorld : World where
  db := (bootstrapMasterKey sampleCrates sampleBoot .empty).2
  retired := []
  cache := ∅
  vault := ∅
  clock := 0
  uptime := 0

theorem bootedWorld_boot :
    bootstrapMasterKey sampleApp.crates sampleBoot .empty = (.ok (), bootedWorld.db) :=
  Prod.ext (by decide +kernel) rfl

/-- The Master, calling from a private address. -/
def sampleMaster : Caller :=
  ⟨sampleBoot.masterRow sampleCrates sampleBoot.signingSecret, .v4 0x0a000001#32⟩

def sampleMinting : ApiRequest := .createApiKey (.ok ⟨"daughter", none, false⟩)

def mintingChoices : List Choice :=
  [.bytes (List.replicate 32 1), .bytes (List.replicate 32 2), .time 1, .uuid 2,
    .bytes (List.replicate 24 3), .succeed, .uuid 3, .time 2, .succeed]

end SimplyIpExporter.Bootstrap
