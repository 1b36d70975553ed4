import SimplyIpExporter.Bootstrap
import SimplyIpExporter.SecretsAtRest

/-!
# The canary at the start

A history is a sequence of starts, each with a configuration of its own, and of what
was served after the starts that went well. A start tries its configuration on the
Master's secret only. If that secret is sealed, every configuration that ever passed
had its key, so it speaks for all other secrets. If it is plain, it is readable under
every configuration and says nothing about them.
-/
namespace SimplyIpExporter.BootCanary
open Entities KeyedTables Storage Services Interleaving EndpointHandlers Routes WriteRules Bootstrap
open SecretsAtRest

section Histories
variable {Key : Type}

/-- The databases that starts and requests lead to. -/
inductive LedTo (base : Crates) (aead : Aead Key) : Database → Prop where
  | fresh : LedTo base aead .empty
  | booted {db : Database} (h : LedTo base aead db) (cipher : SecretCipher Key) (env : BootEnv) :
      LedTo base aead (bootstrapMasterKey (cratesWith base aead cipher) env db).2
  | served {db : Database} (h : LedTo base aead db) (cipher : SecretCipher Key) (env : BootEnv)
      {I : Type} [DecidableEq I] (vaultConfigured : Bool) (tasks : I → Task) (w : World)
      (events : List (Event I Choice Change)) (p : Process I)
      (hboot : bootstrapMasterKey (cratesWith base aead cipher) env db = (.ok (), w.db))
      (hverified : verifyEncryptionKey (cratesWith base aead cipher) false w.db = .ok ())
      (hrun : run (system (cratesWith base aead cipher))
        (process ⟨cratesWith base aead cipher, vaultConfigured⟩ tasks w) events = some p) :
      LedTo base aead p.state.db

/-- The text is the stored secret of some key. -/
def Stores (db : Database) (text : String) : Prop :=
  ∃ row ∈ db.apiKeys.rows, row.signingSecret = some text

/-- The one Master row has this secret, every secret came out of a cipher, and if the
Master's is sealed, all sealed ones are under its key. -/
structure Guarded (aead : Aead Key) (id : Uuid) (canary : String) (db : Database) : Prop where
  master : ∃ row, db.apiKeys.find id = some row ∧ row.isMaster = true ∧
    row.signingSecret = some canary
  only : ∀ row ∈ db.apiKeys.rows, row.isMaster = true → row.id = id
  sealed : ∀ text, Stores db text → IsPlain text ∨ ∃ key, SealedUnder aead key text
  under : ∀ key, SealedUnder aead key canary → ∀ text key', Stores db text →
    SealedUnder aead key' text → key' = key

variable {base : Crates} {aead : Aead Key} {cipher : SecretCipher Key} {id : Uuid} {canary : String}
  {db : Database}

theorem Guarded.onlyMaster (h : Guarded aead id canary db) : OnlyMaster id db where
  present := by
    obtain ⟨row, hfind, hflag, -⟩ := h.master
    exact ⟨row, hfind, hflag⟩
  only := h.only

theorem Guarded.stores_canary (h : Guarded aead id canary db) : Stores db canary := by
  obtain ⟨row, hfind, -, hsecret⟩ := h.master
  exact ⟨row, (Table.find_eq_some.mp hfind).1, hsecret⟩

theorem openSecret_isSome {text : String} :
    (((cratesWith base aead cipher).openSecret text).isSome = true) ↔
      ∃ secret, cipher.open aead text = .ok secret := by
  unfold cratesWith
  dsimp only
  cases cipher.open aead text with
  | error e => simp [Except.toOption]
  | ok secret => simp [Except.toOption]

/-- What the check at the start finds out: whether the canary opens. -/
theorem Guarded.verify_iff (h : Guarded aead id canary db) :
    verifyEncryptionKey (cratesWith base aead cipher) false db = .ok () ↔
      ∃ secret, cipher.open aead canary = .ok secret := by
  obtain ⟨row, hfind, -, hsecret⟩ := h.master
  have hmaster : findMaster db = some row := h.onlyMaster.findMaster_eq.trans hfind
  have hopens : ((cratesWith base aead cipher).openSecret canary).isSome = true ↔
      ∃ secret, cipher.open aead canary = .ok secret := openSecret_isSome
  rw [← hopens]
  unfold verifyEncryptionKey
  simp only [Bool.false_eq_true, if_false, hmaster, hsecret]
  cases (cratesWith base aead cipher).openSecret canary with
  | none => simp
  | some secret => simp

/-- Nothing is stored yet, or the Master's secret guards the others. -/
def CanaryKept (aead : Aead Key) (db : Database) : Prop :=
  db.apiKeys.rows = [] ∨ ∃ id canary, Guarded aead id canary db

theorem stores_of_exec {app : AppState} {guarded : Uuid → Prop} {t : Task} {c : Call} {e : Choice}
    {s s' : World} {r : Answer c} (hpermits : permits (scopeOf app guarded t) c)
    (hexec : exec app.crates c e s = some (r, s')) {text : String} (h : Stores s'.db text) :
    Stores s.db text ∨ ∃ nonce secret, app.crates.sealSecret nonce secret = some text := by
  have hnew : ∀ stored, Sealed app.crates stored → stored = some text →
      ∃ nonce secret, app.crates.sealSecret nonce secret = some text := by
    rintro stored ⟨nonce, secret, text', hseal, rfl⟩ htext
    cases htext
    exact ⟨nonce, secret, hseal⟩
  obtain ⟨row', hrow', htext⟩ := h
  rcases exec_keys hpermits hexec row' hrow' with hold | ⟨row, hrow, ch, rfl, -, -, hsealed⟩ |
    hinsert
  · exact .inl ⟨row', hold, htext⟩
  · cases hset : ch.signingSecret with
    | none =>
        refine .inl ⟨row, hrow, ?_⟩
        simpa [KeyChanges.apply, hset] using htext
    | some stored =>
        have hstored : stored = some text := by simpa [KeyChanges.apply, hset] using htext
        exact .inr (hnew stored (hsealed stored hset) hstored)
  · exact .inr (hnew row'.signingSecret hinsert.2.2 htext)

section Sound
variable (hsound : aead.Sound)
include hsound

/-- A first start: what it stores is the canary. -/
theorem guarded_of_created {env : BootEnv} {db' : Database} (hempty : db.apiKeys.rows = [])
    (hboot : bootstrapMasterKey (cratesWith base aead cipher) env db = (.ok (), db')) :
    ∃ nonce secret stored, cipher.seal aead nonce secret = some stored ∧
      Guarded aead env.id stored db' := by
  rcases bootstrapMasterKey_ok hboot with ⟨rfl, master, hmaster⟩ |
    ⟨-, stored, keys, hseal, hkeys, rfl⟩
  · simp [findMaster, hempty] at hmaster
  · have hrows : keys.rows = [env.masterRow (cratesWith base aead cipher) stored] := by
      rw [(Table.rows_insert hkeys).1, hempty]
      rfl
    have honly : ∀ text, Stores { db with apiKeys := keys } text → text = stored := by
      rintro text ⟨row, hrow, htext⟩
      simp only [hrows, List.mem_singleton] at hrow
      subst hrow
      exact (Option.some.inj htext).symm
    refine ⟨_, _, stored, hseal, ⟨env.masterRow (cratesWith base aead cipher) stored, ?_, rfl, rfl⟩,
      ?_, ?_, ?_⟩
    · exact (Table.find_insert hkeys env.id).trans (if_pos rfl)
    · intro row hrow _
      simp only [hrows, List.mem_singleton] at hrow
      rw [hrow]
      rfl
    · intro text htext
      rw [honly text htext]
      rcases seal_cases hseal with ⟨-, hplain⟩ | ⟨key, -, hunder⟩
      · exact .inl hplain
      · exact .inr ⟨key, hunder⟩
    · intro key hunder text key' htext hunder'
      rw [honly text htext] at hunder'
      exact hunder'.unique hsound hunder

theorem guarded_of_bootstrap {env : BootEnv} {db' : Database} (h : CanaryKept aead db)
    (hboot : bootstrapMasterKey (cratesWith base aead cipher) env db = (.ok (), db')) :
    ∃ id canary, Guarded aead id canary db' := by
  rcases h with hempty | ⟨id, canary, hguarded⟩
  · obtain ⟨nonce, secret, stored, -, hcreated⟩ := guarded_of_created hsound hempty hboot
    exact ⟨env.id, stored, hcreated⟩
  · rcases bootstrapMasterKey_ok hboot with ⟨rfl, master, hmaster⟩ | ⟨hnone, -⟩
    · exact ⟨id, canary, hguarded⟩
    · obtain ⟨row, hfind, -⟩ := hguarded.master
      rw [hguarded.onlyMaster.findMaster_eq, hfind] at hnone
      cases hnone

/-- A call of a process whose cipher opens the canary. -/
theorem Guarded.step {vaultConfigured : Bool} {t : Task} {c : Call} {e : Choice} {s s' : World}
    {r : Answer c} (hkey : ∀ key, SealedUnder aead key canary → cipher = .sealed key)
    (hpermits : permits (scopeOf ⟨cratesWith base aead cipher, vaultConfigured⟩ (· = id) t) c)
    (hexec : exec (cratesWith base aead cipher) c e s = some (r, s'))
    (h : Guarded aead id canary s.db) : Guarded aead id canary s'.db := by
  refine ⟨?_, ?_, ?_, ?_⟩
  · obtain ⟨row, hfind, hflag, hsecret⟩ := h.master
    obtain ⟨row', hfind', hsame⟩ := exec_guarded hpermits hexec rfl hfind
    refine ⟨row', hfind', ?_, ?_⟩
    · rw [hsame]
      exact hflag
    · rw [hsame]
      exact hsecret
  · intro row' hrow' hflag
    rcases exec_keys hpermits hexec row' hrow' with hold | ⟨row, hrow, ch, rfl, -⟩ | hinsert
    · exact h.only row' hold hflag
    · exact h.only row hrow hflag
    · rw [hinsert.1] at hflag
      cases hflag
  · intro text htext
    rcases stores_of_exec hpermits hexec htext with hold | ⟨nonce, secret, hseal⟩
    · exact h.sealed text hold
    · rcases seal_cases hseal with ⟨-, hplain⟩ | ⟨key, -, hunder⟩
      · exact .inl hplain
      · exact .inr ⟨key, hunder⟩
  · intro key hcanary text key' htext hunder
    rcases stores_of_exec hpermits hexec htext with hold | ⟨nonce, secret, hseal⟩
    · exact h.under key hcanary text key' hold hunder
    · rcases seal_cases hseal with ⟨-, hplain⟩ | ⟨key₁, hcipher, hunder₁⟩
      · exact absurd hplain hunder.not_plain
      · have hsame : key' = key₁ := hunder.unique hsound hunder₁
        have hcipher' := hcipher.symm.trans (hkey key hcanary)
        cases hcipher'
        exact hsame

/-- What is served after a start that passed the check keeps the canary. -/
theorem Guarded.served {I : Type} [DecidableEq I] {vaultConfigured : Bool} {tasks : I → Task}
    {w : World} {events : List (Event I Choice Change)} {p : Process I}
    (h : Guarded aead id canary w.db)
    (hverified : verifyEncryptionKey (cratesWith base aead cipher) false w.db = .ok ())
    (hrun : run (system (cratesWith base aead cipher))
      (process ⟨cratesWith base aead cipher, vaultConfigured⟩ tasks w) events = some p) :
    Guarded aead id canary p.state.db := by
  have hopens := h.verify_iff.mp hverified
  have hkey : ∀ key, SealedUnder aead key canary → cipher = .sealed key :=
    fun key hunder => (hunder.opens_iff hsound cipher).mp hopens
  have hmaster : ∀ db, Guarded aead id canary db → ∀ id', id' = id → ∀ row,
      db.apiKeys.find id' = some row → row.isMaster = true := by
    rintro db h _ rfl row hrow
    obtain ⟨row', hrow', hflag, -⟩ := h.master
    rw [hrow] at hrow'
    cases hrow'
    exact hflag
  exact run_keeps (· = id) (Guarded aead id canary) hmaster
    (fun t c e s s' r hpermits hexec h => h.step hsound hkey hpermits hexec) h hrun

theorem LedTo.canaryKept (h : LedTo base aead db) : CanaryKept aead db := by
  induction h with
  | fresh => exact .inl rfl
  | @booted db _ cipher env ih =>
      cases hboot : bootstrapMasterKey (cratesWith base aead cipher) env db with
      | mk outcome db' =>
          cases outcome with
          | error e =>
              rw [bootstrapMasterKey_error hboot]
              exact ih
          | ok _ => exact .inr (guarded_of_bootstrap hsound ih hboot)
  | @served db _ cipher env I _ vaultConfigured tasks w events p hboot hverified hrun ih =>
      obtain ⟨id, canary, hguarded⟩ := guarded_of_bootstrap hsound ih hboot
      exact .inr ⟨id, canary, hguarded.served hsound hverified hrun⟩

end Sound

/-- The Master's secret is stored without encryption. -/
def MasterPlain (db : Database) : Prop :=
  ∃ row ∈ db.apiKeys.rows, row.isMaster = true ∧ ∃ text, row.signingSecret = some text ∧
    IsPlain text

theorem Guarded.masterPlain_iff (h : Guarded aead id canary db) :
    MasterPlain db ↔ IsPlain canary := by
  obtain ⟨row, hfind, hflag, hsecret⟩ := h.master
  obtain ⟨hrow, hrowId⟩ := Table.find_eq_some.mp hfind
  constructor
  · rintro ⟨master, hmem, hmaster, plain, hplainSecret, hplain⟩
    have hsame : master = row :=
      db.apiKeys.eq_of_key hmem hrow ((h.only master hmem hmaster).trans hrowId.symm)
    rw [hsame, hsecret] at hplainSecret
    cases hplainSecret
    exact hplain
  · intro hplain
    exact ⟨row, hrow, hflag, canary, hsecret, hplain⟩

end Histories

def cratesUnder (cipher : SecretCipher UInt8) : Crates := cratesWith sampleCrates sampleAead cipher

/-- After a first start under a cipher. -/
def worldUnder (cipher : SecretCipher UInt8) : World :=
  { bootedWorld with db := (bootstrapMasterKey (cratesUnder cipher) sampleBoot .empty).2 }

/-- A second start, under which the Master creates a key. -/
def mintedRun (first second : SecretCipher UInt8) : Option (Process Unit) :=
  run (system (cratesUnder second))
    (process ⟨cratesUnder second, true⟩ (fun _ => .request sampleMaster sampleMinting)
      (worldUnder first))
    (mintingChoices.map (.act ()))

theorem bootstrap_again {canary : String} {db : Database}
    (h : Guarded sampleAead sampleBoot.id canary db) (cipher : SecretCipher UInt8) :
    bootstrapMasterKey (cratesUnder cipher) sampleBoot db = (.ok (), db) := by
  obtain ⟨master, hfind, -⟩ := h.master
  have hmaster : findMaster db = some master := h.onlyMaster.findMaster_eq.trans hfind
  have hquery : sampleBoot.queryFails = false := rfl
  unfold bootstrapMasterKey
  rw [hquery, hmaster]
  rfl

theorem worldUnder_boot (cipher : SecretCipher UInt8)
    (h : (bootstrapMasterKey (cratesUnder cipher) sampleBoot .empty).1 = .ok ()) :
    bootstrapMasterKey (cratesUnder cipher) sampleBoot .empty = (.ok (), (worldUnder cipher).db) :=
  Prod.ext h rfl

/-- The second start and what it serves, where the first one's secret opens under it. -/
theorem minted_ledTo {first second : SecretCipher UInt8} {canary : String} {p : Process Unit}
    (hguarded : Guarded sampleAead sampleBoot.id canary (worldUnder first).db)
    (hopens : ∃ secret, second.open sampleAead canary = .ok secret)
    (hrun : mintedRun first second = some p) :
    LedTo sampleCrates sampleAead p.state.db ∧
    Guarded sampleAead sampleBoot.id canary p.state.db := by
  have hverified : verifyEncryptionKey (cratesUnder second) false (worldUnder first).db = .ok () :=
    hguarded.verify_iff.mpr hopens
  refine ⟨?_, hguarded.served sampleAead_sound hverified hrun⟩
  exact .served (.booted .fresh first sampleBoot) second sampleBoot true _ (worldUnder first) _ p
    (bootstrap_again hguarded second) hverified hrun

/-- At a start that got as far as the check, after any history: that passing the check
means every stored secret can be opened holds exactly when, should the Master's secret
be plain, every encrypted one was sealed under the configured key. -/
theorem canary_sound_iff {Key : Type} {base : Crates} {aead : Aead Key} {cipher : SecretCipher Key}
    (hsound : aead.Sound) {db₀ db : Database} (hist : LedTo base aead db₀)
    {env : BootEnv}
    (hboot : bootstrapMasterKey (cratesWith base aead cipher) env db₀ = (.ok (), db)) :
    (∀ queryFails, verifyEncryptionKey (cratesWith base aead cipher) queryFails db = .ok () →
      ∀ text, Stores db text → ∃ secret, cipher.open aead text = .ok secret) ↔
    (MasterPlain db → ∀ text key, Stores db text → SealedUnder aead key text →
      cipher = .sealed key) := by
  obtain ⟨id, canary, hguarded⟩ := guarded_of_bootstrap hsound (hist.canaryKept hsound) hboot
  rw [hguarded.masterPlain_iff]
  constructor
  · intro hcanary hplain text key htext hunder
    have hopens := hcanary false (hguarded.verify_iff.mpr (hplain.opens cipher)) text htext
    exact (hunder.opens_iff hsound cipher).mp hopens
  · intro hcondition queryFails hverified text htext
    have hpassed : verifyEncryptionKey (cratesWith base aead cipher) false db = .ok () := by
      cases queryFails with
      | false => exact hverified
      | true => cases hverified
    have hopens := hguarded.verify_iff.mp hpassed
    rcases hguarded.sealed text htext with hplain | ⟨key', hunder'⟩
    · exact hplain.opens cipher
    · rw [hunder'.opens_iff hsound cipher]
      rcases hguarded.sealed canary hguarded.stores_canary with hplain | ⟨key, hunder⟩
      · exact hcondition hplain text key' htext hunder'
      · rw [hguarded.under key hunder text key' htext hunder']
        exact (hunder.opens_iff hsound cipher).mp hopens

/-- Sealed from the first start on: the condition holds because the Master's secret is
not plain. -/
theorem canary_sound_sealed :
    ∃ p, mintedRun (.sealed 1) (.sealed 1) = some p ∧ sampleAead.Sound ∧
      LedTo sampleCrates sampleAead p.state.db ∧
      bootstrapMasterKey (cratesWith sampleCrates sampleAead (.sealed 1)) sampleBoot p.state.db =
        (.ok (), p.state.db) ∧
      p.state.db.apiKeys.rows.length = 2 ∧
      ∀ queryFails, verifyEncryptionKey (cratesWith sampleCrates sampleAead (.sealed 1)) queryFails
          p.state.db = .ok () →
        ∀ text, Stores p.state.db text →
          ∃ secret, (SecretCipher.sealed 1).open sampleAead text = .ok secret := by
  have hmints : (mintedRun (.sealed 1) (.sealed 1)).map (fun p => p.state.db.apiKeys.rows.length) =
      some 2 := by
    decide +kernel
  obtain ⟨p, hrun, hlength⟩ := Option.map_eq_some_iff.mp hmints
  obtain ⟨nonce, secret, canary, hseal, hguarded⟩ :=
    guarded_of_created sampleAead_sound rfl (worldUnder_boot (.sealed 1) (by decide +kernel))
  have hunder : SealedUnder sampleAead 1 canary := ⟨nonce, secret, hseal⟩
  have hopens := (hunder.opens_iff sampleAead_sound (.sealed 1)).mpr rfl
  obtain ⟨hist, hkept⟩ := minted_ledTo hguarded hopens hrun
  have hboot := bootstrap_again hkept (.sealed 1)
  have hsealed : ¬ MasterPlain p.state.db := by
    rw [hkept.masterPlain_iff]
    exact hunder.not_plain
  exact ⟨p, hrun, sampleAead_sound, hist, hboot, hlength,
    (canary_sound_iff sampleAead_sound hist hboot).mpr fun hplain => absurd hplain hsealed⟩

/-- A Master created without a key, a key created under one, a start with another: the
check passes and the created key's secret cannot be opened. -/
theorem plain_master_vouches_for_nothing :
    ∃ p, mintedRun .plaintext (.sealed 1) = some p ∧ sampleAead.Sound ∧
      LedTo sampleCrates sampleAead p.state.db ∧
      bootstrapMasterKey (cratesWith sampleCrates sampleAead (.sealed 2)) sampleBoot p.state.db =
        (.ok (), p.state.db) ∧
      verifyEncryptionKey (cratesWith sampleCrates sampleAead (.sealed 2)) false p.state.db =
        .ok () ∧
      ∃ text, Stores p.state.db text ∧
        (SecretCipher.sealed 2).open sampleAead text = .error .decryptionFailed := by
  have hmints : (mintedRun .plaintext (.sealed 1)).map (fun p =>
      decide ((SecretCipher.sealed 1).seal sampleAead (List.replicate 24 3)
        (hexText (List.replicate 32 2)) ∈ p.state.db.apiKeys.rows.map (·.signingSecret))) =
          some true := by
    decide +kernel
  obtain ⟨p, hrun, hp⟩ := Option.map_eq_some_iff.mp hmints
  obtain ⟨nonce, secret, canary, hseal, hguarded⟩ :=
    guarded_of_created sampleAead_sound rfl (worldUnder_boot .plaintext (by decide +kernel))
  have hplain : IsPlain canary := by
    rcases seal_cases hseal with ⟨-, hplain⟩ | ⟨key, hcipher, -⟩
    · exact hplain
    · cases hcipher
  obtain ⟨hist, hkept⟩ := minted_ledTo hguarded (hplain.opens (.sealed 1)) hrun
  refine ⟨p, hrun, sampleAead_sound, hist, bootstrap_again hkept (.sealed 2),
    hkept.verify_iff.mpr (hplain.opens (.sealed 2)), ?_⟩
  obtain ⟨row, hrow, hsecret⟩ := List.mem_map.mp (of_decide_eq_true hp)
  exact ⟨_, ⟨row, hrow, hsecret⟩, open_sealed rfl⟩

end SimplyIpExporter.BootCanary
