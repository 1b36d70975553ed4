import SimplyIpExporter.AddressCache
import SimplyIpExporter.SpelledKeys

/-!
# Addresses under several spellings

The cache is keyed by the text of an address, while a network is what the text parses
to: `::1` and `0:0:0:0:0:0:0:1`, or an address with and without its full prefix
length, are one network and two keys. The reference below goes through the same
batches keyed by network.

The two agree exactly when no spelling is overtaken. As long as Vault spells every
network one way they do; once it changes a spelling between two full syncs, the record
under the old one stays, next to the new one or after its removal.
-/
namespace SimplyIpExporter.AddressSpellings
open IpAddresses Entities AddressCache LastWriterWins SpelledKeys

/-- What one sync hands to the cache. -/
inductive SyncBatch where
  | full (records : List VaultRecord) (now : ℤ)
  | diff (records : List VaultRecord)

section Caches
variable (crates : Crates)

def apply (id : Uuid) (cache : IpCache) : SyncBatch → IpCache
  | .full records now => applyFull crates id records now cache
  | .diff records => applyDiff crates id records cache

/-- The cached records of an endpoint after a history of syncs. -/
def recordsAfter (id : Uuid) (history : List SyncBatch) : Store String CachedRecord :=
  ((history.foldl (apply crates id) ∅).entry id).records

/-- What a record says about its network; a text that does not parse says nothing. -/
def networkWrite (r : VaultRecord) : Option (Write IpNet CachedRecord) :=
  (parseTargetAddress crates r.targetAddress).map fun network =>
    ⟨network, if r.isDeleted then none else some ⟨network, r.lastSeenAt⟩⟩

def applyByNetwork (records : Store IpNet CachedRecord) : SyncBatch → Store IpNet CachedRecord
  | .full batch _ =>
      writeAll ∅ ((batch.filter fun r => !r.isDeleted).filterMap (networkWrite crates))
  | .diff batch => writeAll records (batch.filterMap (networkWrite crates))

def referenceAfter (history : List SyncBatch) : Store IpNet CachedRecord :=
  history.foldl (applyByNetwork crates) ∅

/-- No network is held twice, and each is held as in the reference. -/
structure HeldAs (records : Store String CachedRecord) (reference : Store IpNet CachedRecord) :
    Prop where
  once : ∀ text text' r r', records.lookup text = some r → records.lookup text' = some r' →
    r.network = r'.network → text = text'
  same : ∀ network r, reference.lookup network = some r ↔
    r.network = network ∧ ∃ text, records.lookup text = some r

def batchWrites : SyncBatch → List (Write String CachedRecord)
  | .full records _ => records.filterMap (fullWrite crates)
  | .diff records => records.filterMap (diffWrite crates)

/-- The writes since the last full sync, its own included. -/
def writesAfter (history : List SyncBatch) : List (Write String CachedRecord) :=
  history.foldl (fun ws batch => match batch with
    | .full _ _ => batchWrites crates batch
    | .diff _ => ws ++ batchWrites crates batch) []

theorem writeAll_append {K V : Type} [DecidableEq K] (m : Store K V) (xs ys : List (Write K V)) :
    writeAll m (xs ++ ys) = writeAll (writeAll m xs) ys := List.foldl_append

theorem recordsAfter_eq (id : Uuid) (history : List SyncBatch) :
    recordsAfter crates id history = writeAll ∅ (writesAfter crates history) := by
  unfold recordsAfter writesAfter
  induction history using List.reverseRecOn with
  | nil => rfl
  | append_singleton history batch ih =>
      rw [List.foldl_append, List.foldl_append, List.foldl_cons, List.foldl_cons, List.foldl_nil,
        List.foldl_nil]
      cases batch with
      | full records now => exact entry_applyFull crates id records now _
      | diff records =>
          rw [writeAll_append, ← ih]
          exact entry_applyDiff crates id records _

theorem networkWrite_eq (r : VaultRecord) :
    networkWrite crates r = (diffWrite crates r).bind (renameSome (parseTargetAddress crates)) := by
  unfold networkWrite diffWrite liveWrite
  cases hdeleted : r.isDeleted with
  | true => simp [renameSome]
  | false =>
      cases hparse : parseTargetAddress crates r.targetAddress with
      | none => simp
      | some network => simp [renameSome, hparse]

theorem referenceAfter_eq (history : List SyncBatch) :
    referenceAfter crates history = writeAll ∅ ((writesAfter crates history).filterMap
      (renameSome (parseTargetAddress crates))) := by
  unfold referenceAfter writesAfter
  induction history using List.reverseRecOn with
  | nil => rfl
  | append_singleton history batch ih =>
      rw [List.foldl_append, List.foldl_append, List.foldl_cons, List.foldl_cons, List.foldl_nil,
        List.foldl_nil]
      cases batch with
      | full records now =>
          simp only [applyByNetwork, batchWrites, List.filterMap_filterMap, List.filterMap_filter]
          congr
          funext r
          cases hdeleted : r.isDeleted with
          | true => simp [fullWrite, hdeleted]
          | false => simp [fullWrite, hdeleted, networkWrite_eq, diffWrite]
      | diff records =>
          rw [List.filterMap_append, writeAll_append, ← ih, batchWrites, List.filterMap_filterMap]
          simp only [applyByNetwork]
          rw [funext (networkWrite_eq crates)]

/-- A write stores the network its text parses to. -/
theorem parse_of_mem_writesAfter {history : List SyncBatch} {w : Write String CachedRecord}
    (hw : w ∈ writesAfter crates history) {r : CachedRecord} (hvalue : w.value = some r) :
    parseTargetAddress crates w.key = some r.network := by
  have hlive : ∀ r', liveWrite crates r' = some w →
      parseTargetAddress crates w.key = some r.network := by
    intro r' h
    obtain ⟨network, hparse, rfl⟩ := Option.map_eq_some_iff.mp h
    cases hvalue
    exact hparse
  have hbatch : ∀ batch, w ∈ batchWrites crates batch →
      parseTargetAddress crates w.key = some r.network := by
    intro batch h
    cases batch with
    | full records now =>
        obtain ⟨r', -, hwrite⟩ := List.mem_filterMap.mp h
        cases hdeleted : r'.isDeleted with
        | true => simp [fullWrite, hdeleted] at hwrite
        | false => exact hlive r' (by simpa [fullWrite, hdeleted] using hwrite)
    | diff records =>
        obtain ⟨r', -, hwrite⟩ := List.mem_filterMap.mp h
        cases hdeleted : r'.isDeleted with
        | true =>
            -- a removal stores nothing
            simp only [diffWrite, hdeleted, if_true, Option.some.injEq] at hwrite
            rw [← hwrite] at hvalue
            cases hvalue
        | false => exact hlive r' (by simpa [diffWrite, hdeleted] using hwrite)
  unfold writesAfter at hw
  induction history using List.reverseRecOn with
  | nil => cases hw
  | append_singleton history batch ih =>
      rw [List.foldl_append, List.foldl_cons, List.foldl_nil] at hw
      cases batch with
      | full records now => exact hbatch _ hw
      | diff records =>
          rcases List.mem_append.mp hw with hold | hnew
          · exact ih hold
          · exact hbatch _ hnew

theorem parse_of_held {history : List SyncBatch} {text : String} {r : CachedRecord}
    (h : (writeAll ∅ (writesAfter crates history)).lookup text = some r) :
    parseTargetAddress crates text = some r.network := by
  rw [lookup_spelled] at h
  obtain ⟨w, hlast, hvalue⟩ := Option.bind_eq_some_iff.mp h
  have hkey : w.key = text := name_of_lastAbout id hlast
  have hmem := List.mem_reverse.mp (List.mem_of_find?_eq_some hlast)
  rw [← hkey]
  exact parse_of_mem_writesAfter crates hmem hvalue

/-- The reference holds under a network what the writes leave under its name. -/
theorem lookup_referenceAfter (history : List SyncBatch) (network : IpNet) :
    (referenceAfter crates history).lookup network =
      (writeAll ∅ ((writesAfter crates history).map
        (rename (parseTargetAddress crates)))).lookup (some network) := by
  rw [referenceAfter_eq, lookup_writeAll, lookup_writeAll, lastWrite_renameSome]
  rfl

/-- Nothing is held under the name of the texts that do not parse. -/
theorem lookup_unparsed (history : List SyncBatch) :
    (writeAll ∅ ((writesAfter crates history).map
      (rename (parseTargetAddress crates)))).lookup none = none := by
  rw [lookup_renamed]
  cases hlast : lastAbout (parseTargetAddress crates) none (writesAfter crates history) with
  | none => rfl
  | some w =>
      cases hvalue : w.value with
      | none => exact hvalue
      | some r =>
          have hmem := List.mem_reverse.mp (List.mem_of_find?_eq_some hlast)
          have hparse := parse_of_mem_writesAfter crates hmem hvalue
          rw [name_of_lastAbout _ hlast] at hparse
          cases hparse

theorem heldAs_iff_faithful (id : Uuid) (history : List SyncBatch) :
    HeldAs (recordsAfter crates id history) (referenceAfter crates history) ↔
      Faithful (parseTargetAddress crates) (writeAll ∅ (writesAfter crates history))
        (writeAll ∅ ((writesAfter crates history).map (rename (parseTargetAddress crates)))) := by
  rw [recordsAfter_eq]
  constructor
  · intro hagrees
    refine ⟨?_, ?_⟩
    · intro text text' r r' hheld hheld' hname
      rw [parse_of_held crates hheld, parse_of_held crates hheld', Option.some.injEq] at hname
      exact hagrees.once text text' r r' hheld hheld' hname
    · intro name r
      cases name with
      | none =>
          rw [lookup_unparsed]
          constructor
          · intro h
            cases h
          · rintro ⟨text, hnone, hheld⟩
            rw [parse_of_held crates hheld] at hnone
            cases hnone
      | some network =>
          rw [← lookup_referenceAfter, hagrees.same]
          constructor
          · rintro ⟨rfl, text, hheld⟩
            exact ⟨text, parse_of_held crates hheld, hheld⟩
          · rintro ⟨text, hparse, hheld⟩
            rw [parse_of_held crates hheld, Option.some.injEq] at hparse
            exact ⟨hparse, text, hheld⟩
  · intro hfaithful
    refine ⟨?_, ?_⟩
    · intro text text' r r' hheld hheld' hnetwork
      apply hfaithful.once text text' r r' hheld hheld'
      rw [parse_of_held crates hheld, parse_of_held crates hheld', hnetwork]
    · intro network r
      rw [lookup_referenceAfter, hfaithful.same]
      constructor
      · rintro ⟨text, hparse, hheld⟩
        rw [parse_of_held crates hheld, Option.some.injEq] at hparse
        exact ⟨hparse, text, hheld⟩
      · rintro ⟨rfl, text, hheld⟩
        exact ⟨text, parse_of_held crates hheld, hheld⟩

/-- The cache agrees with the reference exactly when no stored spelling has been
overtaken: since the last full sync, the last record about a network came under the
spelling it is stored under. -/
theorem spellings_agree_iff (id : Uuid) (history : List SyncBatch) :
    HeldAs (recordsAfter crates id history) (referenceAfter crates history) ↔
      ∀ text, ¬ Overtaken (parseTargetAddress crates) (writesAfter crates history) text := by
  rw [heldAs_iff_faithful, faithful_iff]

/-- A Vault that spells every network one way is served as by the reference. -/
theorem heldAs_of_spelled_alike (id : Uuid) {history : List SyncBatch}
    (halike : ∀ w ∈ writesAfter crates history, ∀ w' ∈ writesAfter crates history,
      parseTargetAddress crates w.key = parseTargetAddress crates w'.key → w.key = w'.key) :
    HeldAs (recordsAfter crates id history) (referenceAfter crates history) := by
  rw [heldAs_iff_faithful, faithful_iff]
  exact not_overtaken_of_spelled_alike _ halike

end Caches

/-- A full sync brings `::1`; a differential one removes it, written out. -/
def respelled : List SyncBatch :=
  [.full [⟨"::1", 0, false⟩] 0, .diff [⟨"0:0:0:0:0:0:0:1", 1, true⟩]]

/-- The tombstone names the network and leaves its record in the cache. -/
theorem tombstone_respelled :
    parseTargetAddress sampleCrates "0:0:0:0:0:0:0:1" = parseTargetAddress sampleCrates "::1" ∧
      (∃ r, (recordsAfter sampleCrates 0 respelled).lookup "::1" = some r ∧
        (referenceAfter sampleCrates respelled).lookup r.network = none) ∧
      ¬ HeldAs (recordsAfter sampleCrates 0 respelled) (referenceAfter sampleCrates respelled) := by
  have hheld : ∃ r, (recordsAfter sampleCrates 0 respelled).lookup "::1" = some r ∧
      (referenceAfter sampleCrates respelled).lookup r.network = none :=
    ⟨⟨.fromAddr (.v6 1), 0⟩, by decide +kernel, by decide +kernel⟩
  refine ⟨by decide +kernel, hheld, ?_⟩
  intro hagrees
  obtain ⟨r, hrecord, hgone⟩ := hheld
  have hkept := (hagrees.same r.network r).mpr ⟨rfl, "::1", hrecord⟩
  rw [hgone] at hkept
  cases hkept

/-- An address and the same address written out, one observation each: two records. -/
example : (recordsAfter sampleCrates 0
    [.full [⟨"::1", 0, false⟩] 0, .diff [⟨"0:0:0:0:0:0:0:1", 1, false⟩]]).keys =
      ["0:0:0:0:0:0:0:1", "::1"] := by
  decide +kernel

end SimplyIpExporter.AddressSpellings
