import SimplyIpExporter.CacheLeftovers
import SimplyIpExporter.GroupEscalation
import SimplyIpExporter.PublishedBody
import SimplyIpExporter.RequestCalls

/-!
# Where the addresses of a feed come from

Requests, cleanup passes and any number of sync workers run interleaved, while Vault
changes. A worker stores what it has fetched for a row it listed some time ago, and a
differential batch is merged into whatever is there. The invariant says of each record in
the cache where it came from: a row with the identifier was in the table, and later the
address was live in a group which that row names.

A feed shows no other addresses. As long as the Master keeps off a key's endpoints, the row
was the key's own when it was listed, since identifiers are not used again; so the group is
one that the key had been granted.
-/
namespace SimplyIpExporter.FeedProvenance
open IpAddresses Entities LastWriterWins AddressCache VaultClient VaultMemberships KeyedTables
open Storage Services Programs Interleaving EndpointHandlers SyncWorker Routes SyncPasses
open RequestCalls CacheLeftovers GroupEscalation PublicFeed PublishedBody NetworkPrefixes

/-- The record is what the cache keeps of a listed one. -/
structure Stems (crates : Crates) (v : VaultRecord) (address : String) (record : CachedRecord) :
    Prop where
  live : v.isDeleted = false
  target : v.targetAddress = address
  seen : v.lastSeenAt = record.lastSeenAt
  network : parseTargetAddress crates address = some record.network

section Calls
variable {crates : Crates} {address : String} {record : CachedRecord}

theorem stems_of_liveWrite {v : VaultRecord} (hlive : v.isDeleted = false)
    (h : liveWrite crates v = some ⟨address, some record⟩) : Stems crates v address record := by
  obtain ⟨network, hnetwork, heq⟩ := Option.map_eq_some_iff.mp h
  cases heq
  exact ⟨hlive, rfl, rfl, hnetwork⟩

theorem stems_of_fullWrite {v : VaultRecord}
    (h : fullWrite crates v = some ⟨address, some record⟩) :
    Stems crates v address record := by
  unfold fullWrite at h
  split_ifs at h with hdel
  exact stems_of_liveWrite (by simpa using hdel) h

theorem stems_of_diffWrite {v : VaultRecord}
    (h : diffWrite crates v = some ⟨address, some record⟩) :
    Stems crates v address record := by
  unfold diffWrite at h
  split_ifs at h with hdel
  · cases h
  · exact stems_of_liveWrite (by simpa using hdel) h

/-- After writes, a record was there before or is written by one of them. -/
theorem lookup_writeAll_cases {records : Store String CachedRecord}
    {writes : List (Write String CachedRecord)}
    (h : (writeAll records writes).lookup address = some record) :
    records.lookup address = some record ∨ ⟨address, some record⟩ ∈ writes := by
  rw [lookup_writeAll] at h
  cases hlast : lastWrite address writes with
  | none =>
      rw [hlast] at h
      exact .inl h
  | some value =>
      rw [hlast] at h
      obtain rfl : value = some record := h
      exact .inr (lastWrite_mem hlast)

variable {c : Call} {e : Choice} {s s' : World} {r : Answer c} {id : Uuid}

/-- A record of the cache was there before the call, or the call stores it. -/
theorem exec_record (hexec : exec crates c e s = some (r, s'))
    (h : (s'.cache.entry id).records.lookup address = some record) :
    (s.cache.entry id).records.lookup address = some record ∨
      ∃ rs, (c = .applyFull id rs ∨ c = .applyDiff id rs) ∧
        ∃ v ∈ rs, Stems crates v address record := by
  cases c with
  | applyFull id' rs =>
      obtain ⟨t, rfl⟩ := exec_applyFull hexec
      by_cases hid : id = id'
      · subst hid
        rw [entry_applyFull] at h
        rcases lookup_writeAll_cases h with hempty | hwrite
        · cases hempty
        · obtain ⟨v, hv, hfull⟩ := List.mem_filterMap.mp hwrite
          exact .inr ⟨rs, .inl rfl, v, hv, stems_of_fullWrite hfull⟩
      · refine .inl ?_
        simpa [AddressCache.applyFull, IpCache.entry, AList.lookup_insert_ne hid] using h
  | applyDiff id' rs =>
      rw [exec_applyDiff hexec] at h
      by_cases hid : id = id'
      · subst hid
        rw [entry_applyDiff] at h
        rcases lookup_writeAll_cases h with hold | hwrite
        · exact .inl hold
        · obtain ⟨v, hv, hdiff⟩ := List.mem_filterMap.mp hwrite
          exact .inr ⟨rs, .inr rfl, v, hv, stems_of_diffWrite hdiff⟩
      · refine .inl ?_
        simpa [AddressCache.applyDiff, IpCache.entry, AList.lookup_insert_ne hid] using h
  | evict id' =>
      cases e <;> cases hexec
      by_cases hid : id = id'
      · subst hid
        simp only [AddressCache.evict, IpCache.entry, AList.lookup_erase, Option.getD_none] at h
        cases h
      · refine .inl ?_
        simpa [AddressCache.evict, IpCache.entry, AList.lookup_erase_ne hid] using h
  | _ =>
      rw [exec_cache hexec rfl rfl] at h
      exact .inl h

end Calls

/-- The group has the address as a live member, last seen at the time. -/
def LiveIn (v : Vault) (group address : String) (seen : NaiveDateTime) : Prop :=
  ∃ m, v.lookup (group, address) = some m ∧ m.deleted = false ∧ m.lastSeenAt = seen

section Histories
variable {I : Type} [DecidableEq I] (app : AppState) (tasks : I → Task) (w₀ : World)

/-- The row has been in the table. -/
def RowBefore (row : Endpoint) : List (Event I Choice Change) → Prop :=
  Once (system app.crates) (process app tasks w₀) fun _ p => row ∈ p.state.db.endpoints.rows

/-- The address has been live in a group of the row, after the row was in the table. -/
def Supplied (row : Endpoint) (address : String) (seen : NaiveDateTime) :
    List (Event I Choice Change) → Prop :=
  Once (system app.crates) (process app tasks w₀) fun past p => RowBefore app tasks w₀ row past ∧
    ∃ g ∈ groupNames row.vaultGroups, LiveIn p.state.vault g address seen

/-- What a worker holds: rows that have been in the table, and records that were live in
groups of the row at hand. -/
structure Holding (past : List (Event I Choice Change)) (pass : Pass) : Prop where
  rows : ∀ row ∈ pass.rows, RowBefore app tasks w₀ row past
  reply : ∀ row records, pass.current = some row → pass.reply = some records → ∀ r ∈ records,
    r.isDeleted = false → Supplied app tasks w₀ row r.targetAddress r.lastSeenAt past

structure Traced (past : List (Event I Choice Change)) (ms : I → Pass) (s : World) : Prop where
  cached : ∀ id address record, (s.cache.entry id).records.lookup address = some record →
    ∃ row, row.id = id ∧ Supplied app tasks w₀ row address record.lastSeenAt past ∧
      parseTargetAddress app.crates address = some record.network
  held : ∀ i passes, tasks i = .sync passes → Holding app tasks w₀ past (ms i)

end Histories

section Steps
variable {I : Type} [DecidableEq I] {app : AppState} {tasks : I → Task} {w₀ : World}
  {past : List (Event I Choice Change)} {pass : Pass} {p : Process I}

theorem Holding.append (h : Holding app tasks w₀ past pass) (more : List (Event I Choice Change)) :
    Holding app tasks w₀ (past ++ more) pass where
  rows row hrow := (h.rows row hrow).append more
  reply row records hrow hreply r hr hlive :=
    (h.reply row records hrow hreply r hr hlive).append more

/-- A worker that has received nothing holds only its rows. -/
theorem Holding.of_rows (hrows : ∀ row ∈ pass.rows, RowBefore app tasks w₀ row past)
    (hreply : pass.reply = none) : Holding app tasks w₀ past pass where
  rows := hrows
  reply row records _ hsome := by
    rw [hreply] at hsome
    cases hsome

theorem Holding.next {c : Call} {e : Choice} {r : Answer c} {s' : World}
    (h : Holding app tasks w₀ past pass)
    (hrun : Interleaving.run (system app.crates) (process app tasks w₀) past = some p)
    (hpermits : pass.permits c) (hexec : exec app.crates c e p.state = some (r, s')) :
    Holding app tasks w₀ past (pass.next c r) := by
  have hpending : ∀ row ∈ pass.pending, RowBefore app tasks w₀ row past := fun row hrow =>
    h.rows row (List.mem_append_right _ hrow)
  cases c with
  | db st =>
      cases st with
      | allEndpoints =>
          cases r with
          | error err => exact h
          | ok rows =>
              obtain ⟨db, hquery, -, -⟩ := exec_db_ok hexec
              cases hquery
              exact .of_rows (fun row hrow => Once.now hrun hrow) rfl
      | updateEndpoint id ch => exact .of_rows hpending rfl
      | _ => exact absurd hpermits id
  | fullSyncDue id =>
      refine .of_rows ?_ rfl
      intro row hrow
      refine hpending row ?_
      cases hrows : pass.pending with
      | nil => simp [Pass.next, Pass.rows, hrows] at hrow
      | cons first rest => simpa [Pass.next, Pass.rows, hrows] using hrow
  | now => exact ⟨h.rows, h.reply⟩
  | fetchIps groups since =>
      obtain ⟨-, current, hcurrent, rfl, -⟩ := hpermits
      cases r with
      | error err => exact h
      | ok records =>
          refine ⟨h.rows, ?_⟩
          rintro row _ hrow ⟨⟩ record hrecord hlive
          obtain rfl : current = row := Option.some.inj (hcurrent.symm.trans hrow)
          obtain ⟨g, hg, address, m, hm, rfl, -⟩ :=
            mem_query.mp (((exec_fetchIps hexec).2 records rfl).mem_iff.mp hrecord)
          have hrow' : current ∈ pass.rows := by simp [Pass.rows, hcurrent]
          exact Once.now hrun ⟨h.rows current hrow', g, hg, m, hm, hlive, rfl⟩
  | applyFull id rs | applyDiff id rs => exact ⟨h.rows, h.reply⟩
  | _ => exact absurd hpermits id

theorem Traced.step {ms : I → Pass} {i : I} {e : Choice} {c : Call} {r : Answer c} {s' : World}
    (h : Traced app tasks w₀ past ms p.state)
    (hrun : Interleaving.run (system app.crates) (process app tasks w₀) past = some p)
    (hpermits : (taskPolicy (tasks i)).permits (ms i) c)
    (hexec : exec app.crates c e p.state = some (r, s')) :
    Traced app tasks w₀ (past ++ [.act i e])
      (Function.update ms i (taskMove (tasks i) (ms i) c r)) s' where
  cached := by
    intro id address record hrecord
    rcases exec_record hexec hrecord with hold | ⟨rs, hc, v, hv, hstems⟩
    · obtain ⟨row, hid, hsupplied, hparse⟩ := h.cached id address record hold
      exact ⟨row, hid, hsupplied.append _, hparse⟩
    · -- only a worker stores, and it stores what it has just received
      cases ht : tasks i with
      | request caller req =>
          rw [ht] at hpermits
          rcases hc with rfl | rfl <;> exact False.elim hpermits.1
      | cleanup =>
          rw [ht] at hpermits
          rcases hc with rfl | rfl <;> exact False.elim hpermits
      | sync passes =>
          rw [ht] at hpermits
          have hreceived : ∃ records, (ms i).Received id records ∧ rs = mapRecords records := by
            rcases hc with rfl | rfl <;> exact hpermits.2
          obtain ⟨records, ⟨⟨row, hcurrent, hid⟩, hreply, -⟩, rfl⟩ := hreceived
          obtain ⟨listed, hlisted, rfl⟩ := List.mem_map.mp hv
          have hsupplied := (h.held i passes ht).reply row records hcurrent hreply listed hlisted
            hstems.live
          refine ⟨row, hid.symm, ?_, hstems.network⟩
          rw [← hstems.target, ← hstems.seen]
          exact hsupplied.append _
  held := by
    intro j passes hj
    by_cases hji : j = i
    · subst hji
      rw [Function.update_self, hj]
      rw [hj] at hpermits
      exact ((h.held j passes hj).next hrun hpermits hexec).append _
    · rw [Function.update_of_ne hji]
      exact (h.held j passes hj).append _

theorem Traced.world {ms : I → Pass} {ch : Change} {s s' : World}
    (h : Traced app tasks w₀ past ms s) (henv : env ch s = some s') :
    Traced app tasks w₀ (past ++ [.world ch]) ms s' := by
  rw [env_eq_some henv]
  refine ⟨?_, fun j passes hj => (h.held j passes hj).append _⟩
  intro id address record hrecord
  obtain ⟨row, hid, hsupplied, hparse⟩ := h.cached id address record hrecord
  exact ⟨row, hid, hsupplied.append _, hparse⟩

theorem run_traced {events : List (Event I Choice Change)} {q : Process I} (hempty : w₀.cache = ∅)
    (hrun : Interleaving.run (system app.crates) (process app tasks w₀) events = some q) :
    ∃ ms, Traced app tasks w₀ events ms q.state := by
  refine run_tracked ⟨?_, ?_⟩
    (fun past p ms i e c r s' hp h hpermits hexec => h.step hp hpermits hexec)
    (fun past ms ch s s' h henv => h.world henv) hrun
  · intro id address record hrecord
    rw [hempty] at hrecord
    cases hrecord
  · exact fun i passes _ => .of_rows (fun row hrow => absurd hrow List.not_mem_nil) rfl

end Steps

section Owned
variable {I : Type} [DecidableEq I] {app : AppState} {tasks : I → Task} {w₀ : World} {key : Uuid}
  {held : String → Prop}
  (hheld : ∀ row ∈ w₀.db.endpoints.rows, row.ownerKeyId = some key →
    ∀ g ∈ groupNames row.vaultGroups, held g)

include hheld

/-- Where the Master gives it nothing, what is not the key's does not become it. -/
theorem apart_run {past rest : List (Event I Choice Change)} {p q : Process I} {id : Uuid}
    (hp : Interleaving.run (system app.crates) (process app tasks w₀) past = some p)
    (hq : Interleaving.run (system app.crates) (process app tasks w₀) (past ++ rest) = some q)
    (hoff : Along (system app.crates) (handsOff tasks key) (process app tasks w₀) (past ++ rest))
    (h : Apart key p.state id) : Apart key q.state id := by
  induction rest using List.reverseRecOn generalizing q with
  | nil =>
      rw [List.append_nil, hp] at hq
      cases hq
      exact h
  | append_singleton rest ev ih =>
      rw [← List.append_assoc] at hq hoff
      rw [run_append_singleton] at hq
      obtain ⟨q₁, hq₁, hstep⟩ := Option.bind_eq_some_iff.mp hq
      have hbefore := ih hq₁ hoff.init
      cases ev with
      | world ch =>
          rw [env_eq_some (step_world hstep).1]
          exact ⟨hbefore.retired, hbefore.owner⟩
      | act i e =>
          obtain ⟨c, next, r, hc, hexec, -⟩ := step_act hstep
          obtain ⟨ms, hms⟩ := run_namesHeld hheld hq₁ hoff.init
          have hupcoming : (q₁.threads i).upcoming = some c := by
            rw [hc]
            rfl
          have hpermits := (hms.follows i).permits_upcoming hupcoming
          refine hbefore.step (exec_idsKept hexec) ?_
          intro row' hrow' howner
          rcases hms.inv.owned hpermits (fun hmaster => hoff.last hq₁ hmaster c hupcoming)
            hexec hrow'
            howner with hkept | ⟨hdescends, -⟩
          · exact hkept.descends howner
          · exact hdescends

/-- A row that has been in the table under the identifier of an endpoint of the key was the
key's then, so its groups had been granted. -/
theorem granted_of_rowBefore {past rest : List (Event I Choice Change)} {q : Process I}
    {row own : Endpoint}
    (hq : Interleaving.run (system app.crates) (process app tasks w₀) (past ++ rest) = some q)
    (hoff : Along (system app.crates) (handsOff tasks key) (process app tasks w₀) (past ++ rest))
    (hown : own ∈ q.state.db.endpoints.rows) (howner : own.ownerKeyId = some key)
    (hid : row.id = own.id) (hrow : RowBefore app tasks w₀ row past) {g : String}
    (hg : g ∈ groupNames row.vaultGroups) : held g ∨ GrantedBefore app tasks w₀ past key g := by
  obtain ⟨before, after, p, rfl, hp, hmem⟩ := hrow
  rw [List.append_assoc] at hq hoff
  have hfind : p.state.db.endpoints.find own.id = some row := Table.find_eq_some.mpr ⟨hmem, hid⟩
  have hmine : row.ownerKeyId = some key := by
    by_contra hother
    have hapart : Apart key p.state own.id := by
      refine ⟨fun hnone => ?_, fun row' hfind' => ?_⟩
      · rw [hfind] at hnone
        cases hnone
      · rw [hfind] at hfind'
        cases hfind'
        exact hother
    exact (apart_run hheld hp hq hoff hapart).owner own (Table.find_eq_some.mpr ⟨hown, rfl⟩) howner
  have hoff' : Along (system app.crates) (handsOff tasks key) (process app tasks w₀) before :=
    fun past' ev rest' q' heq => hoff past' ev (rest' ++ (after ++ rest)) q' (by simp [heq])
  obtain ⟨ms, hms⟩ := run_namesHeld hheld hp hoff'
  exact (hms.inv.named row hmem hmine g hg).imp_right GrantedBefore.append

end Owned

/-- The address lies in a network that is live in the group and inside the window. -/
def Shows (crates : Crates) (ep : Endpoint) (env : Surroundings) (v : Vault) (group : String)
    (a : IpAddr) : Prop :=
  ∃ address seen network, LiveIn v group address seen ∧
    parseTargetAddress crates address = some network ∧ network.contains a = true ∧
    (ep.maxAgeSeconds ≤ 0 ∨ env.now - ep.maxAgeSeconds * nanosPerSecond ≤ seen)

section Feeds
variable {I : Type} [DecidableEq I] {app : AppState} {tasks : I → Task} {w₀ : World}
  {events : List (Event I Choice Change)} {q : Process I}

theorem shows_of_published (hempty : w₀.cache = ∅)
    (hrun : Interleaving.run (system app.crates) (process app tasks w₀) events = some q)
    {ep : Endpoint} {env : Surroundings} (hcache : env.cache = q.state.cache) {a : IpAddr}
    (h : Published app.crates ep env a) :
    Once (system app.crates) (process app tasks w₀) (fun past p => ∃ row, row.id = ep.id ∧
      RowBefore app tasks w₀ row past ∧
      ∃ g ∈ groupNames row.vaultGroups, Shows app.crates ep env p.state.vault g a) events := by
  obtain ⟨n, ⟨entry, hentry, address, record, hrecord, rfl, hwindow⟩, -, hcontains⟩ := h
  have hlookup : (q.state.cache.entry ep.id).records.lookup address = some record := by
    rw [IpCache.entry, ← hcache, hentry]
    exact hrecord
  obtain ⟨ms, htraced⟩ := run_traced hempty hrun
  obtain ⟨row, hid, hsupplied, hparse⟩ := htraced.cached ep.id address record hlookup
  refine hsupplied.imp ?_
  rintro past rest p - - ⟨hrow, g, hg, hlive⟩
  exact ⟨row, hid, hrow, g, hg, address, record.lastSeenAt, record.network, hlive, hparse,
    hcontains, hwindow⟩

/-- In every run from an empty cache, with any tasks, tables and changes in Vault, each
address covered by a line of a feed lay in a network that was live in Vault, and last seen
inside the retention window, in a group named by a row with the identifier of the feed, at
a moment after that row was in the table.

If the endpoint is a key's own when the cache is read and the Master has neither given the
key an endpoint nor changed groups of one it owns, the key had by then been granted the
group, or held it at the start. -/
theorem feed_addresses_traced {crates : FeedCrates} (hagg : AggregateCorrect crates.aggregate)
    (htext : Set.InjOn crates.netText {n | Canonical n}) (hcrates : app.crates = crates.toCrates)
    (hempty : w₀.cache = ∅)
    (hrun : Interleaving.run (system app.crates) (process app tasks w₀) events = some q)
    {ep : Endpoint} {env : Surroundings} (hcache : env.cache = q.state.cache) {lines : List String}
    (hlines : feedLines crates ep env = some lines) {line : String}
    (hline : line ∈ lines) {a : IpAddr} (hcovers : LineCovers crates line a) :
    Once (system app.crates) (process app tasks w₀) (fun past p => ∃ row, row.id = ep.id ∧
      RowBefore app tasks w₀ row past ∧
      ∃ g ∈ groupNames row.vaultGroups, Shows app.crates ep env p.state.vault g a) events ∧
    ∀ key (held : String → Prop),
      (∀ row ∈ w₀.db.endpoints.rows, row.ownerKeyId = some key →
        ∀ g ∈ groupNames row.vaultGroups, held g) →
      Along (system app.crates) (handsOff tasks key) (process app tasks w₀) events →
      (∃ own ∈ q.state.db.endpoints.rows, own.id = ep.id ∧ own.ownerKeyId = some key) →
      Once (system app.crates) (process app tasks w₀) (fun past p => ∃ g,
        (held g ∨ GrantedBefore app tasks w₀ past key g) ∧
        Shows app.crates ep env p.state.vault g a) events := by
  have hpublished : Published app.crates ep env a := by
    rw [hcrates]
    exact ((exactLines_of_feedLines htext hagg hlines).covers a).mp ⟨line, hline, hcovers⟩
  have hshown := shows_of_published hempty hrun hcache hpublished
  refine ⟨hshown, ?_⟩
  rintro key held hheld hoff ⟨own, hown, hid, howner⟩
  refine hshown.imp ?_
  rintro past rest p rfl - ⟨row, hrowId, hrow, g, hg, hshows⟩
  exact ⟨g, granted_of_rowBefore hheld hrun hoff hown howner (hrowId.trans hid.symm) hrow hg,
    hshows⟩

end Feeds

def feedTasks : Bool → Task
  | true => .request DaughterConfinement.sampleCaller DaughterConfinement.sampleCreation
  | false => .sync 1

/-- The key creates the endpoint, an address joins the group, and the worker syncs. -/
def feedEvents : List (Event Bool Choice Change) :=
  DaughterConfinement.sampleChoices.map (.act true) ++
    [.world (.commit "dmz" "192.0.2.7" 0 false 9), .act false .succeed, .act false (.instant 0),
      .act false (.records (.ok [⟨"192.0.2.7", 0, false⟩])), .act false (.instant 0)]

def shownFeed (q : Process Bool) : Surroundings := { sampleCached with cache := q.state.cache }

theorem feed_addresses_traced_first :
    ∃ q lines line, Interleaving.run (system sampleApp.crates)
        (process sampleApp feedTasks DaughterConfinement.sampleWorld) feedEvents = some q ∧
      feedLines exactCrates { sampleFeed with id := 5 } (shownFeed q) = some lines ∧ line ∈ lines ∧
      LineCovers exactCrates line (.v4 0xc0000207#32) ∧
      Once (system sampleApp.crates) (process sampleApp feedTasks DaughterConfinement.sampleWorld)
        (fun past p => ∃ g,
          (False ∨ GrantedBefore sampleApp feedTasks DaughterConfinement.sampleWorld past 7 g) ∧
          Shows sampleApp.crates { sampleFeed with id := 5 } (shownFeed q) p.state.vault g
            (.v4 0xc0000207#32)) feedEvents := by
  have hends : (Interleaving.run (system sampleApp.crates)
      (process sampleApp feedTasks DaughterConfinement.sampleWorld) feedEvents).map (fun q =>
        (q.state.db.endpoints.rows.map fun row => (row.id, row.ownerKeyId),
          (q.state.cache.lookup 5).bind fun entry => entry.records.lookup "192.0.2.7")) =
      some ([(5, some 7)], some ⟨.fromAddr (.v4 0xc0000207#32), 0⟩) := by
    decide +kernel
  obtain ⟨q, hrun, hq⟩ := Option.map_eq_some_iff.mp hends
  obtain ⟨hrows, hrecord⟩ := Prod.mk.inj hq
  have htext : Set.InjOn exactCrates.netText {n | Canonical n} := sampleNetText_injective.injOn
  have hsome : (feedLines exactCrates { sampleFeed with id := 5 } (shownFeed q)).isSome = true :=
    feedLines_isSome.mpr (.inr (.inl (by decide)))
  obtain ⟨lines, hlines⟩ := Option.isSome_iff_exists.mp hsome
  obtain ⟨entry, hentry, hlookup⟩ := Option.bind_eq_some_iff.mp hrecord
  have hpublished : Published exactCrates.toCrates { sampleFeed with id := 5 } (shownFeed q)
      (.v4 0xc0000207#32) := by
    refine ⟨.fromAddr (.v4 0xc0000207#32), ⟨entry, hentry, "192.0.2.7", _, hlookup, rfl, ?_⟩,
      ?_, by decide⟩
    · exact .inl (by decide)
    · intro range hrange
      cases hrange
  obtain ⟨line, hline, hcovers⟩ :=
    ((exactLines_of_feedLines htext sampleAggregate_correct hlines).covers _).mpr
    hpublished
  refine ⟨q, _, line, hrun, hlines, hline, hcovers, ?_⟩
  have htraced :=
    feed_addresses_traced sampleAggregate_correct htext rfl rfl hrun rfl hlines hline hcovers
  have hown : ∃ own ∈ q.state.db.endpoints.rows, own.id = 5 ∧ own.ownerKeyId = some 7 := by
    obtain ⟨own, hown, heq⟩ := List.mem_map.mp (hrows ▸ List.mem_singleton_self (5, some 7))
    exact ⟨own, hown, Prod.mk.inj heq⟩
  refine htraced.2 7 (fun _ => False) (fun row hrow => absurd hrow List.not_mem_nil) ?_ hown
  intro past ev rest p _ _
  cases ev with
  | act i e =>
      intro hmaster
      cases i <;> cases hmaster
  | world ch => trivial

end SimplyIpExporter.FeedProvenance
