import SimplyIpExporter.SyncHistory

/-!
# What the cache holds after a sync

The cache of an endpoint holds exactly what was live at the fetch it goes back to, and
whatever has changed since would be listed from the stored cursor on. This is kept by
every run of a worker among updates of endpoints in which

* a cursor is stored only when all that has changed since the fetch changed in the
  second of the cursor or later, and
* a differential batch was asked for with a cursor, for the groups the cache goes
  back to, and has no tombstone for an address still live in them.
-/
namespace SimplyIpExporter.CacheFreshness
open Entities KeyedTables AddressCache VaultClient VaultMemberships Storage Services Programs
open Interleaving EndpointHandlers Routes SyncPasses SyncHistory

/-- Every address of Vault is one the cache can store. -/
def Parsed (crates : Crates) (v : Vault) : Prop :=
  ∀ key m, v.lookup key = some m → (parseTargetAddress crates key.2).isSome

/-- The cache holds what was live at the fetch it goes back to, and what has changed
since is listed from the stored cursor on. -/
structure Fresh (crates : Crates) (focus : Uuid) (accept : Serving → Prop) (w : Pass) (s : World)
    (h : History) : Prop where
  holds : ∀ f, h.synced = some f → Holds (s.cache.entry focus).records f.vault f.names ∧ accept f
  served : ∀ f, h.served = some f → ∀ t, cursor focus s = some t →
    ChangedFrom (wholeSecond t) f s.vault
  synced : ∀ f, h.synced = some f → ∀ t, cursor focus s = some t →
    ChangedFrom (wholeSecond t) f s.vault
  batch : ∀ ep f t f₀, w.current = some ep → ep.id = focus → w.reply ≠ none → w.applied = false →
    h.served = some f → f.since = some t → h.synced = some f₀ → f₀.names = f.names →
    Batch f₀.vault f.vault f.names f.records
  parsed : Parsed crates s.vault ∧ ∀ f, h.served = some f → Parsed crates f.vault

section Batches
variable {f : Serving}

theorem listing_of_query (hperm : f.records.Perm (query f.vault f.names none)) :
    Listing f.vault f.names f.records where
  live := by
    intro r hr
    obtain ⟨g, hg, address, m, hm, rfl, hlive⟩ := mem_query.mp (hperm.mem_iff.mp hr)
    exact ⟨g, hg, m, hm, hlive⟩
  complete := by
    intro g hg address m hm hlive
    exact hperm.mem_iff.mpr (mem_query.mpr ⟨g, hg, address, m, hm, rfl, hlive⟩)

theorem Parsed.of_query {crates : Crates} (hparsed : Parsed crates f.vault)
    (hperm : f.records.Perm (query f.vault f.names f.since)) :
    ∀ r ∈ f.records, (parseTargetAddress crates r.targetAddress).isSome := by
  intro r hr
  obtain ⟨g, -, address, m, hm, rfl, -⟩ := mem_query.mp (hperm.mem_iff.mp hr)
  exact hparsed (g, address) m hm

end Batches

/-- A cursor to be stored lies in no later second than any change the fetch did not
see. -/
def marksSafely (focus : Uuid) (s : World) (h : History) (id : Uuid)
    (ch : EndpointChanges) : Bool :=
  decide (id = focus →
    ∀ t ∈ ch.lastSyncedAt.join, ∀ f ∈ h.served, ChangedFrom (wholeSecond t) f s.vault)

theorem changedFrom_of_marksSafely {focus id : Uuid} {s : World} {h : History}
    {ch : EndpointChanges} (hsafe : marksSafely focus s h id ch = true) (hid : id = focus) :
    ∀ t, ch.lastSyncedAt = some (some t) → ∀ f, h.served = some f →
      ChangedFrom (wholeSecond t) f s.vault := by
  intro t hch f hserved
  exact of_decide_eq_true hsafe hid t (by rw [hch]; rfl) f hserved

/-- What the invariant asks of a call. -/
def Orderly (focus : Uuid) (accept : Serving → Prop) (s : World) (h : History) : Call → Prop
  | .db (.updateEndpoint id ch) => id = focus → ∀ t, ch.lastSyncedAt = some (some t) →
      ∀ f, h.served = some f → ChangedFrom (wholeSecond t) f s.vault
  | .applyFull id _ => id = focus → ∀ f, h.served = some f → accept f
  | .applyDiff id _ => id = focus → ∀ f, h.served = some f → accept f ∧ f.since ≠ none ∧
      (∀ f₀, h.synced = some f₀ → f₀.names = f.names) ∧ TombstonesFinal f.vault f.names f.records
  | _ => True

section Fresh
variable {crates : Crates} {focus : Uuid} {accept : Serving → Prop} {w w' : Pass} {s s' : World}
  {h : History} {e : Choice}

/-- Nothing that matters has moved, and no batch is newly at hand. -/
theorem Fresh.frame (hf : Fresh crates focus accept w s h)
    (hcursor : cursor focus s' = cursor focus s)
    (hcache : s'.cache.entry focus = s.cache.entry focus) (hvault : s'.vault = s.vault)
    (hbatch : w'.applied = false → w'.reply ≠ none →
      w'.current = w.current ∧ w'.reply = w.reply ∧ w.applied = false) :
    Fresh crates focus accept w' s' h where
  holds := by
    rw [hcache]
    exact hf.holds
  served := by
    rw [hcursor, hvault]
    exact hf.served
  synced := by
    rw [hcursor, hvault]
    exact hf.synced
  batch := by
    intro ep f t f₀ hcurrent hid hreply happlied
    obtain ⟨hcurrent', hreply', happlied'⟩ := hbatch happlied hreply
    exact hf.batch ep f t f₀ (hcurrent' ▸ hcurrent) hid (hreply' ▸ hreply) happlied'
  parsed := by
    rw [hvault]
    exact hf.parsed

theorem Fresh.fetch {groups : String} {since : Option NaiveDateTime}
    {reply : Except VaultError (List VaultApiRecord)} (hf : Fresh crates focus accept w s h)
    (ht : PassTracks focus w s h) (hpermits : w.permits (.fetchIps groups since))
    (hexec : exec crates (.fetchIps groups since) e s = some (reply, s')) :
    Fresh crates focus accept (w.next (.fetchIps groups since) reply) s'
      (note focus (.fetchIps groups since) reply s h) := by
  obtain ⟨rfl, hperm⟩ := exec_fetchIps hexec
  cases reply with
  | error err => exact hf
  | ok records =>
      obtain ⟨-, ep, hcurrent, rfl, rfl⟩ := hpermits
      refine ⟨hf.holds, ?_, hf.synced, ?_, hf.parsed.1, ?_⟩
      · rintro _ ⟨⟩ t _
        exact .refl _ _
      · rintro ep' _ t f₀ hep' hid - - ⟨⟩ hsince hsynced hnames
        obtain rfl : ep = ep' := Option.some.inj (hcurrent.symm.trans hep')
        -- the query started from the stored cursor
        have hlast : ep.lastSyncedAt = some t := by
          cases hfull : w.full <;> simp [hfull] at hsince
          exact hsince
        have hcopied := ht.copied ep (by simp [Pass.rows, hcurrent]) hid
        have hchanged := hf.synced f₀ hsynced t (hcopied.symm.trans hlast)
        have hlisted := hperm records rfl
        rw [show (if w.full then none else ep.lastSyncedAt) = some t from hsince] at hlisted
        exact ChangedFrom.batch (f := ⟨s'.vault, ep.vaultGroups, _, records, _⟩) hchanged
          hnames hlisted
      · rintro _ ⟨⟩
        exact hf.parsed.1

theorem Fresh.mark {id : Uuid} {ch : EndpointChanges} {answer : Except DbErr Endpoint}
    (hf : Fresh crates focus accept w s h) (ht : PassTracks focus w s h)
    (hpermits : w.permits (.db (.updateEndpoint id ch)))
    (horderly : Orderly focus accept s h (.db (.updateEndpoint id ch)))
    (hexec : exec crates (.db (.updateEndpoint id ch)) e s = some (answer, s')) :
    Fresh crates focus accept (.listed w.pending) s' h := by
  cases answer with
  | error err =>
      cases exec_db_error hexec
      exact hf.frame rfl rfl rfl fun _ hreply => absurd rfl hreply
  | ok row' =>
      obtain ⟨hcursor, hcache, hvault, -⟩ := exec_updateEndpoint focus hexec
      obtain ⟨happlied, ⟨ep, hcurrent, rfl⟩, t, -, rfl⟩ := hpermits
      by_cases hid : ep.id = focus
      · rw [if_pos hid, Option.getD_some] at hcursor
        have hserved := horderly hid t rfl
        refine ⟨?_, ?_, ?_, ?_, ?_⟩
        · rw [hcache]
          exact hf.holds
        · rw [hcursor, hvault]
          rintro f hs _ ⟨⟩
          exact hserved f hs
        · rw [hcursor, hvault, ht.stored ep hcurrent hid happlied]
          rintro f hs _ ⟨⟩
          exact hserved f hs
        · intro ep' f t' f₀ hnone
          cases hnone
        · rw [hvault]
          exact hf.parsed
      · rw [if_neg hid] at hcursor
        exact hf.frame hcursor (by rw [hcache]) hvault fun _ hreply => absurd rfl hreply

/-- Storing for another endpoint. -/
theorem Fresh.store_other (hf : Fresh crates focus accept w s h)
    (hcache : s'.cache.lookup focus = s.cache.lookup focus) (hdb : s'.db = s.db)
    (hvault : s'.vault = s.vault) : Fresh crates focus accept { w with applied := true } s' h := by
  refine hf.frame ?_ ?_ hvault fun happlied => by cases happlied
  · unfold cursor
    rw [hdb]
  · unfold IpCache.entry
    rw [hcache]

/-- Storing for the endpoint: what has to be shown is that the cache now holds what
was live at the fetch. -/
theorem Fresh.store {f : Serving} (hf : Fresh crates focus accept w s h)
    (hserved : h.served = some f) (hholds : Holds (s'.cache.entry focus).records f.vault f.names)
    (haccept : accept f) (hdb : s'.db = s.db) (hvault : s'.vault = s.vault) :
    Fresh crates focus accept { w with applied := true } s' { h with synced := h.served } := by
  have hcursor : cursor focus s' = cursor focus s := by
    unfold cursor
    rw [hdb]
  refine ⟨?_, ?_, ?_, ?_, ?_⟩
  · intro f' hf'
    obtain rfl : f = f' := Option.some.inj (hserved.symm.trans hf')
    exact ⟨hholds, haccept⟩
  · rw [hcursor, hvault]
    exact hf.served
  · rw [hcursor, hvault]
    exact hf.served
  · intro ep f' t f₀ _ _ _ happlied
    cases happlied
  · rw [hvault]
    exact hf.parsed

theorem Fresh.storeFull {id : Uuid} {rs : List VaultRecord} {u : Unit}
    (hf : Fresh crates focus accept w s h) (ht : PassTracks focus w s h)
    (hpermits : w.permits (.applyFull id rs))
    (horderly : Orderly focus accept s h (.applyFull id rs))
    (hexec : exec crates (.applyFull id rs) e s = some (u, s')) :
    Fresh crates focus accept { w with applied := true } s'
      (if id = focus then { h with synced := h.served } else h) := by
  obtain ⟨hfull, records, ⟨-, hreply, -⟩, rfl⟩ := hpermits
  obtain ⟨ep, f, -, hserved, rfl, -, hsince, hperm⟩ := ht.received records hreply
  obtain ⟨t, rfl⟩ := exec_applyFull hexec
  by_cases hid : id = focus
  · rw [if_pos hid]
    rw [hfull, if_pos rfl] at hsince
    have hparse := (hf.parsed.2 f hserved).of_query hperm
    rw [hsince] at hperm
    refine hf.store hserved ?_ (horderly hid f hserved) rfl rfl
    rw [← hid]
    exact applyFull_holds hparse id s.cache t (listing_of_query hperm)
  · rw [if_neg hid]
    exact hf.store_other (AList.lookup_insert_ne (Ne.symm hid)) rfl rfl

theorem Fresh.storeDiff {id : Uuid} {rs : List VaultRecord} {u : Unit}
    (hf : Fresh crates focus accept w s h) (ht : PassTracks focus w s h)
    (hpermits : w.permits (.applyDiff id rs))
    (horderly : Orderly focus accept s h (.applyDiff id rs))
    (hexec : exec crates (.applyDiff id rs) e s = some (u, s')) :
    Fresh crates focus accept { w with applied := true } s'
      (if id = focus then { h with synced := h.served } else h) := by
  obtain ⟨hfull, records, ⟨⟨ep, hcurrent, rfl⟩, hreply, happlied⟩, rfl⟩ := hpermits
  obtain ⟨ep', f, -, hserved, rfl, -, hsince, hperm⟩ := ht.received records hreply
  cases exec_applyDiff hexec
  by_cases hid : ep.id = focus
  · rw [if_pos hid]
    obtain ⟨haccept, hsome, hnames, hfinal⟩ := horderly hid f hserved
    obtain ⟨t, ht'⟩ := Option.ne_none_iff_exists'.mp hsome
    obtain ⟨f₀, hf₀⟩ := Option.ne_none_iff_exists'.mp (ht.begun ep hcurrent hid hfull)
    have hbatch := hf.batch ep f t f₀ hcurrent hid (by simp [hreply]) happlied hserved ht' hf₀
      (hnames f₀ hf₀)
    have hparse := (hf.parsed.2 f hserved).of_query hperm
    refine hf.store hserved ?_ haccept rfl rfl
    intro address
    have hheld := (hf.holds f₀ hf₀).1 address
    rw [hnames f₀ hf₀, ← hid] at hheld
    rw [← hid]
    exact (applyDiff_address_iff hparse ep.id s.cache hbatch hheld).mpr (hfinal address)
  · rw [if_neg hid]
    exact hf.store_other (AList.lookup_insert_ne (Ne.symm hid)) rfl rfl

/-- One call of the worker. -/
theorem Fresh.step {c : Call} {r : Answer c} (hf : Fresh crates focus accept w s h)
    (ht : PassTracks focus w s h) (hpermits : w.permits c) (horderly : Orderly focus accept s h c)
    (hexec : exec crates c e s = some (r, s')) :
    Fresh crates focus accept (w.next c r) s' (note focus c r s h) := by
  cases c with
  | db st =>
      cases st with
      | allEndpoints =>
          cases r with
          | error err =>
              cases exec_db_error hexec
              exact hf
          | ok rows =>
              obtain ⟨db, hrun, -, rfl⟩ := exec_db_ok hexec
              cases hrun
              exact hf.frame rfl rfl rfl fun _ hreply => absurd rfl hreply
      | updateEndpoint id ch => exact hf.mark ht hpermits horderly hexec
      | _ => exact absurd hpermits id
  | now =>
      obtain ⟨-, rfl⟩ := exec_now hexec
      exact hf.frame rfl rfl rfl fun happlied _ => ⟨rfl, rfl, happlied⟩
  | fullSyncDue id =>
      obtain ⟨t, -, rfl⟩ := exec_fullSyncDue hexec
      exact hf.frame rfl rfl rfl fun _ hreply => absurd rfl hreply
  | fetchIps groups since => exact hf.fetch ht hpermits hexec
  | applyFull id rs => exact hf.storeFull ht hpermits horderly hexec
  | applyDiff id rs => exact hf.storeDiff ht hpermits horderly hexec
  | _ => exact absurd hpermits id

theorem Fresh.world {group address : String} {lastSeenAt t : NaiveDateTime} {deleted : Bool}
    (hf : Fresh crates focus accept w s h) (ht : PassTracks focus w s h)
    (hparses : (parseTargetAddress crates address).isSome)
    (henv : env (.commit group address lastSeenAt deleted t) s = some s') :
    Fresh crates focus accept w s' h := by
  simp only [env] at henv
  split at henv
  · rename_i hclock
    cases henv
    have hbound : ∀ t', cursor focus s = some t' → wholeSecond t' ≤ t := by
      intro t' hcursor
      exact (wholeSecond_le t').trans ((ht.past t' hcursor).trans hclock)
    refine ⟨hf.holds, ?_, ?_, hf.batch, ?_, hf.parsed.2⟩
    · intro f hserved t' hcursor
      exact (hf.served f hserved t' hcursor).commit (hbound t' hcursor)
    · intro f hsynced t' hcursor
      exact (hf.synced f hsynced t' hcursor).commit (hbound t' hcursor)
    · intro key m hm
      by_cases hkey : key = (group, address)
      · rw [hkey]
        exact hparses
      · rw [AList.lookup_insert_ne hkey] at hm
        exact hf.parsed.1 key m hm
  · cases henv

end Fresh

section Runs
variable {I : Type} [DecidableEq I] {app : AppState} {focus : Uuid} {tasks : I → Task} {worker : I}
  {passes : ℕ} {s₀ : World} {accept : Serving → Prop}

/-- The process before any step, without a history. -/
def start (app : AppState) (tasks : I → Task) (s : World) : Observed I :=
  (process app tasks s).noting .start

/-- One worker, and otherwise updates of endpoints only. -/
structure Crew (tasks : I → Task) (worker : I) (passes : ℕ) : Prop where
  syncs : tasks worker = .sync passes
  updates : ∀ i, i ≠ worker → IsUpdate (tasks i)

/-- The endpoint at the start: nothing is cached for it, and its cursor, if it has
one from before, is not ahead of the clock. -/
structure Cold (focus : Uuid) (s : World) : Prop where
  cache : s.cache.lookup focus = none
  past : ∀ t, cursor focus s = some t → t ≤ s.clock

def policy (worker : I) (i : I) : Policy Answer Pass := if i = worker then syncing else editing

theorem crew_follows (hcrew : Crew tasks worker passes) (i : I) (w : Pass) :
    Follows (policy worker i) (fun _ _ => True) ((tasks i).program app) w := by
  unfold policy
  by_cases hi : i = worker
  · rw [if_pos hi, hi, hcrew.syncs]
    exact sync_follows app passes w
  · rw [if_neg hi]
    exact update_follows (hcrew.updates i hi) w

theorem tracks_start (hcold : Cold focus s₀) : PassTracks focus (.listed []) s₀ .start where
  distinct := List.nodup_nil
  copied := by
    intro row hrow
    cases hrow
  received := by
    intro records hreply
    cases hreply
  stored := by
    intro ep hcurrent
    cases hcurrent
  begun := by
    intro ep hcurrent
    cases hcurrent
  blank := by
    intro _
    rw [hcold.cache]
    rfl
  past := hcold.past
  read := by
    intro t hnow
    cases hnow

/-- An edit notes nothing. -/
theorem note_of_edit {w : Pass} {c : Call} (hpermits : editing.permits w c) (r : Answer c)
    (s : World) (h : History) : note focus c r s h = h := by
  cases c with
  | fetchIps _ _ => exact absurd hpermits id
  | applyFull _ _ => exact absurd hpermits id
  | applyDiff _ _ => exact absurd hpermits id
  | _ => rfl

/-- The invariant rule for a worker among updates. -/
theorem run_crew {J : Pass → World → History → Prop}
    {cond : Observed I →
      Event I Choice Change → Prop} (hcrew : Crew tasks worker passes)
    (hstart : J (.listed []) s₀ .start)
    (hsync : ∀ p e c w r s', cond p (.act worker e) → (p.threads worker).upcoming = some c →
      w.permits c → exec app.crates c e p.state.1 = some (r, s') → J w p.state.1 p.state.2 →
      J (w.next c r) s' (note focus c r p.state.1 p.state.2))
    (hedit : ∀ i, i ≠ worker → ∀ w s s' h, Aside focus s s' → s'.vault = s.vault → J w s h →
      J w s' h)
    (hworld : ∀ p ch w s', cond p (.world ch) → env ch p.state.1 = some s' →
      J w p.state.1 p.state.2 → J w s' p.state.2)
    {events : List (Event I Choice Change)}
    {q : Observed I}
    (hrun : run (observed app.crates focus) (start app tasks s₀) events = some q)
    (halong : Along (observed app.crates focus) cond (start app tasks s₀) events) :
    ∃ w, Follows syncing (fun _ _ => True) (q.threads worker) w ∧ J w q.state.1 q.state.2 := by
  have hinit : Watched (policy worker) (fun _ _ _ => True)
      (fun _ ms s => J (ms worker) s.1 s.2) ([] : List (Event I Choice Change))
      (start app tasks s₀) fun _ => .listed [] :=
    ⟨fun i => crew_follows hcrew i _, hstart⟩
  have hwatched : ∃ ms, Watched (policy worker) (fun _ _ _ => True)
      (fun _ ms s => J (ms worker) s.1 s.2) events q ms := by
    refine run_watched _ _ _ cond hinit ?_ ?_ hrun halong
    · intro past p ms i e c next r s' _ hinv hc hcond hpermits hexec
      obtain ⟨hexec, hnote⟩ := observe_exec hexec
      rw [policy] at hpermits ⊢
      by_cases hi : i = worker
      · subst hi
        rw [if_pos rfl] at hpermits ⊢
        refine ⟨(ms i).next c r, rfl, ?_⟩
        rw [Function.update_self, hnote]
        exact hsync p e c (ms i) r s'.1 hcond (by rw [hc]; rfl) hpermits hexec hinv.inv
      · rw [if_neg hi] at hpermits ⊢
        refine ⟨ms i, ⟨trivial, rfl⟩, ?_⟩
        obtain ⟨haside, hvault⟩ := aside_of_edit hpermits hexec
        rw [Function.update_eq_self, hnote, note_of_edit hpermits]
        exact hedit i hi (ms worker) p.state.1 s'.1 p.state.2 haside hvault hinv.inv
    · intro past p ms ch s' _ hinv hcond henv
      obtain ⟨henv, hsame⟩ := observe_env henv
      rw [hsame]
      exact hworld p ch (ms worker) s'.1 hcond henv hinv.inv
  obtain ⟨ms, hfollows, hinv⟩ := hwatched
  have hworker := hfollows worker
  rw [policy, if_pos rfl] at hworker
  exact ⟨ms worker, hworker, hinv⟩

/-- A condition on calls, along with that Vault commits only addresses the cache can
store. -/
def callsMeet (crates : Crates) (call : World → History → Call → Bool)
    (p : Observed I) :
    Event I Choice Change → Bool
  | .world (.commit _ address _ _ _) => (parseTargetAddress crates address).isSome
  | .act i _ => (p.threads i).upcoming.all (call p.state.1 p.state.2)

theorem fresh_start (focus : Uuid) (hparsed : Parsed app.crates s₀.vault) :
    Fresh app.crates focus accept (.listed []) s₀ .start where
  holds := by
    intro f hsynced
    cases hsynced
  served := by
    intro f hserved
    cases hserved
  synced := by
    intro f hsynced
    cases hsynced
  batch := by
    intro ep f t f₀ hcurrent
    cases hcurrent
  parsed := by
    refine ⟨hparsed, ?_⟩
    intro f hserved
    cases hserved

/-- Both invariants are kept by every run whose calls meet a condition that makes them
orderly, given what else (`K`) is known to be kept. -/
theorem run_fresh {K : Pass → World → History → Prop} {call : World → History → Call → Bool}
    (hcrew : Crew tasks worker passes) (hcold : Cold focus s₀)
    (hparsed : Parsed app.crates s₀.vault) (hstart : K (.listed []) s₀ .start)
    (hsync : ∀ w c e s s' h r, PassTracks focus w s h → K w s h → w.permits c →
      exec app.crates c e s = some (r, s') → K (w.next c r) s' (note focus c r s h))
    (hedit : ∀ i, i ≠ worker → ∀ w s s' h, Aside focus s s' → s'.vault = s.vault → K w s h →
      K w s' h)
    (hworld : ∀ ch w s s' h, env ch s = some s' → K w s h → K w s' h)
    (horderly : ∀ w s h c, PassTracks focus w s h → K w s h → w.permits c → call s h c = true →
      Orderly focus accept s h c)
    {events : List (Event I Choice Change)}
    {q : Observed I}
    (hrun : run (observed app.crates focus) (start app tasks s₀) events = some q)
    (halong : Along (observed app.crates focus) (fun p ev => callsMeet app.crates call p ev = true)
      (start app tasks s₀) events) :
    ∃ w, Follows syncing (fun _ _ => True) (q.threads worker) w ∧
      PassTracks focus w q.state.1 q.state.2 ∧
      K w q.state.1 q.state.2 ∧ Fresh app.crates focus accept w q.state.1 q.state.2 := by
  refine run_crew
    (J := fun w s h => PassTracks focus w s h ∧ K w s h ∧ Fresh app.crates focus accept w s h)
    hcrew ⟨tracks_start hcold, hstart, fresh_start focus hparsed⟩ ?_ ?_ ?_ hrun halong
  · intro p e c w r s' hmeets hc hpermits hexec ⟨ht, hK, hf⟩
    have hcall : (p.threads worker).upcoming.all (call p.state.1 p.state.2) = true := hmeets
    rw [hc] at hcall
    refine ⟨ht.step hpermits hexec, hsync w c e _ _ _ r ht hK hpermits hexec, ?_⟩
    exact hf.step ht hpermits (horderly w _ _ c ht hK hpermits hcall) hexec
  · intro i hi w s s' h haside hvault ⟨ht, hK, hf⟩
    refine ⟨ht.frame haside.cursor (by rw [haside.cache]) haside.clock,
      hedit i hi w s s' h haside hvault hK, ?_⟩
    exact hf.frame haside.cursor (by rw [haside.cache]) hvault fun happlied _ =>
      ⟨rfl, rfl, happlied⟩
  · intro p ch w s' hmeets henv ⟨ht, hK, hf⟩
    have haside := aside_of_env focus henv
    refine ⟨ht.frame haside.cursor (by rw [haside.cache]) haside.clock,
      hworld ch w _ s' _ henv hK, ?_⟩
    obtain ⟨group, address, lastSeenAt, deleted, t⟩ := ch
    exact hf.world ht hmeets henv

end Runs

def syncedFeed : Endpoint where
  id := 5
  ownerKeyId := none
  name := "feed"
  description := none
  tokenSecret := "token"
  vaultGroups := "dmz"
  ttlSeconds := 1
  maxAgeSeconds := 0
  boundIps := none
  filterRfc1918 := false
  filterBogons := false
  filterLoopback := false
  lastSyncedAt := none
  createdAt := 0
  updatedAt := 0

def syncedWorld : World where
  db :=
    { apiKeys := .empty
      endpoints := ⟨[syncedFeed], by decide⟩
      grants := .empty
      auditLogs := .empty }
  retired := []
  cache := ∅
  vault := ∅
  clock := 0
  uptime := 0

theorem syncedWorld_cold : Cold 5 syncedWorld where
  cache := rfl
  past := by
    intro t hcursor
    cases hcursor

theorem syncedWorld_parsed (crates : Crates) : Parsed crates syncedWorld.vault := by
  intro key m hm
  cases hm

section Events
variable {I : Type} (worker : I)

/-- A pass that syncs the one endpoint in full: up to the fetch, and from there. -/
def fullFetch (reply : List VaultApiRecord) : List (Event I Choice Change) :=
  [.act worker .succeed, .act worker (.instant 0), .act worker (.records (.ok reply))]

def fullStore (marked : NaiveDateTime) : List (Event I Choice Change) :=
  [.act worker (.instant 0), .act worker (.time marked), .act worker .succeed]

/-- A pass that syncs it differentially, up to the batch being applied. -/
def differentialPass (read : NaiveDateTime) (reply : List VaultApiRecord) :
    List (Event I Choice Change) :=
  [.act worker .succeed, .act worker (.instant 1), .act worker (.time read),
    .act worker (.records (.ok reply)), .act worker .succeed]

end Events
end SimplyIpExporter.CacheFreshness
