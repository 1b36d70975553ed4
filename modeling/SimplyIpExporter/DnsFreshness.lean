import SimplyIpExporter.DnsCache

/-!
# Fresh answers and few lookups

Every list a resolver returns is the latest answer for the name, not older than its
time to live, or one just looked up. Lookups of a name that calls of `resolve` have
started lie apart by the time to live of the earlier answer, as long as none is forced
in between: an answer that replaces another expires no earlier than that one, and a
lookup starts only when the answer at hand has expired.
-/
namespace SimplyIpExporter.DnsFreshness
open IpAddresses AddressEntries LastWriterWins Programs Interleaving Journals Exclusion DnsCache

/-- The name and the list that a step ends a call with. -/
def returned : (c : Call) → Answer c → Option (String × List IpNet)
  | .checkRead hostname, some addresses => some (hostname, addresses)
  | .checkWrite hostname, some addresses => some (hostname, addresses)
  | .finishLookup hostname, some state => some (hostname, state.addresses)
  | _, _ => none

/-- What a lookup of the name has stored. -/
def storedAnswer (hostname : String) : (c : Call) → Answer c → Option HostnameState
  | .finishLookup name, some state => if name = hostname then some state else none
  | _, _ => none

/-- A call of `resolve` starts a lookup of the name. -/
def starts (hostname : String) : (c : Call) → Answer c → Bool
  | .checkWrite name, none => decide (name = hostname)
  | _, _ => false

structure Stand where
  /-- The name looked up under the write lock, and whether that was forced. -/
  holding : Option (String × Bool)
  results : List (String × List IpNet)

def held (before : Option (String × Bool)) : (c : Call) → Answer c → Option (String × Bool)
  | .checkWrite hostname, none => some (hostname, false)
  | .lockWrite hostname, _ => some (hostname, true)
  | .finishLookup _, _ => none
  | _, _ => before

def Stand.next (m : Stand) (c : Call) (r : Answer c) : Stand where
  holding := held m.holding c r
  results := m.results ++ (returned c r).toList

/-- Without the lock a task checks or takes it, with it the lookup comes to its end. -/
def mayCall : Option (String × Bool) → Call → Prop
  | none, .checkRead _ | none, .checkWrite _ | none, .lockWrite _ => True
  | some (hostname, _), .finishLookup name => name = hostname
  | _, _ => False

def calling : Policy Answer Stand where
  permits m := mayCall m.holding
  moves m c r m' := m' = m.next c r

section Calls
variable {results : List (String × List IpNet)}

/-- The lock is given back, and the list is noted under the name. -/
def Gives (results : List (String × List IpNet)) (hostname : String) (m : Stand)
    (found : Option (List IpNet)) : Prop :=
  m = ⟨none, results ++ (found.map fun addresses => (hostname, addresses)).toList⟩

theorem refreshLocked_gives (hostname : String) (forced : Bool) :
    Follows calling (Gives results hostname) (refreshLocked hostname)
      ⟨some (hostname, forced), results⟩ := by
  refine .perform_bind rfl ?_
  rintro state _ rfl
  cases state with
  | none => exact .pure rfl
  | some state => exact .pure rfl

theorem resolve_gives (hostname : String) :
    Follows calling (Gives results hostname) (resolve hostname) ⟨none, results⟩ := by
  refine .perform_bind trivial ?_
  rintro cached _ rfl
  cases cached with
  | some addresses => exact .pure rfl
  | none =>
      have hstand : Stand.next ⟨none, results⟩ (.checkRead hostname) none = ⟨none, results⟩ := by
        simp [Stand.next, held, returned]
      rw [hstand]
      refine .perform_bind trivial ?_
      rintro cached _ rfl
      cases cached with
      | some addresses => exact .pure rfl
      | none =>
          have hlocked : Stand.next ⟨none, results⟩ (.checkWrite hostname) none =
              ⟨some (hostname, false), results⟩ := by
            simp [Stand.next, held, returned]
          rw [hlocked]
          exact refreshLocked_gives hostname false

theorem forceResolve_gives (hostname : String) :
    Follows calling (Gives results hostname) (forceResolve hostname) ⟨none, results⟩ := by
  refine .perform_bind trivial ?_
  rintro _ _ rfl
  have hlocked : Stand.next ⟨none, results⟩ (.lockWrite hostname) () =
      ⟨some (hostname, true), results⟩ := by
    simp [Stand.next, held, returned]
  rw [hlocked]
  exact refreshLocked_gives hostname true

/-- The loop has one result for each name, and puts them behind each other. -/
theorem extendAll_follows (merged : List IpNet) (names : List String) :
    Follows calling (fun m found => ∀ nets, found = some nets → ∃ more,
        m = ⟨none, results ++ more⟩ ∧ more.map Prod.fst = names ∧
          nets = merged ++ more.flatMap Prod.snd)
      (extendAll merged names) ⟨none, results⟩ := by
  induction names generalizing merged results with
  | nil =>
      refine .pure ?_
      intro nets hnets
      cases hnets
      exact ⟨[], by simp, rfl, by simp⟩
  | cons name names ih =>
      refine (resolve_gives name).bind ?_
      rintro _ found rfl
      cases found with
      | none =>
          refine .pure ?_
          intro nets hnets
          cases hnets
      | some addresses =>
          refine (ih (merged ++ addresses)).mono ?_
          intro m found h nets hnets
          obtain ⟨more, hm, hnames, rfl⟩ := h nets hnets
          refine ⟨(name, addresses) :: more, ?_, by rw [List.map_cons, hnames], by simp⟩
          rw [hm]
          simp

theorem primeAll_follows (failed names : List String) :
    Follows calling (fun m found => ∀ names', found = some names' → ∃ more,
        m = ⟨none, results ++ more⟩ ∧ more.map Prod.fst = names ∧
          names' = failed ++ (more.filter (·.2.isEmpty)).map Prod.fst)
      (primeAll failed names) ⟨none, results⟩ := by
  induction names generalizing failed results with
  | nil =>
      refine .pure ?_
      intro names' hnames'
      cases hnames'
      exact ⟨[], by simp, rfl, by simp⟩
  | cons name names ih =>
      refine (forceResolve_gives name).bind ?_
      rintro _ found rfl
      cases found with
      | none =>
          refine .pure ?_
          intro names' hnames'
          cases hnames'
      | some addresses =>
          refine (ih _).mono ?_
          intro m found h names' hnames'
          obtain ⟨more, hm, hnames, rfl⟩ := h names' hnames'
          refine ⟨(name, addresses) :: more, ?_, by rw [List.map_cons, hnames], ?_⟩
          · rw [hm]
            simp
          · cases hempty : addresses.isEmpty <;> simp [hempty]

end Calls

/-- What a task that has ended has made of its results. -/
def Reports : Task → Stand → Option Result → Prop
  | .resolve hostname, m, outcome | .forceResolve hostname, m, outcome =>
      ∀ nets, outcome = some (.networks nets) → m.results = [(hostname, nets)]
  | .resolved proxies, m, outcome => ∀ nets, outcome = some (.networks nets) →
      m.results.map Prod.fst = proxies.hostnames ∧
        nets = proxies.networks ++ m.results.flatMap Prod.snd
  | .prime proxies, m, outcome => ∀ names, outcome = some (.failed names) →
      m.results.map Prod.fst = proxies.hostnames ∧
        names = (m.results.filter (·.2.isEmpty)).map Prod.fst

theorem gives_single {hostname : String} {m : Stand} {found : Option (List IpNet)}
    (h : Gives [] hostname m found) :
    ∀ nets, found.map Result.networks = some (.networks nets) → m.results = [(hostname, nets)] := by
  intro nets hnets
  rw [show m = _ from h]
  cases found with
  | none => cases hnets
  | some addresses =>
      cases hnets
      rfl

/-- Without names the loops end at once. -/
theorem resolved_eq (proxies : TrustedProxies) :
    DnsCache.resolved proxies = extendAll proxies.networks proxies.hostnames := by
  unfold DnsCache.resolved
  cases proxies.hostnames <;> rfl

theorem prime_eq (proxies : TrustedProxies) : prime proxies = primeAll [] proxies.hostnames := by
  unfold prime
  cases proxies.hostnames <;> rfl

theorem program_follows (t : Task) : Follows calling (Reports t) t.program ⟨none, []⟩ := by
  cases t with
  | resolve hostname =>
      exact (resolve_gives hostname).bind fun m found h => .pure (gives_single h)
  | forceResolve hostname =>
      exact (forceResolve_gives hostname).bind fun m found h => .pure (gives_single h)
  | resolved proxies =>
      rw [Task.program, resolved_eq]
      refine (extendAll_follows proxies.networks proxies.hostnames).bind fun m found h => .pure ?_
      intro nets hnets
      obtain ⟨_, hfound, ⟨⟩⟩ := Option.map_eq_some_iff.mp hnets
      obtain ⟨more, rfl, hnames, hmerged⟩ := h nets hfound
      exact ⟨hnames, hmerged⟩
  | prime proxies =>
      rw [Task.program, prime_eq]
      refine (primeAll_follows [] proxies.hostnames).bind fun m found h => .pure ?_
      intro names hfailed
      obtain ⟨_, hfound, ⟨⟩⟩ := Option.map_eq_some_iff.mp hfailed
      obtain ⟨more, rfl, hnames, hnames'⟩ := h names hfound
      exact ⟨hnames, hnames'⟩

section Times
variable (resolver : DnsResolver)

/-- How long an answer may be used. -/
def ttlOf (addresses : List IpNet) : ℕ :=
  if addresses = [] then resolver.negativeTtl else resolver.positiveTtl

def expiry (state : HostnameState) : ℕ := state.attemptedAt + ttlOf resolver state.addresses

/-- When a lookup of the name may start. -/
def dueAt (cache : Store String HostnameState) (hostname : String) : ℕ :=
  (cache.lookup hostname).elim 0 (expiry resolver)

/-- What is cached was stored in the past, and is marked for what it is. -/
def Stamped (w : World) : Prop :=
  ∀ hostname state, w.cache.lookup hostname = some state →
    state.attemptedAt ≤ w.clock ∧ state = .of state.addresses state.attemptedAt

variable {resolver} {w : World} {hostname : String} {now : ℕ}

theorem isFresh_iff {state : HostnameState} (hof : state = .of state.addresses state.attemptedAt) :
    state.isFresh resolver.positiveTtl resolver.negativeTtl now = true ↔
      now - state.attemptedAt < ttlOf resolver state.addresses := by
  obtain ⟨addresses, attemptedAt, resolved⟩ := state
  have hmark : resolved = !addresses.isEmpty := congrArg HostnameState.resolved hof
  subst hmark
  unfold HostnameState.isFresh ttlOf
  cases addresses with
  | nil => simp
  | cons a rest => simp

/-- What is reused has not expired. -/
theorem fresh_some (hstamped : Stamped w) (hclock : w.clock ≤ now) {addresses : List IpNet}
    (h : resolver.fresh w.cache hostname now = some addresses) :
    ∃ state, w.cache.lookup hostname = some state ∧ state.addresses = addresses ∧
      state.attemptedAt ≤ now ∧ now < state.attemptedAt + ttlOf resolver addresses := by
  obtain ⟨state, hstate, hfresh⟩ := Option.bind_eq_some_iff.mp h
  obtain ⟨hpast, hof⟩ := hstamped hostname state hstate
  split at hfresh
  · rename_i hyes
    cases hfresh
    have hlt := (isFresh_iff hof).mp hyes
    exact ⟨state, hstate, rfl, by omega, by omega⟩
  · cases hfresh

/-- What is not reused is due. -/
theorem fresh_none (hstamped : Stamped w) (hclock : w.clock ≤ now)
    (h : resolver.fresh w.cache hostname now = none) : dueAt resolver w.cache hostname ≤ now := by
  unfold dueAt
  cases hstate : w.cache.lookup hostname with
  | none => exact Nat.zero_le _
  | some state =>
      obtain ⟨hpast, hof⟩ := hstamped hostname state hstate
      unfold DnsResolver.fresh at h
      rw [hstate, Option.bind_some] at h
      have hstale : ¬ now - state.attemptedAt < ttlOf resolver state.addresses := by
        intro hlt
        rw [if_pos ((isFresh_iff hof).mpr hlt)] at h
        cases h
      change state.attemptedAt + ttlOf resolver state.addresses ≤ now
      omega

theorem Stamped.later (h : Stamped w) (hclock : w.clock ≤ now) (locked : Bool) :
    Stamped ⟨w.cache, locked, now⟩ := by
  intro name state hstate
  obtain ⟨hpast, hof⟩ := h name state hstate
  exact ⟨le_trans hpast hclock, hof⟩

theorem Stamped.insert (h : Stamped w) (hclock : w.clock ≤ now) (addresses : List IpNet) :
    Stamped ⟨w.cache.insert hostname (.of addresses now), false, now⟩ := by
  intro name state hstate
  by_cases hname : name = hostname
  · subst hname
    rw [AList.lookup_insert] at hstate
    cases hstate
    exact ⟨le_refl _, rfl⟩
  · rw [AList.lookup_insert_ne hname] at hstate
    obtain ⟨hpast, hof⟩ := h name state hstate
    exact ⟨le_trans hpast hclock, hof⟩

theorem dueAt_insert (cache : Store String HostnameState) (state : HostnameState) :
    dueAt resolver (cache.insert hostname state) hostname = expiry resolver state := by
  rw [dueAt, AList.lookup_insert]
  rfl

theorem dueAt_insert_ne {name : String} (cache : Store String HostnameState) (state : HostnameState)
    (hname : name ≠ hostname) :
    dueAt resolver (cache.insert hostname state) name = dueAt resolver cache name := by
  rw [dueAt, AList.lookup_insert_ne hname, dueAt]

end Times

section Journal
variable {I : Type} (resolver : DnsResolver)

/-- The answers to lookups of the name, in the order they were stored. -/
def storedAnswers (hostname : String) (j : List (Entry Answer I World)) : List HostnameState :=
  j.filterMap fun en => storedAnswer hostname en.call en.answer

/-- A list for the name comes from a lookup of its own, or it is the latest answer for
the name and has not expired. -/
def FromLookup (hostname : String) (addresses : List IpNet) (past : List (Entry Answer I World))
    (en : Entry Answer I World) : Prop :=
  (∃ state, storedAnswer hostname en.call en.answer = some state ∧ state.addresses = addresses) ∨
    ∃ state, (storedAnswers hostname past).getLast? = some state ∧ state.addresses = addresses ∧
      state.attemptedAt ≤ en.after.clock ∧
      en.after.clock < state.attemptedAt + ttlOf resolver addresses

/-- Among the entries the lookup of the name by the task has ended. If it has brought an
answer and none of the entries forces a lookup of the name, the answer expires by the
time given. -/
def EndedBy (hostname : String) (i : I) (since : List (Entry Answer I World)) (time : ℕ) : Prop :=
  ∃ fin ∈ since, fin.thread = i ∧ fin.call = .finishLookup hostname ∧
    ∀ state, storedAnswer hostname fin.call fin.answer = some state →
      (∀ en ∈ since, en.call ≠ .lockWrite hostname) → expiry resolver state ≤ time

def LookedUp (past : List (Entry Answer I World)) (en : Entry Answer I World) : Prop :=
  ∀ hostname addresses, returned en.call en.answer = some (hostname, addresses) →
    FromLookup resolver hostname addresses past en

/-- A lookup starts only when the earlier ones have ended and expired. -/
def Spaced (past : List (Entry Answer I World)) (en : Entry Answer I World) : Prop :=
  ∀ hostname, starts hostname en.call en.answer = true → ∀ earlier first since,
    past = earlier ++ first :: since → starts hostname first.call first.answer = true →
    EndedBy resolver hostname first.thread since en.after.clock

variable {resolver}

theorem storedAnswers_snoc (hostname : String) (j : List (Entry Answer I World))
    (en : Entry Answer I World) :
    storedAnswers hostname (j ++ [en]) =
      storedAnswers hostname j ++ (storedAnswer hostname en.call en.answer).toList := by
  unfold storedAnswers
  rw [List.filterMap_append, List.filterMap_cons]
  cases storedAnswer hostname en.call en.answer <;> rfl

theorem latest_snoc {j : List (Entry Answer I World)} {cache : Store String HostnameState}
    {en : Entry Answer I World}
    (hlatest : ∀ name, cache.lookup name = (storedAnswers name j).getLast?)
    (hstored : ∀ name, storedAnswer name en.call en.answer = none) (name : String) :
    cache.lookup name = (storedAnswers name (j ++ [en])).getLast? := by
  rw [storedAnswers_snoc, hstored, Option.toList_none, List.append_nil]
  exact hlatest name

theorem spaced_of_not_starts {past : List (Entry Answer I World)} {en : Entry Answer I World}
    (hstarts : ∀ name, starts name en.call en.answer = false) : Spaced resolver past en := by
  intro name hstart
  rw [hstarts] at hstart
  cases hstart

theorem EndedBy.mono {hostname : String} {i : I} {since : List (Entry Answer I World)}
    {time time' : ℕ} (h : EndedBy resolver hostname i since time) (hle : time ≤ time') :
    EndedBy resolver hostname i since time' := by
  obtain ⟨fin, hfin, hthread, hcall, hexpiry⟩ := h
  refine ⟨fin, hfin, hthread, hcall, ?_⟩
  intro state hstate hnone
  exact le_trans (hexpiry state hstate hnone) hle

/-- One more entry, and a time that has moved on unless a lookup was forced. -/
theorem EndedBy.snoc {hostname : String} {i : I} {since : List (Entry Answer I World)}
    {time time' : ℕ} {en : Entry Answer I World} (h : EndedBy resolver hostname i since time)
    (hle : (∀ en ∈ since, en.call ≠ .lockWrite hostname) → time ≤ time') :
    EndedBy resolver hostname i (since ++ [en]) time' := by
  obtain ⟨fin, hfin, hthread, hcall, hexpiry⟩ := h
  refine ⟨fin, List.mem_append_left _ hfin, hthread, hcall, ?_⟩
  intro state hstate hnone
  have hsince : ∀ en ∈ since, en.call ≠ .lockWrite hostname :=
    fun f hf => hnone f (List.mem_append_left _ hf)
  exact le_trans (hexpiry state hstate hsince) (hle hsince)

/-- After a failed lookup of a name, addresses for it come from a later one only. -/
theorem later_of_failed {past : List (Entry Answer I World)} {en : Entry Answer I World}
    (hjustified : LookedUp resolver past en) {hostname : String} {addresses : List IpNet}
    (hreturned : returned en.call en.answer = some (hostname, addresses)) (hne : addresses ≠ [])
    {earlier since : List (Entry Answer I World)} {fin : Entry Answer I World}
    {state : HostnameState} (hsplit : past = earlier ++ fin :: since)
    (hstate : storedAnswer hostname fin.call fin.answer = some state)
    (hfailed : state.addresses = []) :
    ∃ later ∈ since ++ [en], ∃ state', storedAnswer hostname later.call later.answer = some state' ∧
      state'.addresses = addresses := by
  rcases hjustified hostname addresses hreturned with ⟨state', hown, haddresses⟩ |
      ⟨state', hlast, haddresses, -⟩
  · exact ⟨en, List.mem_append_right _ (List.mem_singleton_self _), state', hown, haddresses⟩
  · have hanswers : storedAnswers hostname past =
        storedAnswers hostname earlier ++ state :: storedAnswers hostname since := by
      rw [hsplit]
      simp [storedAnswers, hstate]
    rw [hanswers, List.getLast?_append] at hlast
    -- the latest answer is not the failed one
    cases hsince : (storedAnswers hostname since).getLast? with
    | none =>
        rw [List.getLast?_eq_none_iff] at hsince
        rw [hsince, List.getLast?_singleton, Option.some_or, Option.some.injEq] at hlast
        rw [hlast, haddresses] at hfailed
        exact absurd hfailed hne
    | some last =>
        rw [List.getLast?_cons, hsince, Option.getD_some, Option.some_or,
          Option.some.injEq] at hlast
        obtain ⟨later, hlater, hstored⟩ := List.mem_filterMap.mp (List.mem_of_getLast? hsince)
        rw [hlast] at hstored
        exact ⟨later, List.mem_append_left _ hlater, state', hstored, haddresses⟩

end Journal

section Spacing
variable {I : Type} (resolver : DnsResolver)

/-- What is known of the lookups that calls of `resolve` have started:

* one that is under way was due when it started;
* none has started since the start of a forced one that is under way;
* one that is no longer under way has ended, and its answer expires no later than the
  one that is cached now. -/
structure Spacing (j : List (Entry Answer I World)) (ms : I → Stand)
    (cache : Store String HostnameState) (clock : ℕ) : Prop where
  due : ∀ i hostname, (ms i).holding = some (hostname, false) →
    dueAt resolver cache hostname ≤ clock
  forced : ∀ i hostname, (ms i).holding = some (hostname, true) → ∀ earlier first since,
    j = earlier ++ first :: since → starts hostname first.call first.answer = true →
    ∃ en ∈ since, en.call = .lockWrite hostname
  ended : ∀ earlier first since hostname, j = earlier ++ first :: since →
    starts hostname first.call first.answer = true →
    (ms first.thread).holding = some (hostname, false) ∨
      EndedBy resolver hostname first.thread since (dueAt resolver cache hostname)

variable {resolver} {j : List (Entry Answer I World)} {ms : I → Stand}
  {cache : Store String HostnameState} {clock clock' : ℕ} {en : Entry Answer I World}

/-- An entry that starts no lookup comes after all that do. -/
theorem earlier_of_starts {hostname : String} {earlier since : List (Entry Answer I World)}
    {first : Entry Answer I World} (hstarts : ∀ name, starts name en.call en.answer = false)
    (hsplit : j ++ [en] = earlier ++ first :: since)
    (hfirst : starts hostname first.call first.answer = true) :
    ∃ since', since = since' ++ [en] ∧ j = earlier ++ first :: since' := by
  rcases split_snoc hsplit with ⟨-, rfl, -⟩ | hold
  · rw [hstarts] at hfirst
    cases hfirst
  · exact hold

/-- A step that neither starts a lookup nor ends one. -/
theorem Spacing.quiet {ms' : I → Stand} (h : Spacing resolver j ms cache clock)
    (hholding : ∀ k, (ms' k).holding = (ms k).holding)
    (hstarts : ∀ hostname, starts hostname en.call en.answer = false) (hclock : clock ≤ clock') :
    Spacing resolver (j ++ [en]) ms' cache clock' where
  due i hostname hi := by
    rw [hholding] at hi
    exact le_trans (h.due i hostname hi) hclock
  forced i hostname hi earlier first since hsplit hfirst := by
    rw [hholding] at hi
    obtain ⟨since', rfl, hold⟩ := earlier_of_starts hstarts hsplit hfirst
    obtain ⟨f, hf, hcall⟩ := h.forced i hostname hi earlier first since' hold hfirst
    exact ⟨f, List.mem_append_left _ hf, hcall⟩
  ended earlier first since hostname hsplit hfirst := by
    rw [hholding]
    obtain ⟨since', rfl, hold⟩ := earlier_of_starts hstarts hsplit hfirst
    rcases h.ended earlier first since' hostname hold hfirst with hunder | hended
    · exact .inl hunder
    · exact .inr (hended.snoc fun _ => le_refl _)

/-- With the lock free, every lookup has ended. -/
theorem Spacing.all_ended (h : Spacing resolver j ms cache clock)
    (hfree : ∀ i, (ms i).holding = none) {earlier since : List (Entry Answer I World)}
    {first : Entry Answer I World} {hostname : String} (hsplit : j = earlier ++ first :: since)
    (hfirst : starts hostname first.call first.answer = true) :
    EndedBy resolver hostname first.thread since (dueAt resolver cache hostname) := by
  rcases h.ended earlier first since hostname hsplit hfirst with hunder | hended
  · rw [hfree] at hunder
    cases hunder
  · exact hended

variable [DecidableEq I] {i : I} {hostname : String} {m' : Stand}

/-- The lock was free, so the one who has taken it is in the only lookup. -/
theorem lookup_of_holding {lookup lookup' : String × Bool} {k : I}
    (hfree : ∀ k, (ms k).holding = none) (hm' : m'.holding = some lookup)
    (hk : (Function.update ms i m' k).holding = some lookup') : lookup = lookup' := by
  by_cases hki : k = i
  · rw [hki, Function.update_self, hm'] at hk
    exact Option.some.inj hk
  · rw [Function.update_of_ne hki, hfree] at hk
    cases hk

/-- A call of `resolve` has found nothing fresh, and starts a lookup. -/
theorem Spacing.start (h : Spacing resolver j ms cache clock) (hfree : ∀ k, (ms k).holding = none)
    (hm' : m'.holding = some (hostname, false)) (hthread : en.thread = i)
    (hstarts : ∀ name, starts name en.call en.answer = true → name = hostname)
    (hdue : dueAt resolver cache hostname ≤ clock') :
    Spacing resolver (j ++ [en]) (Function.update ms i m') cache clock' where
  due k name hk := by
    cases lookup_of_holding hfree hm' hk
    exact hdue
  forced k name hk := by cases lookup_of_holding hfree hm' hk
  ended earlier first since name hsplit hfirst := by
    rcases split_snoc hsplit with ⟨-, rfl, -⟩ | ⟨since', rfl, hold⟩
    · rw [hthread, Function.update_self, hm', hstarts name hfirst]
      exact .inl rfl
    · exact .inr ((h.all_ended hfree hold hfirst).snoc fun _ => le_refl _)

/-- The start of a forced lookup. -/
theorem Spacing.force (h : Spacing resolver j ms cache clock) (hfree : ∀ k, (ms k).holding = none)
    (hm' : m'.holding = some (hostname, true)) (hcall : en.call = .lockWrite hostname)
    (hstarts : ∀ name, starts name en.call en.answer = false) :
    Spacing resolver (j ++ [en]) (Function.update ms i m') cache clock' where
  due k name hk := by cases lookup_of_holding hfree hm' hk
  forced k name hk earlier first since hsplit hfirst := by
    cases lookup_of_holding hfree hm' hk
    obtain ⟨since', rfl, -⟩ := earlier_of_starts hstarts hsplit hfirst
    exact ⟨en, List.mem_append_right _ (List.mem_singleton_self _), hcall⟩
  ended earlier first since name hsplit hfirst := by
    obtain ⟨since', rfl, hold⟩ := earlier_of_starts hstarts hsplit hfirst
    exact .inr ((h.all_ended hfree hold hfirst).snoc fun _ => le_refl _)

/-- The lookup of the holder ends, with an answer or without. -/
theorem Spacing.finish {cache' : Store String HostnameState} {forced : Bool}
    (h : Spacing resolver j ms cache clock) (honly : ∀ k, k ≠ i → (ms k).holding = none)
    (hi : (ms i).holding = some (hostname, forced)) (hm' : m'.holding = none)
    (hthread : en.thread = i) (hcall : en.call = .finishLookup hostname)
    (hstarts : ∀ name, starts name en.call en.answer = false)
    (hstored : ∀ state, storedAnswer hostname en.call en.answer = some state →
      expiry resolver state ≤ dueAt resolver cache' hostname)
    (hlater : dueAt resolver cache hostname ≤ clock →
      dueAt resolver cache hostname ≤ dueAt resolver cache' hostname)
    (hothers : ∀ name, name ≠ hostname → dueAt resolver cache' name = dueAt resolver cache name) :
    Spacing resolver (j ++ [en]) (Function.update ms i m') cache' clock' := by
  have hfree : ∀ k, (Function.update ms i m' k).holding = none := by
    intro k
    by_cases hki : k = i
    · rw [hki, Function.update_self]
      exact hm'
    · rw [Function.update_of_ne hki]
      exact honly k hki
  refine ⟨?_, ?_, ?_⟩
  · intro k name hk
    rw [hfree] at hk
    cases hk
  · intro k name hk
    rw [hfree] at hk
    cases hk
  · intro earlier first since name hsplit hfirst
    refine .inr ?_
    obtain ⟨since', rfl, hold⟩ := earlier_of_starts hstarts hsplit hfirst
    rcases h.ended earlier first since' name hold hfirst with hunder | hended
    · -- the lookup that ends is this one
      have hfirstThread : first.thread = i := by
        by_contra hne
        rw [honly first.thread hne] at hunder
        cases hunder
      rw [hfirstThread, hi] at hunder
      cases hunder
      refine ⟨en, List.mem_append_right _ (List.mem_singleton_self _), ?_, hcall, ?_⟩
      · rw [hthread, hfirstThread]
      · intro state hstate _
        exact hstored state hstate
    · refine hended.snoc fun hnone => ?_
      by_cases hname : name = hostname
      · subst hname
        cases forced with
        | true =>
            obtain ⟨f, hf, hlock⟩ := h.forced i name hi earlier first since' hold hfirst
            exact absurd hlock (hnone f hf)
        | false => exact hlater (h.due i name hi)
      · rw [hothers name hname]

end Spacing

section Steps
variable {I : Type} [DecidableEq I] (resolver : DnsResolver)

structure Orderly (j : List (Entry Answer I World)) (ms : I → Stand) (w : World) : Prop where
  exclusive : Exclusive (fun m => m.holding.isSome) ms w.locked
  stamped : Stamped w
  /-- The cache holds the latest answer for each name. -/
  latest : ∀ hostname, w.cache.lookup hostname = (storedAnswers hostname j).getLast?
  spacing : Spacing resolver j ms w.cache w.clock
  results : ∀ i, (ms i).results = (ownEntries i j).filterMap fun en => returned en.call en.answer
  justified : Throughout (LookedUp resolver) j
  spaced : Throughout (Spaced resolver) j

variable {resolver} {j : List (Entry Answer I World)} {ms : I → Stand} {w w' : World} {i : I}
  {hostname : String} {now : ℕ}

theorem Orderly.free (h : Orderly resolver j ms w) (hlocked : w.locked = false) (k : I) :
    (ms k).holding = none :=
  Option.isSome_eq_false_iff.mp (h.exclusive.free hlocked k) |> Option.isNone_iff_eq_none.mp

theorem Orderly.results_snoc (h : Orderly resolver j ms w) (c : Call) (r : Answer c) (k : I) :
    (Function.update ms i ((ms i).next c r) k).results =
      (ownEntries k (j ++ [⟨i, c, r, w, w'⟩])).filterMap fun en => returned en.call en.answer := by
  rw [ownEntries_append, List.filterMap_append, ← h.results]
  by_cases hk : i = k
  · subst hk
    have hself : ownEntries i [(⟨i, c, r, w, w'⟩ : Entry Answer I World)] = [⟨i, c, r, w, w'⟩] :=
      ownEntries_self rfl
    rw [hself, Function.update_self, List.filterMap_cons]
    cases hreturned : returned c r <;> simp [Stand.next, hreturned]
  · rw [ownEntries_other hk, Function.update_of_ne (Ne.symm hk), List.filterMap_nil,
      List.append_nil]

/-- A check leaves everything as it is, but for the clock. What it returns is fresh. -/
theorem Orderly.check {c : Call} {r : Answer c} (h : Orderly resolver j ms w)
    (hclock : w.clock ≤ now) (hheld : held (ms i).holding c r = (ms i).holding)
    (hstarts : ∀ name, starts name c r = false) (hstored : ∀ name, storedAnswer name c r = none)
    (hfresh : ∀ name addresses, returned c r = some (name, addresses) →
      resolver.fresh w.cache name now = some addresses) :
    Orderly resolver (j ++ [⟨i, c, r, w, { w with clock := now }⟩])
      (Function.update ms i ((ms i).next c r)) { w with clock := now } where
  exclusive := h.exclusive.keep (congrArg Option.isSome hheld)
  stamped := h.stamped.later hclock w.locked
  latest := latest_snoc h.latest hstored
  spacing := by
    refine h.spacing.quiet ?_ hstarts hclock
    intro k
    by_cases hk : k = i
    · rw [hk, Function.update_self]
      exact hheld
    · rw [Function.update_of_ne hk]
  results := h.results_snoc c r
  justified := by
    refine h.justified.snoc ?_
    intro name addresses hreturned
    obtain ⟨state, hstate, haddresses, hpast, hlt⟩ :=
      fresh_some h.stamped hclock (hfresh name addresses hreturned)
    rw [h.latest] at hstate
    exact .inr ⟨state, hstate, haddresses, hpast, hlt⟩
  spaced := h.spaced.snoc (spaced_of_not_starts hstarts)

/-- Nothing fresh is found under the write lock. -/
theorem Orderly.startLookup (h : Orderly resolver j ms w) (hlocked : w.locked = false)
    (hclock : w.clock ≤ now) (hstale : resolver.fresh w.cache hostname now = none) :
    Orderly resolver (j ++ [⟨i, .checkWrite hostname, none, w, ⟨w.cache, true, now⟩⟩])
      (Function.update ms i ((ms i).next (.checkWrite hostname) none)) ⟨w.cache, true, now⟩ := by
  have hdue := fresh_none h.stamped hclock hstale
  have hstarts : ∀ name, starts name (.checkWrite hostname) none = true → name = hostname := by
    intro name hname
    exact (of_decide_eq_true hname).symm
  have hexclusive := h.exclusive
  rw [hlocked] at hexclusive
  refine ⟨hexclusive.acquire _, h.stamped.later hclock true, latest_snoc h.latest fun _ => rfl,
    h.spacing.start (h.free hlocked) rfl rfl hstarts hdue, h.results_snoc _ _, h.justified.snoc ?_,
    h.spaced.snoc ?_⟩
  · intro name addresses hreturned
    cases hreturned
  · intro name hname earlier first since hsplit hfirst
    obtain rfl := hstarts name hname
    exact (h.spacing.all_ended (h.free hlocked) hsplit hfirst).mono hdue

theorem Orderly.forceLookup (h : Orderly resolver j ms w) (hlocked : w.locked = false)
    (hclock : w.clock ≤ now) :
    Orderly resolver (j ++ [⟨i, .lockWrite hostname, (), w, ⟨w.cache, true, now⟩⟩])
      (Function.update ms i ((ms i).next (.lockWrite hostname) ())) ⟨w.cache, true, now⟩ := by
  have hexclusive := h.exclusive
  rw [hlocked] at hexclusive
  refine ⟨hexclusive.acquire _, h.stamped.later hclock true, latest_snoc h.latest fun _ => rfl,
    h.spacing.force (h.free hlocked) rfl rfl fun _ => rfl, h.results_snoc _ _, h.justified.snoc ?_,
    h.spaced.snoc (spaced_of_not_starts fun _ => rfl)⟩
  intro name addresses hreturned
  cases hreturned

/-- Only the holder can be in a lookup. -/
theorem Orderly.only (h : Orderly resolver j ms w) {forced : Bool}
    (hi : (ms i).holding = some (hostname, forced)) (k : I) (hk : k ≠ i) :
    (ms k).holding = none := by
  cases hholding : (ms k).holding with
  | none => rfl
  | some lookup =>
      refine absurd (h.exclusive.one k i ?_ ?_) hk
      · rw [hholding]
        rfl
      · rw [hi]
        rfl

theorem Orderly.dropLookup {forced : Bool} (h : Orderly resolver j ms w)
    (hi : (ms i).holding = some (hostname, forced)) :
    Orderly resolver (j ++ [⟨i, .finishLookup hostname, none, w, { w with locked := false }⟩])
      (Function.update ms i ((ms i).next (.finishLookup hostname) none))
        { w with locked := false } := by
  refine ⟨h.exclusive.release (by rw [hi]; rfl) rfl, h.stamped.later (le_refl _) false,
    latest_snoc h.latest fun _ => rfl, ?_, h.results_snoc _ _, h.justified.snoc ?_,
    h.spaced.snoc (spaced_of_not_starts fun _ => rfl)⟩
  · refine h.spacing.finish (h.only hi) hi rfl rfl rfl (fun _ => rfl) ?_
      (fun _ => le_refl _) fun _ _ => rfl
    intro state hstate
    cases hstate
  · intro name addresses hreturned
    cases hreturned

theorem Orderly.storeLookup {forced : Bool} (h : Orderly resolver j ms w)
    (hi : (ms i).holding = some (hostname, forced)) (hclock : w.clock ≤ now)
    (addresses : List IpNet) :
    Orderly resolver (j ++ [⟨i, .finishLookup hostname, some (.of addresses now), w,
        ⟨w.cache.insert hostname (.of addresses now), false, now⟩⟩])
      (Function.update ms i ((ms i).next (.finishLookup hostname) (some (.of addresses now))))
      ⟨w.cache.insert hostname (.of addresses now), false, now⟩ := by
  have hown : storedAnswer hostname (.finishLookup hostname) (some (.of addresses now)) =
      some (.of addresses now) := if_pos rfl
  refine ⟨h.exclusive.release (by rw [hi]; rfl) rfl, h.stamped.insert hclock addresses, ?_, ?_,
    h.results_snoc _ _, h.justified.snoc ?_, h.spaced.snoc (spaced_of_not_starts fun _ => rfl)⟩
  · intro name
    rw [storedAnswers_snoc]
    by_cases hname : name = hostname
    · subst hname
      rw [AList.lookup_insert, hown]
      simp
    · have hother : storedAnswer name (.finishLookup hostname) (some (.of addresses now)) = none :=
        if_neg (Ne.symm hname)
      rw [AList.lookup_insert_ne hname, hother, h.latest]
      simp
  · refine h.spacing.finish (h.only hi) hi rfl rfl rfl (fun _ => rfl) ?_ ?_ ?_
    · intro state hstate
      rw [hown] at hstate
      cases hstate
      rw [dueAt_insert]
    · intro hdue
      rw [dueAt_insert]
      exact le_trans hdue (le_trans hclock (Nat.le_add_right _ _))
    · intro name hname
      exact dueAt_insert_ne _ _ hname
  · intro name addresses' hreturned
    cases hreturned
    exact .inl ⟨_, hown, rfl⟩

theorem Orderly.step {c : Call} {e : Choice} {r : Answer c} (h : Orderly resolver j ms w)
    (hpermits : mayCall (ms i).holding c) (hexec : exec resolver c e w = some (r, w')) :
    Orderly resolver (j ++ [⟨i, c, r, w, w'⟩]) (Function.update ms i ((ms i).next c r)) w' := by
  cases c with
  | checkRead hostname =>
      obtain ⟨-, now, hclock, hr, rfl⟩ := exec_checkRead hexec
      refine h.check hclock ?_ ?_ ?_ ?_
      · cases r <;> rfl
      · intro name
        cases r <;> rfl
      · intro name
        cases r <;> rfl
      · intro name addresses hreturned
        cases r with
        | none => cases hreturned
        | some found =>
            cases hreturned
            exact hr.symm
  | checkWrite hostname =>
      obtain ⟨hlocked, now, hclock, hr, rfl⟩ := exec_checkWrite hexec
      cases r with
      | none => exact h.startLookup hlocked hclock hr.symm
      | some found =>
          have hsame : ({ w with locked := (some found).isNone, clock := now } : World) =
              { w with clock := now } := by
            rw [hlocked]
            rfl
          rw [hsame]
          refine h.check hclock rfl (fun _ => rfl) (fun _ => rfl) ?_
          intro name addresses hreturned
          cases hreturned
          exact hr.symm
  | lockWrite hostname =>
      obtain ⟨hlocked, now, hclock, rfl⟩ := exec_lockWrite hexec
      exact h.forceLookup hlocked hclock
  | finishLookup hostname =>
      cases hholding : (ms i).holding with
      | none =>
          rw [hholding] at hpermits
          exact hpermits.elim
      | some lookup =>
          obtain ⟨name, forced⟩ := lookup
          rw [hholding] at hpermits
          obtain rfl : hostname = name := hpermits
          rcases exec_finishLookup hexec with ⟨rfl, rfl⟩ | ⟨addresses, now, hclock, rfl, rfl⟩
          · exact h.dropLookup hholding
          · exact h.storeLookup hholding hclock addresses

end Steps

section Runs
variable {I : Type} [DecidableEq I] {resolver : DnsResolver} {tasks : I → Task} {t₀ : ℕ}
  {events : List (Event I Choice Empty)} {p : Process I}

theorem run_orderly (hrun : Interleaving.run (system resolver) (process tasks t₀) events = some p) :
    ∃ ms, Watched (fun _ => calling) (fun i => Reports (tasks i))
      (fun past => Orderly resolver (journal (system resolver) (process tasks t₀) past))
      events p ms := by
  have hinit : Watched (fun _ => calling) (fun i => Reports (tasks i))
      (fun past => Orderly resolver (journal (system resolver) (process tasks t₀) past)) []
      (process tasks t₀) (fun _ => ⟨none, []⟩) := by
    refine ⟨fun i => program_follows (tasks i), Exclusive.start fun _ => rfl, ?_, fun _ => rfl, ?_,
      fun _ => rfl, Throughout.nil, Throughout.nil⟩
    · intro hostname state hstate
      cases hstate
    · refine ⟨nofun, nofun, ?_⟩
      intro earlier first since hostname hsplit
      exact absurd hsplit (by simp [journal])
  refine run_watched _ _ _ (fun _ _ => True) hinit ?_ ?_ hrun fun _ _ _ _ _ _ => trivial
  · intro past p ms i e c next r w' hp hms hc _ hpermits hexec
    refine ⟨(ms i).next c r, rfl, ?_⟩
    rw [journal_append_singleton hp, entries_act hc hexec]
    exact hms.inv.step hpermits hexec
  · intro past p ms change
    exact change.elim

/-- A result noted by a task was returned by one of its steps. -/
theorem returned_of_results {j : List (Entry Answer I World)} {ms : I → Stand} {w : World}
    (h : Orderly resolver j ms w) {i : I} {result : String × List IpNet}
    (hmem : result ∈ (ms i).results) :
    ∃ en ∈ j, en.thread = i ∧ returned en.call en.answer = some result := by
  rw [h.results] at hmem
  obtain ⟨en, hen, hreturned⟩ := List.mem_filterMap.mp hmem
  obtain ⟨hj, hthread⟩ := List.mem_filter.mp hen
  exact ⟨en, hj, of_decide_eq_true hthread, hreturned⟩

omit [DecidableEq I] in
theorem reports_of_outcome {ms : I → Stand} {past : List (Event I Choice Empty)}
    {Inv : List (Event I Choice Empty) → (I → Stand) → World → Prop}
    (h : Watched (fun _ => calling) (fun i => Reports (tasks i)) Inv past p ms) {i : I}
    {outcome : Option Result} (houtcome : p.outcome i = some outcome) :
    Reports (tasks i) (ms i) outcome := by
  have hi := h.follows i
  rw [Pool.outcome_eq_some.mp houtcome] at hi
  exact follows_value.mp hi

end Runs

/-- Any calls beside each other, for any names, with any answers at any times.

* Every list returned for a name comes from a lookup of that very name: one of the call's
  own, or the latest that has ended before, and then less than the time to live of its
  answer ago. What a task that calls `resolve` ends with is such a list.
* When calls of `resolve` start two lookups of one name, the first has ended before the
  second starts. If it has brought an answer and no `force_resolve` of the name came in
  between, the answer's time to live has passed too.
* After a lookup that has failed, no addresses are returned for the name but those of a
  later lookup. -/
theorem dns_answers_fresh {I : Type} [DecidableEq I] {resolver : DnsResolver} {tasks : I → Task}
    {t₀ : ℕ} {events : List (Event I Choice Empty)} {p : Process I}
    (hrun : Interleaving.run (system resolver) (process tasks t₀) events = some p) :
    (∀ past en rest hostname addresses,
      journal (system resolver) (process tasks t₀) events = past ++ en :: rest →
      returned en.call en.answer = some (hostname, addresses) →
      FromLookup resolver hostname addresses past en) ∧
    (∀ i hostname nets, tasks i = .resolve hostname → p.outcome i = some (some (.networks nets)) →
      ∃ en ∈ journal (system resolver) (process tasks t₀) events,
        en.thread = i ∧ returned en.call en.answer = some (hostname, nets)) ∧
    (∀ earlier first since second rest hostname,
      journal (system resolver) (process tasks t₀) events =
        earlier ++ first :: (since ++ second :: rest) →
      starts hostname first.call first.answer = true →
      starts hostname second.call second.answer = true →
      EndedBy resolver hostname first.thread since second.after.clock) ∧
    ∀ earlier fin since en rest hostname state addresses,
      journal (system resolver) (process tasks t₀) events =
        earlier ++ fin :: (since ++ en :: rest) →
      storedAnswer hostname fin.call fin.answer = some state → state.addresses = [] →
      returned en.call en.answer = some (hostname, addresses) → addresses ≠ [] →
      ∃ later ∈ since ++ [en], ∃ state', storedAnswer hostname later.call later.answer =
        some state' ∧
        state'.addresses = addresses := by
  obtain ⟨ms, hms⟩ := run_orderly hrun
  refine ⟨?_, ?_, ?_, ?_⟩
  · intro past en rest hostname addresses hsplit
    exact hms.inv.justified past en rest hsplit hostname addresses
  · intro i hostname nets htask houtcome
    have hends := reports_of_outcome hms houtcome
    rw [htask] at hends
    have hresults : (ms i).results = [(hostname, nets)] := hends nets rfl
    apply returned_of_results hms.inv
    rw [hresults]
    exact List.mem_singleton_self _
  · intro earlier first since second rest hostname hsplit hfirst hsecond
    have hspaced := hms.inv.spaced (earlier ++ first :: since) second rest (by rw [hsplit]; simp)
    exact hspaced hostname hsecond earlier first since rfl hfirst
  · intro earlier fin since en rest hostname state addresses hsplit hstate hfailed hreturned hne
    have hjustified := hms.inv.justified (earlier ++ fin :: since) en rest (by rw [hsplit]; simp)
    exact later_of_failed hjustified hreturned hne rfl hstate hfailed

/-- Three calls for one name. -/
def proxyTasks (_ : Fin 3) : Task := .resolve "proxy"

/-- The first looks the name up, the second finds the answer. The third comes after
thirty seconds and looks again, without success. -/
def proxyEvents : List (Event (Fin 3) Choice Empty) :=
  [.act 0 (.instant 0), .act 0 (.instant 0), .act 0 (.answered 1 (some [.v4 0x0a000001#32])),
    .act 1 (.instant 2), .act 2 (.instant 30000000001), .act 2 (.instant 30000000001),
    .act 2 (.answered 30000000002 none)]

theorem dns_answers_fresh_proxy :
    ∃ p, Interleaving.run (system .new) (process proxyTasks 0) proxyEvents = some p ∧
      p.outcome 2 = some (some (.networks [])) ∧
      p.outcome 1 = some (some (.networks [.fromAddr (.v4 0x0a000001#32)])) ∧
      ∃ past en rest, journal (system .new) (process proxyTasks 0) proxyEvents = past ++
        en :: rest ∧
        en.thread = 1 ∧ FromLookup .new "proxy" [.fromAddr (.v4 0x0a000001#32)] past en := by
  have hends : (Interleaving.run (system .new) (process proxyTasks 0) proxyEvents).map
      (fun p => (p.outcome 2, p.outcome 1)) =
      some (some (some (.networks [])),
        some (some (.networks [.fromAddr (.v4 0x0a000001#32)]))) := by
    decide +kernel
  obtain ⟨p, hrun, houtcomes⟩ := Option.map_eq_some_iff.mp hends
  obtain ⟨hfailed, hfound⟩ := Prod.mk.inj houtcomes
  obtain ⟨hfresh, hresult, -⟩ := dns_answers_fresh hrun
  obtain ⟨en, hen, hthread, hreturned⟩ := hresult 1 "proxy" _ rfl hfound
  obtain ⟨past, rest, hsplit⟩ := List.append_of_mem hen
  exact ⟨p, hrun, hfailed, hfound, past, en, rest, hsplit, hthread,
    hfresh past en rest "proxy" _ hsplit hreturned⟩

section Consumers
variable {I : Type} [DecidableEq I] {resolver : DnsResolver} {tasks : I → Task} {t₀ : ℕ}
  {events : List (Event I Choice Empty)} {p : Process I} {i : I} {proxies : TrustedProxies}

/-- Proxies are trusted for the networks configured, and for one list for each name in
turn, each of them fresh when it was returned. -/
theorem resolved_networks
    (hrun : Interleaving.run (system resolver) (process tasks t₀) events = some p)
    (htask : tasks i = .resolved proxies) {nets : List IpNet}
    (houtcome : p.outcome i = some (some (.networks nets))) :
    ∃ results : List (String × List IpNet), results.map Prod.fst = proxies.hostnames ∧
      nets = proxies.networks ++ results.flatMap Prod.snd ∧
      ∀ result ∈ results, ∃ past en rest,
        journal (system resolver) (process tasks t₀) events = past ++ en :: rest ∧ en.thread = i ∧
          FromLookup resolver result.1 result.2 past en := by
  obtain ⟨ms, hms⟩ := run_orderly hrun
  have hends := reports_of_outcome hms houtcome
  rw [htask] at hends
  obtain ⟨hnames, hnets⟩ := hends nets rfl
  refine ⟨(ms i).results, hnames, hnets, ?_⟩
  intro result hresult
  obtain ⟨en, hen, hthread, hreturned⟩ := returned_of_results hms.inv hresult
  obtain ⟨past, rest, hsplit⟩ := List.append_of_mem hen
  exact ⟨past, en, rest, hsplit, hthread, hms.inv.justified past en rest hsplit _ _ hreturned⟩

/-- At boot the names reported are those for which no address was returned. -/
theorem prime_failed (hrun : Interleaving.run (system resolver) (process tasks t₀) events = some p)
    (htask : tasks i = .prime proxies) {names : List String}
    (houtcome : p.outcome i = some (some (.failed names))) :
    ∃ results : List (String × List IpNet), results.map Prod.fst = proxies.hostnames ∧
      names = (results.filter (·.2.isEmpty)).map Prod.fst ∧
      ∀ result ∈ results, ∃ en ∈ journal (system resolver) (process tasks t₀) events,
        en.thread = i ∧ returned en.call en.answer = some result := by
  obtain ⟨ms, hms⟩ := run_orderly hrun
  have hends := reports_of_outcome hms houtcome
  rw [htask] at hends
  obtain ⟨hhostnames, hnames⟩ := hends names rfl
  refine ⟨(ms i).results, hhostnames, hnames, ?_⟩
  intro result hresult
  exact returned_of_results hms.inv hresult

end Consumers
end SimplyIpExporter.DnsFreshness
