import SimplyIpExporter.PublicFeed

/-!
# What the rate limiter guarantees

Requests come one after the other; the limiter is the only thing they share. The full
responses are kept in a list with the time of each and with whether its address was
not tracked when it came. That list determines the limiter: the latest full response
to a tracked address is the one its entry was written by, and the responses to
addresses that were not tracked are the log of newcomers of the limiter's queue.
-/
namespace SimplyIpExporter.Throttling
open IpAddresses Entities PublicFeed FirstSeenQueues

structure Visit where
  request : FeedRequest
  env : Surroundings

def Visit.client (v : Visit) : IpAddr := v.request.clientIp v.env

def Visit.time (v : Visit) : Instant := v.env.instant

/-- The request gets as far as the limiter. -/
def reachesLimiter (crates : FeedCrates) (v : Visit) : Bool :=
  match prepareFeed crates v.request v.env with
  | .ok _ => true
  | .error _ => false

def answerTo (crates : FeedCrates) (limiter : RateLimiter) (v : Visit) : Served :=
  (serveFeed crates v.request v.env limiter).1

def limiterNext (crates : FeedCrates) (limiter : RateLimiter) (v : Visit) : RateLimiter :=
  (serveFeed crates v.request v.env limiter).2

/-- The status of a response; errors and panics have none here. -/
def Served.status : Served → Option ℕ
  | .responded r => some r.status
  | _ => none

def limiterAfter (crates : FeedCrates) (visits : List Visit) : RateLimiter :=
  visits.foldl (limiterNext crates) .empty

section Request
variable {crates : FeedCrates} {limiter : RateLimiter} {v : Visit}

/-- The limiter has no objection. -/
def Free (limiter : RateLimiter) (v : Visit) : Prop :=
  ∀ next, limiter.entries.lookup v.client = some next → next ≤ v.time

theorem prepareFeed_error_status {answer : Served}
    (h : prepareFeed crates v.request v.env = .error answer) :
    Served.status answer ≠ some 200 ∧ Served.status answer ≠ some 429 := by
  unfold prepareFeed at h
  split at h
  · cases h
    exact ⟨nofun, nofun⟩
  · split at h
    · cases h
      exact ⟨nofun, nofun⟩
    · split at h
      · cases h
        exact ⟨nofun, nofun⟩
      · dsimp only at h
        split at h
        · cases h
          exact ⟨by simp [Served.status], by simp [Served.status]⟩
        · cases h

theorem checkAndRecord_free (h : Free limiter v) : checkAndRecord v.client v.time limiter =
    (.ok (), limiter.record maxTrackedIps v.client (v.time + rateLimitWindow)) := by
  unfold checkAndRecord
  split
  · rename_i next hnext
    rw [if_neg (not_lt.mpr (h next hnext))]
  · rfl

theorem checkAndRecord_busy {next : Instant} (hnext : limiter.entries.lookup v.client = some next)
    (hlt : v.time < next) :
    checkAndRecord v.client v.time limiter = (.error (next - v.time), limiter) := by
  rw [checkAndRecord, hnext]
  exact if_pos hlt

/-- What a request can do: end before the limiter, be served, or be throttled. -/
theorem limiterNext_cases (crates : FeedCrates) (limiter : RateLimiter) (v : Visit) :
    (reachesLimiter crates v = false ∧ Served.status (answerTo crates limiter v) ≠ some 200 ∧
      Served.status (answerTo crates limiter v) ≠ some 429 ∧
      limiterNext crates limiter v = limiter) ∨
    (reachesLimiter crates v = true ∧ Free limiter v ∧
      Served.status (answerTo crates limiter v) = some 200 ∧
      limiterNext crates limiter v =
        limiter.record maxTrackedIps v.client (v.time + rateLimitWindow)) ∨
    (reachesLimiter crates v = true ∧
      (∃ next, limiter.entries.lookup v.client = some next ∧ v.time < next) ∧
      Served.status (answerTo crates limiter v) = some 429 ∧
      limiterNext crates limiter v = limiter) := by
  unfold reachesLimiter answerTo limiterNext serveFeed
  cases hprepare : prepareFeed crates v.request v.env with
  | error early =>
      obtain ⟨hfull, hthrottled⟩ := prepareFeed_error_status hprepare
      exact .inl ⟨rfl, hfull, hthrottled, rfl⟩
  | ok content =>
      by_cases hfree : Free limiter v
      · have hcheck := checkAndRecord_free hfree
        unfold Visit.client Visit.time at hcheck
        exact .inr (.inl ⟨rfl, hfree, by simp only [hcheck]; rfl, by simp only [hcheck]; rfl⟩)
      · simp only [Free, not_forall, not_le] at hfree
        obtain ⟨next, hnext, hlt⟩ := hfree
        have hcheck := checkAndRecord_busy hnext hlt
        unfold Visit.client Visit.time at hcheck
        exact .inr (.inr
          ⟨rfl, ⟨next, hnext, hlt⟩, by simp only [hcheck]; rfl, by simp only [hcheck]⟩)

theorem limiterNext_of_not_full (h : Served.status (answerTo crates limiter v) ≠ some 200) :
    limiterNext crates limiter v = limiter := by
  rcases limiterNext_cases crates limiter v with ⟨-, -, -, hserve⟩ | ⟨-, -, hfull, -⟩ |
    ⟨-, -, -, hserve⟩
  · exact hserve
  · exact absurd hfull h
  · exact hserve

theorem limiterNext_of_full (h : Served.status (answerTo crates limiter v) = some 200) :
    Free limiter v ∧
      limiterNext crates limiter v =
        limiter.record maxTrackedIps v.client (v.time + rateLimitWindow) := by
  rcases limiterNext_cases crates limiter v with ⟨-, hnot, -⟩ | ⟨-, hfree, -, hserve⟩ |
    ⟨-, -, hbusy, -⟩
  · exact absurd h hnot
  · exact ⟨hfree, hserve⟩
  · rw [hbusy] at h
    cases h

theorem throttled_iff (hreaches : reachesLimiter crates v = true) :
    Served.status (answerTo crates limiter v) = some 429 ↔
      ∃ next, limiter.entries.lookup v.client = some next ∧ v.time < next := by
  rcases limiterNext_cases crates limiter v with ⟨hnot, -⟩ | ⟨-, hfree, hfull, -⟩ |
    ⟨-, hbusy, hthrottled, -⟩
  · rw [hreaches] at hnot
    cases hnot
  · constructor
    · intro h
      rw [hfull] at h
      cases h
    · rintro ⟨next, hnext, hlt⟩
      exact absurd (hfree next hnext) (not_le.mpr hlt)
  · exact ⟨fun _ => hbusy, fun _ => hthrottled⟩

end Request

structure FullResponse where
  client : IpAddr
  time : Instant
  /-- The address was not tracked when the request came. -/
  fresh : Bool
  deriving DecidableEq, Repr

def fullResponse (crates : FeedCrates) (limiter : RateLimiter) (v : Visit) : Option FullResponse :=
  if Served.status (answerTo crates limiter v) = some 200 then
    some ⟨v.client, v.time, !decide (limiter.Tracks v.client)⟩
  else none

def fullsFrom (crates : FeedCrates) (limiter : RateLimiter) : List Visit → List FullResponse
  | [] => []
  | v :: visits =>
    (fullResponse crates limiter v).toList ++ fullsFrom crates (limiterNext crates limiter v) visits

/-- The full responses to a sequence of requests, in order. -/
def fulls (crates : FeedCrates) (visits : List Visit) : List FullResponse :=
  fullsFrom crates .empty visits

/-- The latest full response to an address. -/
def lastFull (fs : List FullResponse) (ip : IpAddr) : Option FullResponse :=
  (fs.filter fun f => decide (f.client = ip)).getLast?

/-- The addresses newly tracked, in order. -/
def newcomers (fs : List FullResponse) : List IpAddr := (fs.filter (·.fresh)).map (·.client)

section Sequences
variable {crates : FeedCrates}

theorem fullsFrom_append (limiter : RateLimiter) (xs ys : List Visit) :
    fullsFrom crates limiter (xs ++ ys) =
      fullsFrom crates limiter xs ++
        fullsFrom crates (xs.foldl (limiterNext crates) limiter) ys := by
  induction xs generalizing limiter with
  | nil => rfl
  | cons v xs ih => simp only [List.cons_append, fullsFrom, ih, List.foldl_cons, List.append_assoc]

theorem fulls_concat (visits : List Visit) (v : Visit) :
    fulls crates (visits ++ [v]) =
      fulls crates visits ++ (fullResponse crates (limiterAfter crates visits) v).toList := by
  simp [fulls, fullsFrom_append, fullsFrom, limiterAfter]

theorem limiterAfter_concat (visits : List Visit) (v : Visit) :
    limiterAfter crates (visits ++ [v]) = limiterNext crates (limiterAfter crates visits) v := by
  simp [limiterAfter]

theorem fullsFrom_split (visits : List Visit) (limiter : RateLimiter)
    (past rest : List FullResponse) (f : FullResponse)
    (h : fullsFrom crates limiter visits = past ++ f :: rest) :
    ∃ before v after, visits = before ++ v :: after ∧ fullsFrom crates limiter before = past ∧
      fullResponse crates (before.foldl (limiterNext crates) limiter) v = some f := by
  induction visits generalizing limiter past with
  | nil => simp [fullsFrom] at h
  | cons v visits ih =>
      rw [fullsFrom] at h
      cases hv : fullResponse crates limiter v with
      | none =>
          rw [hv] at h
          obtain ⟨before, v', after, hvisits, hpast, hf⟩ := ih _ past h
          exact ⟨v :: before, v', after, by simp [hvisits], by simp [fullsFrom, hv, hpast], hf⟩
      | some f' =>
          rw [hv] at h
          cases past with
          | nil =>
              have hhead : f' = f := (List.cons.inj h).1
              exact ⟨[], v, visits, rfl, rfl, by rw [← hhead]; exact hv⟩
          | cons f₀ past =>
              have hhead : f' = f₀ := (List.cons.inj h).1
              obtain ⟨before, v', after, hvisits, hpast, hf⟩ := ih _ past (List.cons.inj h).2
              exact ⟨v :: before, v', after, by simp [hvisits],
                by simp [fullsFrom, hv, hpast, hhead], hf⟩

/-- Every full response goes back to one request of the sequence. -/
theorem fulls_split {visits : List Visit} {past rest : List FullResponse} {f : FullResponse}
    (h : fulls crates visits = past ++ f :: rest) :
    ∃ before v after, visits = before ++ v :: after ∧ fulls crates before = past ∧
      fullResponse crates (limiterAfter crates before) v = some f :=
  fullsFrom_split visits .empty past rest f h

theorem times_sublist (limiter : RateLimiter) (visits : List Visit) :
    ((fullsFrom crates limiter visits).map (·.time)).Sublist (visits.map Visit.time) := by
  induction visits generalizing limiter with
  | nil => exact List.Sublist.refl _
  | cons v visits ih =>
      have hrest := ih (limiterNext crates limiter v)
      rw [fullsFrom]
      unfold fullResponse
      split
      · simpa using hrest.cons_cons v.time
      · simpa using hrest.cons v.time

/-- What the full responses say about the limiter. -/
structure RecordsFull (fs : List FullResponse) (limiter : RateLimiter) : Prop where
  queues : Tracker.Queues maxTrackedIps (newcomers fs) limiter
  latest : ∀ ip next, limiter.entries.lookup ip = some next →
    ∃ f, lastFull fs ip = some f ∧ next = f.time + rateLimitWindow
  logged : ∀ f ∈ fs, f.client ∈ newcomers fs

theorem lastFull_concat (fs : List FullResponse) (f : FullResponse) (ip : IpAddr) :
    lastFull (fs ++ [f]) ip = if f.client = ip then some f else lastFull fs ip := by
  unfold lastFull
  split
  · rename_i hclient
    simp [hclient]
  · rename_i hclient
    simp [hclient]

theorem newcomers_concat (fs : List FullResponse) (f : FullResponse) :
    newcomers (fs ++ [f]) = newcomers fs ++ if f.fresh then [f.client] else [] := by
  unfold newcomers
  cases hfresh : f.fresh <;> simp [hfresh]

/-- A full response writes the entry of its address. -/
theorem RecordsFull.next_full {fs : List FullResponse} {limiter : RateLimiter} {v : Visit}
    (h : RecordsFull fs limiter) (hfull : Served.status (answerTo crates limiter v) = some 200) :
    RecordsFull (fs ++ [⟨v.client, v.time, !decide (limiter.Tracks v.client)⟩])
      (limiterNext crates limiter v) := by
  have hserve := (limiterNext_of_full hfull).2
  have hlog : newcomers (fs ++ [⟨v.client, v.time, !decide (limiter.Tracks v.client)⟩]) =
      newcomers fs ++ if limiter.Tracks v.client then [] else [v.client] := by
    rw [newcomers_concat]
    by_cases htracked : limiter.Tracks v.client <;> simp [htracked]
  refine ⟨?_, ?_, ?_⟩
  · rw [hlog, hserve]
    exact h.queues.record (by decide)
  · intro ip next hnext
    rw [hserve] at hnext
    rw [lastFull_concat]
    by_cases hip : v.client = ip
    · subst hip
      rw [Tracker.lookup_record] at hnext
      exact ⟨_, if_pos rfl, (Option.some.inj hnext).symm⟩
    · rw [if_neg hip]
      exact h.latest ip next (Tracker.lookup_record_ne (Ne.symm hip) hnext)
  · intro f hf
    rw [hlog, List.mem_append]
    rcases List.mem_append.mp hf with hold | hnew
    · exact .inl (h.logged f hold)
    · rw [List.mem_singleton.mp hnew]
      by_cases htracked : limiter.Tracks v.client
      · obtain ⟨gone, hgone, -⟩ := h.queues.log
        have hmem : v.client ∈ limiter.order := h.queues.mem_order.mpr htracked
        exact .inl (by rw [hgone]; exact List.mem_append_right _ hmem)
      · exact .inr (by simp [htracked])

theorem recordsFull_fulls (crates : FeedCrates) (visits : List Visit) :
    RecordsFull (fulls crates visits) (limiterAfter crates visits) := by
  induction visits using List.reverseRecOn with
  | nil =>
      refine ⟨.empty, ?_, ?_⟩
      · intro ip next h
        cases h
      · intro f hf
        cases hf
  | append_singleton visits v ih =>
      rw [fulls_concat, limiterAfter_concat]
      unfold fullResponse
      split
      · rename_i hfull
        exact ih.next_full hfull
      · rename_i hnot
        rw [limiterNext_of_not_full hnot]
        simpa using ih

end Sequences

section Guarantee
variable {crates : FeedCrates}

theorem lastFull_time_le {fs : List FullResponse} {e f : FullResponse}
    (hordered : fs.Pairwise fun f g => f.time ≤ g.time) (he : e ∈ fs)
    (hlatest : lastFull fs e.client = some f) : e.time ≤ f.time := by
  obtain ⟨earlier, hfilter⟩ := List.getLast?_eq_some_iff.mp hlatest
  have hsorted : (earlier ++ [f]).Pairwise fun f g => f.time ≤ g.time := by
    rw [← hfilter]
    exact hordered.sublist List.filter_sublist
  have hmem : e ∈ earlier ++ [f] := by
    rw [← hfilter]
    exact List.mem_filter.mpr ⟨he, by simp⟩
  rcases List.mem_append.mp hmem with hearlier | hlast
  · exact (List.pairwise_append.mp hsorted).2.2 e hearlier f (by simp)
  · rw [List.mem_singleton.mp hlast]

/-- A newcomer of the log goes back to a full response. -/
theorem newcomers_split {fs : List FullResponse} {before after : List IpAddr} {ip : IpAddr}
    (h : newcomers fs = before ++ ip :: after) :
    ∃ past n since, fs = past ++ n :: since ∧ n.client = ip ∧ n.fresh = true ∧
      newcomers since = after := by
  obtain ⟨front, back, hfilter, -, hback⟩ := List.map_eq_append_iff.mp h
  obtain ⟨n, tail, rfl, hn, htail⟩ := List.map_eq_cons_iff.mp hback
  obtain ⟨past, more, rfl, -, hmore⟩ := List.filter_eq_append_iff.mp hfilter
  obtain ⟨skipped, since, rfl, -, hfresh, hsince⟩ := List.filter_eq_cons_iff.mp hmore
  refine ⟨past ++ skipped, n, since, by simp, hn, hfresh, ?_⟩
  rw [newcomers, hsince, htail]

/-- For every sequence of feed requests, whatever each of them meets:

* only a full response changes the limiter;
* a request that reaches the limiter is throttled exactly when its address is still
  tracked and got its latest full response less than the window ago;
* if the requests come at non-decreasing times and an address gets two full responses
  less than the window apart, then since it was last newly tracked before the second
  one, `maxTrackedIps` different other addresses have been newly tracked. -/
theorem throttling_exact (crates : FeedCrates) (visits : List Visit)
    (hordered : visits.Pairwise fun v w => v.time ≤ w.time) :
    (∀ limiter v, Served.status (answerTo crates limiter v) ≠ some 200 →
      limiterNext crates limiter v = limiter) ∧
    (∀ past v rest, visits = past ++ v :: rest → reachesLimiter crates v = true →
      (Served.status (answerTo crates (limiterAfter crates past) v) = some 429 ↔
        (limiterAfter crates past).Tracks v.client ∧
          ∃ f, lastFull (fulls crates past) v.client = some f ∧
            v.time < f.time + rateLimitWindow)) ∧
    (∀ past e mid e' rest, fulls crates visits = past ++ e :: (mid ++ e' :: rest) →
      e'.client = e.client → e'.time < e.time + rateLimitWindow →
      ∃ before n since, past ++ e :: mid = before ++ n :: since ∧ n.client = e.client ∧
        n.fresh = true ∧ (∀ f ∈ since, f.fresh = true → f.client ≠ e.client) ∧
        ∃ others : List IpAddr, others.Nodup ∧ others.length = maxTrackedIps ∧
          ∀ ip ∈ others, ip ≠ e.client ∧ ∃ f ∈ since, f.fresh = true ∧ f.client = ip) := by
  refine ⟨fun limiter v => limiterNext_of_not_full, ?_, ?_⟩
  · intro past v rest _ hreaches
    have hrecords := recordsFull_fulls crates past
    rw [throttled_iff hreaches]
    constructor
    · rintro ⟨next, hnext, hlt⟩
      obtain ⟨f, hlatest, rfl⟩ := hrecords.latest v.client next hnext
      exact ⟨AList.lookup_isSome.mp (by rw [hnext]; rfl), f, hlatest, hlt⟩
    · rintro ⟨htracks, f, hlatest, hlt⟩
      obtain ⟨next, hnext⟩ := Option.isSome_iff_exists.mp (AList.lookup_isSome.mpr htracks)
      obtain ⟨f', hlatest', rfl⟩ := hrecords.latest v.client next hnext
      have hsame : f = f' := Option.some.inj (hlatest.symm.trans hlatest')
      exact ⟨_, hnext, by rw [← hsame]; exact hlt⟩
  · intro past e mid e' rest hfulls hclient hclose
    have hsplit : fulls crates visits = (past ++ e :: mid) ++ e' :: rest := by simp [hfulls]
    obtain ⟨before, v, after, hvisits, hbefore, hfull⟩ := fulls_split hsplit
    have hrecords := recordsFull_fulls crates before
    rw [hbefore] at hrecords
    have hpastOrdered : (past ++ e :: mid).Pairwise fun f g => f.time ≤ g.time := by
      have htimes : ((fulls crates visits).map (·.time)).Pairwise (· ≤ ·) :=
        (List.pairwise_map.mpr hordered).sublist (times_sublist .empty visits)
      rw [hsplit, List.pairwise_map] at htimes
      exact (List.pairwise_append.mp htimes).1
    -- the second response shows that the address was not tracked
    have hgone : ¬ (limiterAfter crates before).Tracks e.client := by
      intro htracks
      obtain ⟨next, hnext⟩ := Option.isSome_iff_exists.mp (AList.lookup_isSome.mpr htracks)
      obtain ⟨f, hlatest, rfl⟩ := hrecords.latest e.client next hnext
      have hle : e.time ≤ f.time := lastFull_time_le hpastOrdered (by simp) hlatest
      unfold fullResponse at hfull
      split at hfull
      · rename_i hstatus
        cases hfull
        have hfree := (limiterNext_of_full hstatus).1
        have hready := hfree (f.time + rateLimitWindow) (by rw [← hclient] at hnext; exact hnext)
        have hlate : v.time < e.time + rateLimitWindow := hclose
        have hsoon : v.time < f.time + rateLimitWindow :=
          lt_of_lt_of_le hlate (Int.add_le_add_right hle _)
        exact absurd hready (not_le.mpr hsoon)
      · cases hfull
    have hlogged : e.client ∈ newcomers (past ++ e :: mid) := hrecords.logged e (by simp)
    obtain ⟨earlier, later, hlog, hlast, others, hfront, hlength, hnodup, hother⟩ :=
      hrecords.queues.forgotten hlogged hgone
    obtain ⟨start, n, since, hpast, hn, hfresh, hsince⟩ := newcomers_split hlog
    have hnewcomer : ∀ ip, ip ∈ later → ∃ f ∈ since, f.fresh = true ∧ f.client = ip := by
      intro ip hip
      rw [← hsince] at hip
      obtain ⟨f, hf, hfip⟩ := List.mem_map.mp hip
      exact ⟨f, (List.mem_filter.mp hf).1, (List.mem_filter.mp hf).2, hfip⟩
    refine ⟨start, n, since, hpast, hn, hfresh, ?_, others, hnodup, hlength, ?_⟩
    · intro f hf hffresh heq
      have hmem : f.client ∈ newcomers since :=
        List.mem_map.mpr ⟨f, List.mem_filter.mpr ⟨hf, hffresh⟩, rfl⟩
      rw [hsince, heq] at hmem
      exact hlast hmem
    · intro ip hip
      refine ⟨fun heq => hother (heq ▸ hip), hnewcomer ip (hfront.subset hip)⟩

end Guarantee

/-- A request for the sample feed, a number of nanoseconds after start. -/
def sampleVisit (instant : Instant) : Visit where
  request := { tokenSecret := "token", peer := .v4 1, headers := [] }
  env := { proxies := [], endpoints := .ok [sampleFeed], dns := fun _ => [], cache := ∅, now := 0,
           order := keptOrder, instant }

/-- Two requests a nanosecond apart: the second is throttled. -/
theorem throttling_exact_repeated :
    ([sampleVisit 0, sampleVisit 1].Pairwise fun v w => v.time ≤ w.time) ∧
    Served.status (answerTo sampleFeedCrates (limiterAfter sampleFeedCrates []) (sampleVisit 0)) =
      some 200 ∧
    Served.status (answerTo sampleFeedCrates (limiterAfter sampleFeedCrates [sampleVisit 0])
      (sampleVisit 1)) = some 429 :=
  have hordered : [sampleVisit 0, sampleVisit 1].Pairwise fun v w => v.time ≤ w.time := by decide
  ⟨hordered, by decide,
    ((throttling_exact sampleFeedCrates _ hordered).2.1 [sampleVisit 0] (sampleVisit 1) [] rfl
      (by decide)).mpr ⟨by decide, ⟨.v4 1, 0, true⟩, by decide, by decide⟩⟩

end SimplyIpExporter.Throttling
