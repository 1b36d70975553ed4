import SimplyIpExporter.Throttling

/-!
# When a throttled client may come back

A throttled client is told to wait a number of whole seconds. The limiter itself
counts nanoseconds, and the seconds are rounded down, so the advice can end up to
a second before the limiter's own deadline. The advice holds exactly when nothing
was rounded off.
-/
namespace SimplyIpExporter.RetryAfter
open IpAddresses Entities PublicFeed Throttling FirstSeenQueues

section Waiting
variable {crates : FeedCrates} {limiter : RateLimiter} {v : Visit}

theorem answer_busy (hreaches : reachesLimiter crates v = true) {next : Instant}
    (hnext : limiter.entries.lookup v.client = some next) (hlt : v.time < next) :
    answerTo crates limiter v = .responded (tooManyRequests (next - v.time)) := by
  have hcheck := checkAndRecord_busy hnext hlt
  unfold Visit.client Visit.time at hcheck
  unfold reachesLimiter at hreaches
  unfold answerTo serveFeed
  split at hreaches
  · rename_i content hprepare
    simp only [hprepare, hcheck]
    rfl
  · cases hreaches

/-- What the limiter knows of a client it has just turned away. -/
theorem deadline_of_throttled {r : FeedResponse}
    (hanswer : answerTo crates limiter v = .responded r) (hstatus : r.status = 429) :
    reachesLimiter crates v = true ∧ ∃ next, limiter.entries.lookup v.client = some next ∧
      v.time < next ∧ r = tooManyRequests (next - v.time) ∧
      limiterNext crates limiter v = limiter := by
  have hthrottled : Served.status (answerTo crates limiter v) = some 429 := by
    rw [hanswer, Served.status, hstatus]
  rcases limiterNext_cases crates limiter v with ⟨-, -, hnot, -⟩ | ⟨-, -, hfull, -⟩ |
    ⟨hreaches, ⟨next, hnext, hlt⟩, -, hserve⟩
  · exact absurd hthrottled hnot
  · rw [hfull] at hthrottled
    cases hthrottled
  · refine ⟨hreaches, next, hnext, hlt, ?_, hserve⟩
    rw [answer_busy hreaches hnext hlt] at hanswer
    exact (Served.responded.inj hanswer).symm

/-- Without a full response to it, an address keeps its deadline or is forgotten. -/
theorem lookup_serve {ip : IpAddr} {next : Instant}
    (hother : ∀ f, fullResponse crates limiter v = some f → f.client ≠ ip)
    (hnext : (limiterNext crates limiter v).entries.lookup ip = some next) :
    limiter.entries.lookup ip = some next := by
  by_cases hfull : Served.status (answerTo crates limiter v) = some 200
  · have hclient : v.client ≠ ip := hother _ (if_pos hfull)
    rw [(limiterNext_of_full hfull).2] at hnext
    exact Tracker.lookup_record_ne (Ne.symm hclient) hnext
  · rw [limiterNext_of_not_full hfull] at hnext
    exact hnext

theorem lookup_serveAll {ip : IpAddr} {next : Instant} (visits : List Visit)
    (hother : ∀ f ∈ fullsFrom crates limiter visits, f.client ≠ ip)
    (hnext : (visits.foldl (limiterNext crates) limiter).entries.lookup ip = some next) :
    limiter.entries.lookup ip = some next := by
  induction visits generalizing limiter with
  | nil => exact hnext
  | cons w visits ih =>
      have hother₁ : ∀ f, fullResponse crates limiter w = some f → f.client ≠ ip := by
        intro f hf
        exact hother f (by simp [fullsFrom, hf])
      have hother₂ : ∀ f ∈ fullsFrom crates (limiterNext crates limiter w) visits, f.client ≠
          ip := by
        intro f hf
        exact hother f (by simp [fullsFrom, hf])
      exact lookup_serve hother₁ (ih hother₂ hnext)

/-- The same request at another time. -/
def postponed (v : Visit) (instant : Instant) : Visit := { v with env := { v.env with instant } }

/-- A client that was turned away and waits the given seconds is not turned away
again, unless its address gets a full response in the meantime. -/
def Honoured (crates : FeedCrates) (limiter : RateLimiter) (v : Visit) (seconds : ℤ) : Prop :=
  ∀ (between : List Visit) (again : Visit),
    (∀ f ∈ fullsFrom crates (limiterNext crates limiter v) between, f.client ≠ v.client) →
    again.client = v.client → v.time + seconds * nanosPerSecond ≤ again.time →
      Served.status
        (answerTo crates (between.foldl (limiterNext crates) (limiterNext crates limiter v))
        again) ≠
        some 429

/-- Waiting until the deadline is enough, and the same request repeated any earlier
is turned away again. -/
theorem honoured_iff_deadline_le {next : Instant} {seconds : ℤ}
    (hreaches : reachesLimiter crates v = true)
    (hnext : limiter.entries.lookup v.client = some next)
    (hserve : limiterNext crates limiter v = limiter) :
    Honoured crates limiter v seconds ↔ next ≤ v.time + seconds * nanosPerSecond := by
  rw [Honoured, hserve]
  constructor
  · intro honoured
    by_contra hearly
    have hturned := answer_busy (v := postponed v (v.time + seconds * nanosPerSecond))
      hreaches hnext (not_le.mp hearly)
    apply honoured [] (postponed v (v.time + seconds * nanosPerSecond)) (by simp [fullsFrom]) rfl
      (le_refl _)
    rw [List.foldl_nil, hturned]
    rfl
  · intro hdeadline between again hother hclient hlate hthrottled
    cases hanswer : answerTo crates (between.foldl (limiterNext crates) limiter) again with
    | panicked => simp [hanswer, Served.status] at hthrottled
    | refused e => simp [hanswer, Served.status] at hthrottled
    | responded r =>
        rw [hanswer, Served.status, Option.some.injEq] at hthrottled
        obtain ⟨-, later, hlater, hlt, -⟩ := deadline_of_throttled hanswer hthrottled
        rw [hclient] at hlater
        have hsame : next = later :=
          Option.some.inj (hnext.symm.trans (lookup_serveAll between hother hlater))
        rw [← hsame] at hlt
        exact absurd (le_trans hdeadline hlate) (not_le.mpr hlt)

/-- The quotient reaches its dividend exactly when nothing is left over. -/
theorem le_ediv_mul_iff_dvd {wait unit : ℤ} (hunit : 0 < unit) :
    wait ≤ wait / unit * unit ↔ unit ∣ wait := by
  have hrest := Int.emod_add_ediv_mul wait unit
  have hnonneg := Int.emod_nonneg wait hunit.ne'
  rw [Int.dvd_iff_emod_eq_zero]
  constructor <;> intro h <;> omega

/-- The advice of a throttled response is honoured exactly when the limiter's
deadline is a whole number of seconds away. -/
theorem retryAfter_honoured_iff (crates : FeedCrates) (limiter : RateLimiter) (v : Visit)
    (r : FeedResponse) (seconds : ℤ) (hanswer : answerTo crates limiter v = .responded r)
    (hstatus : r.status = 429) (hheader : ("Retry-After", toString seconds) ∈ r.headers) :
    Honoured crates limiter v seconds ↔
      ∀ next, limiter.entries.lookup v.client = some next → nanosPerSecond ∣ next - v.time := by
  obtain ⟨hreaches, next, hnext, hlt, rfl, hserve⟩ := deadline_of_throttled hanswer hstatus
  have hseconds : seconds = (next - v.time) / nanosPerSecond := by
    have htext : toString seconds = toString ((next - v.time) / nanosPerSecond) := by
      simpa [tooManyRequests] using hheader
    exact RustText.toString_inj htext
  have hround : next ≤ v.time + seconds * nanosPerSecond ↔ nanosPerSecond ∣ next - v.time := by
    rw [← le_ediv_mul_iff_dvd (by decide), ← hseconds, sub_le_iff_le_add']
  rw [honoured_iff_deadline_le hreaches hnext hserve, hround]
  constructor
  · intro hwhole next' hnext'
    rw [hnext, Option.some.injEq] at hnext'
    rw [← hnext']
    exact hwhole
  · intro hwhole
    exact hwhole next hnext

end Waiting

/-- Turned away a minute after a full response, a client waits for the other minute. -/
theorem retryAfter_honoured_minute :
    Honoured sampleFeedCrates (limiterAfter sampleFeedCrates [sampleVisit 0])
      (sampleVisit 60000000000) 60 := by
  apply (retryAfter_honoured_iff sampleFeedCrates (limiterAfter sampleFeedCrates [sampleVisit 0])
    (sampleVisit 60000000000) (tooManyRequests 60000000000) 60 (by decide) rfl (by decide)).mpr
  intro next hnext
  have hdeadline : next = 120000000000 := (Option.some.inj hnext).symm
  rw [hdeadline]
  decide

/-- Turned away a nanosecond after a full response, a client is told to wait 119
seconds, waits them, and is turned away again. -/
theorem retryAfter_too_early :
    answerTo sampleFeedCrates (limiterAfter sampleFeedCrates [sampleVisit 0]) (sampleVisit 1) =
      .responded ⟨429, [("Retry-After", toString (119 : ℤ))],
        "Rate limit exceeded: at most one request per source IP every 2 minutes\n"⟩ ∧
    ¬ Honoured sampleFeedCrates (limiterAfter sampleFeedCrates [sampleVisit 0]) (sampleVisit 1)
      119 := by
  refine ⟨by decide, ?_⟩
  intro honoured
  exact honoured [] (sampleVisit 119000000001) (by decide) (by decide) (by decide) (by decide)

end SimplyIpExporter.RetryAfter
