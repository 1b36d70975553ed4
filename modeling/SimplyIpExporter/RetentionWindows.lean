import SimplyIpExporter.EndpointHandlers
import SimplyIpExporter.PublicFeed

/-!
# Retention windows

Every window from zero to the largest 64-bit number is accepted for an endpoint. When
its feed is read, the window is turned into a duration and taken from the present; each
of the two steps has a range of its own, and leaving it panics. Inside the range, what
is read are the networks of the records that the window reaches, and a larger window
reaches no fewer.
-/
namespace SimplyIpExporter.RetentionWindows
open IpAddresses Entities AddressCache PublicFeed EndpointHandlers

/-- The window reaches the record. -/
def reaches (maxAgeSeconds : ℤ) (now : NaiveDateTime) (r : CachedRecord) : Bool :=
  decide (maxAgeSeconds = 0) || decide (now - maxAgeSeconds * nanosPerSecond ≤ r.lastSeenAt)

/-- The networks of the records that the window reaches. -/
def reached (id : Uuid) (maxAgeSeconds : ℤ) (now : NaiveDateTime) (cache : IpCache) : List IpNet :=
  (((cache.lookup id).elim [] fun entry => entry.records.entries).filter fun e =>
    reaches maxAgeSeconds now e.2).map (·.2.network)

/-- Nothing is cached, no cutoff is needed, or it is a date. -/
def InRange (id : Uuid) (maxAgeSeconds : ℤ) (now : NaiveDateTime) (cache : IpCache) : Prop :=
  cache.lookup id = none ∨ maxAgeSeconds = 0 ∨
    (maxAgeSeconds ≤ RustText.i64Max / 1000 ∧ minDateTime ≤ now - maxAgeSeconds * nanosPerSecond)

section Windows
variable {id : Uuid} {maxAgeSeconds smaller : ℤ} {now : NaiveDateTime} {cache : IpCache}

theorem nonneg_of_accepted (h : validateMaxAge maxAgeSeconds = .ok ()) : 0 ≤ maxAgeSeconds := by
  unfold validateMaxAge at h
  split at h
  · cases h
  · omega

theorem window_eq (hpos : 0 ≤ maxAgeSeconds) (hrange : maxAgeSeconds = 0 ∨
    (maxAgeSeconds ≤ RustText.i64Max / 1000 ∧ minDateTime ≤ now - maxAgeSeconds * nanosPerSecond)) :
    window maxAgeSeconds now = some fun t =>
      decide (maxAgeSeconds = 0) || decide (now - maxAgeSeconds * nanosPerSecond ≤ t) := by
  unfold window
  rcases hrange with rfl | hcut
  · rw [if_pos le_rfl]
    simp
  · by_cases hzero : maxAgeSeconds = 0
    · subst hzero
      rw [if_pos le_rfl]
      simp
    · rw [if_neg (by omega), cutoff, if_pos hcut]
      simp [hzero]

/-- Inside the range, exactly what the window reaches is read. -/
theorem snapshotWithin_eq (hpos : 0 ≤ maxAgeSeconds) (hrange : InRange id maxAgeSeconds now cache) :
    snapshotWithin id maxAgeSeconds now cache = some (reached id maxAgeSeconds now cache) := by
  unfold snapshotWithin reached
  cases hentry : cache.lookup id with
  | none => rfl
  | some entry =>
      rcases hrange with habsent | hcut
      · rw [hentry] at habsent
        cases habsent
      · rw [window_eq hpos hcut]
        rfl

/-- Outside of it there is no cutoff. -/
theorem inRange_of_snapshotWithin (hpos : 0 ≤ maxAgeSeconds) {raw : List IpNet}
    (h : snapshotWithin id maxAgeSeconds now cache = some raw) :
    InRange id maxAgeSeconds now cache := by
  unfold snapshotWithin at h
  cases hentry : cache.lookup id with
  | none => exact .inl hentry
  | some entry =>
      rw [hentry] at h
      obtain ⟨inside, hwindow, -⟩ := Option.map_eq_some_iff.mp h
      unfold window at hwindow
      split at hwindow
      · exact .inr (.inl (by omega))
      · obtain ⟨cut, hcut, -⟩ := Option.map_eq_some_iff.mp hwindow
        unfold cutoff at hcut
        exact .inr (.inr (Option.ite_none_right_eq_some.mp hcut).1)

/-- A smaller window starts later. -/
theorem cutoff_le_cutoff (now : NaiveDateTime) (hle : smaller ≤ maxAgeSeconds) :
    now - maxAgeSeconds * nanosPerSecond ≤ now - smaller * nanosPerSecond := by
  have hnanos : smaller * nanosPerSecond ≤ maxAgeSeconds * nanosPerSecond :=
    Int.mul_le_mul_of_nonneg_right hle (by decide)
  exact Int.sub_le_sub_left hnanos now

theorem inRange_of_le (h : InRange id maxAgeSeconds now cache) (hpos : 0 < smaller)
    (hle : smaller ≤ maxAgeSeconds) : InRange id smaller now cache := by
  rcases h with habsent | hzero | ⟨hduration, hdate⟩
  · exact .inl habsent
  · omega
  · refine .inr (.inr ⟨hle.trans hduration, hdate.trans ?_⟩)
    exact cutoff_le_cutoff now hle

theorem reached_sublist (hpos : 0 < smaller) (hle : smaller ≤ maxAgeSeconds) :
    (reached id smaller now cache).Sublist (reached id maxAgeSeconds now cache) := by
  refine List.Sublist.map _ (List.monotone_filter_right _ ?_)
  intro e he
  simp only [reaches, Bool.or_eq_true, decide_eq_true_eq] at he ⊢
  rcases he with hzero | hinside
  · omega
  · exact .inr ((cutoff_le_cutoff now hle).trans hinside)

/-- A request panics only over the window of its feed. -/
theorem serveFeed_ne_panicked {crates : FeedCrates} {req : FeedRequest} {env : Surroundings}
    {limiter : RateLimiter} {ep : Endpoint}
    (hfound : findFeed req.tokenSecret env.endpoints = .ok ep) {raw : List IpNet}
    (hraw : snapshotWithin ep.id ep.maxAgeSeconds env.now env.cache = some raw) :
    (serveFeed crates req env limiter).1 ≠ .panicked := by
  have hprepare : prepareFeed crates req env ≠ .error .panicked := by
    have hlines : ∃ lines, feedLines crates ep env = some lines := by
      rw [feedLines, hraw]
      exact ⟨_, rfl⟩
    obtain ⟨lines, hlines⟩ := hlines
    unfold prepareFeed
    rw [hfound]
    dsimp only
    rw [hlines]
    dsimp only
    split
    · nofun
    · split <;> nofun
  unfold serveFeed
  split
  · rename_i answer hanswer
    intro hpanicked
    rw [hanswer, show answer = .panicked from hpanicked] at hprepare
    exact hprepare rfl
  · split <;> nofun

end Windows

/-- An accepted window is read exactly, is answered by the feed and is no smaller than
the positive ones below it, if and only if it is in range. -/
theorem retention_window_served_iff (id : Uuid) (maxAgeSeconds : ℤ) (now : NaiveDateTime)
    (cache : IpCache) (haccepted : validateMaxAge maxAgeSeconds = .ok ()) :
    (snapshotWithin id maxAgeSeconds now cache = some (reached id maxAgeSeconds now cache) ∧
      (∀ crates req env limiter ep, findFeed req.tokenSecret env.endpoints = .ok ep → ep.id = id →
        ep.maxAgeSeconds = maxAgeSeconds → env.now = now → env.cache = cache →
        (serveFeed crates req env limiter).1 ≠ .panicked) ∧
      ∀ smaller, 0 < smaller → smaller ≤ maxAgeSeconds → ∃ raw,
        snapshotWithin id smaller now cache = some raw ∧
          raw.Sublist (reached id maxAgeSeconds now cache)) ↔
    InRange id maxAgeSeconds now cache := by
  have hpos := nonneg_of_accepted haccepted
  refine ⟨fun h => inRange_of_snapshotWithin hpos h.1, ?_⟩
  intro hrange
  have hsnapshot := snapshotWithin_eq hpos hrange
  refine ⟨hsnapshot, ?_, ?_⟩
  · rintro crates req env limiter ep hfound rfl rfl rfl rfl
    exact serveFeed_ne_panicked hfound hsnapshot
  · intro smaller hsmaller hle
    exact ⟨_, snapshotWithin_eq hsmaller.le (inRange_of_le hrange hsmaller hle),
      reached_sublist hsmaller hle⟩

/-- One address seen at the epoch and one a second later. -/
def seenCache : IpCache :=
  applyFull sampleCrates 1 [⟨"192.0.2.7", 0, false⟩, ⟨"192.0.2.8", nanosPerSecond, false⟩] 0 ∅

theorem retention_window_served_day :
    validateMaxAge 86400 = .ok () ∧ InRange 1 86400 (86401 * nanosPerSecond) seenCache ∧
      snapshotWithin 1 86400 (86401 * nanosPerSecond) seenCache =
        some (reached 1 86400 (86401 * nanosPerSecond) seenCache) ∧
      reached 1 86400 (86401 * nanosPerSecond) seenCache = [.fromAddr (.v4 0xc0000208#32)] := by
  have haccepted : validateMaxAge 86400 = .ok () := by decide
  have hrange : InRange 1 86400 (86401 * nanosPerSecond) seenCache := .inr (.inr (by decide))
  refine ⟨haccepted, hrange, ?_, by decide +kernel⟩
  exact ((retention_window_served_iff 1 86400 (86401 * nanosPerSecond) seenCache haccepted).mpr
    hrange).1

def windowedFeed : Endpoint := { sampleFeed with maxAgeSeconds := RustText.i64Max }

theorem largest_window_panics :
    validateMaxAge RustText.i64Max = .ok () ∧
      reached 1 RustText.i64Max 0 seenCache ≠ [] ∧
      snapshotWithin 1 RustText.i64Max 0 seenCache = none ∧
      ∀ limiter, (serveFeed sampleFeedCrates
        { tokenSecret := "token", peer := .v4 1, headers := [] }
        { proxies := [], endpoints := .ok [windowedFeed], dns := fun _ => [], cache := seenCache,
          now := 0, order := keptOrder, instant := 0 } limiter).1 = .panicked := by
  refine ⟨by decide, by decide +kernel, by decide +kernel, ?_⟩
  intro limiter
  rfl

end SimplyIpExporter.RetentionWindows
