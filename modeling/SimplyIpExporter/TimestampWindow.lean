import Mathlib.Algebra.Order.Group.Abs
import Mathlib.Algebra.Order.Group.Int
import SimplyIpExporter.RequestAuthentication

/-!
# The freshness of a timestamp

The age of a request is a difference of two 64-bit numbers, one of which the caller has
written. Its absolute value is never out of range, for the present is not before the
epoch; the difference can be. A build that checks its arithmetic then panics, and one
that does not goes on with the wrapped value, which is negative for one timestamp and
accepted.
-/
namespace SimplyIpExporter.TimestampWindow
open RustText RequestAuthentication

theorem parseI64_range {s : String} {t : ℤ} (h : parseI64 s = some t) :
    i64Min ≤ t ∧ t ≤ i64Max := by
  unfold parseI64 at h
  split at h
  dsimp only at h
  split at h
  · cases h
  · obtain ⟨n, -, hvalue⟩ := Option.bind_eq_some_iff.mp h
    obtain ⟨hrange, hvalue⟩ := Option.ite_none_right_eq_some.mp hvalue
    rw [← Option.some.inj hvalue]
    exact hrange

theorem i64_of_range (build : Build) {n : ℤ} (hmin : i64Min ≤ n) (hmax : n ≤ i64Max) :
    build.i64 n = some n :=
  if_pos ⟨hmin, hmax⟩

/-- A checked build has no value beyond the largest number. -/
theorem i64_checked {n : ℤ} (h : i64Max < n) : Build.checked.i64 n = none := by
  unfold Build.i64
  rw [if_neg (fun hrange => absurd hrange.2 (not_le.mpr h))]

/-- The check is right: it does not panic, and accepts what is at most so old or so
far ahead. -/
def Exact (build : Build) (raw : String) (maxAgeSeconds now t : ℤ) : Prop :=
  validateTimestamp build raw maxAgeSeconds now ≠ .error .panic ∧
    (validateTimestamp build raw maxAgeSeconds now = .ok () ↔ |now - t| ≤ maxAgeSeconds)

section Window
variable {raw : String} {maxAgeSeconds now t : ℤ}

theorem exact_of_difference (hparse : parseTimestamp raw = some t) (hnow : 0 ≤ now)
    (hdifference : now - t ≤ i64Max) (build : Build) : Exact build raw maxAgeSeconds now t := by
  have hrange := parseI64_range hparse
  have hmin : i64Min = -i64Max - 1 := by decide
  have hskew : (build.i64 (now - t)).bind (fun d => build.i64 |d|) = some |now - t| := by
    rw [i64_of_range build (by omega) hdifference, Option.bind_some]
    have hpos := abs_nonneg (now - t)
    have habs : |now - t| ≤ i64Max := abs_le.mpr ⟨by omega, hdifference⟩
    exact i64_of_range build (by omega) habs
  unfold Exact validateTimestamp
  simp only [hparse, hskew]
  by_cases hlate : maxAgeSeconds < |now - t|
  · rw [if_pos hlate]
    refine ⟨nofun, nofun, ?_⟩
    intro hfresh
    exact absurd hlate (not_lt.mpr hfresh)
  · rw [if_neg hlate]
    exact ⟨nofun, fun _ => not_lt.mp hlate, fun _ => rfl⟩

theorem panics_of_difference (hparse : parseTimestamp raw = some t)
    (hdifference : i64Max < now - t) :
    validateTimestamp .checked raw maxAgeSeconds now = .error .panic := by
  simp only [validateTimestamp, hparse, i64_checked hdifference, Option.bind_none]

/-- What does not parse is refused. What does is judged rightly in either build exactly
when its distance into the past is a 64-bit number. -/
theorem freshness_exact_iff (raw : String) (maxAgeSeconds now : ℤ) (hnow : 0 ≤ now) :
    (parseTimestamp raw = none → ∀ build, validateTimestamp build raw maxAgeSeconds now =
      .error (unauthorized "X-Timestamp must be a Unix timestamp")) ∧
    ∀ t, parseTimestamp raw = some t →
      ((∀ build, Exact build raw maxAgeSeconds now t) ↔ now - t ≤ i64Max) := by
  refine ⟨?_, ?_⟩
  · intro hparse build
    simp only [validateTimestamp, hparse]
    rfl
  · intro t hparse
    refine ⟨?_, exact_of_difference hparse hnow⟩
    intro hexact
    by_contra hdifference
    exact (hexact .checked).1 (panics_of_difference hparse (not_le.mp hdifference))

theorem freshness_exact_stale :
    parseTimestamp "1699999000" = some 1699999000 ∧ (0 : ℤ) ≤ 1700000000 ∧
      (∀ build, Exact build "1699999000" 300 1700000000 1699999000) ∧
      validateTimestamp .wrapping "1699999000" 300 1700000000 ≠ .ok () := by
  have hparse : parseTimestamp "1699999000" = some 1699999000 := by decide +kernel
  have hexact := ((freshness_exact_iff "1699999000" 300 1700000000 (by decide)).2 _ hparse).mpr
    (by decide)
  refine ⟨hparse, by decide, hexact, ?_⟩
  intro haccepted
  exact absurd ((hexact .wrapping).2.mp haccepted) (by decide)

/-- A timestamp of some 292 billion years ago: the difference is one more than the
largest number. -/
theorem oldest_timestamp_accepted :
    parseTimestamp "-9223372035154775808" = some (1700000000 - 2 ^ 63) ∧
      ¬ |(1700000000 : ℤ) - (1700000000 - 2 ^ 63)| ≤ 300 ∧
      validateTimestamp .wrapping "-9223372035154775808" 300 1700000000 = .ok () ∧
      validateTimestamp .checked "-9223372035154775808" 300 1700000000 = .error .panic := by
  refine ⟨by decide +kernel, by decide, by decide +kernel, by decide +kernel⟩

end Window

end SimplyIpExporter.TimestampWindow
