import SimplyIpExporter.PublicFeed

/-!
# The map and the queue of the rate limiter

`check_and_record` writes its map and its queue in separate statements. Here a call is
followed statement by statement, with the lock and with the way the eviction loop is
left. The clock is read before the lock is taken, so calls may come with times in any
order. An instant past the last one that can be represented makes the call panic after
it may have evicted; the lock is poisoned from then on, and every later call is refused.
-/
namespace SimplyIpExporter.LimiterRecords
open IpAddresses Entities PublicFeed FirstSeenQueues FirstSeenQueues.Tracker

structure Call where
  ip : IpAddr
  now : Instant
  deriving DecidableEq, Repr

inductive Answer where
  | allowed
  | refused (remaining : ℤ)
  | panicked
  deriving DecidableEq, Repr

def Answer.ofResult : Except ℤ Unit → Answer
  | .ok () => .allowed
  | .error remaining => .refused remaining

/-- The limiter behind its lock. -/
structure Locked where
  inner : RateLimiter
  poisoned : Bool

def Locked.new : Locked := ⟨.empty, false⟩

/-- The statements after the check: the entry is written, and a new address is queued. -/
def store (horizon : Instant) (call : Call) (isNew : Bool) (inner : RateLimiter) :
    Answer × Locked :=
  let nextAllowed := call.now + rateLimitWindow
  if horizon < nextAllowed then (.panicked, ⟨inner, true⟩)
  else
    let entries := inner.entries.insert call.ip nextAllowed
    let order := if isNew then inner.order ++ [call.ip] else inner.order
    (.allowed, ⟨⟨entries, order⟩, false⟩)

/-- The branch for an address that is not tracked. -/
def makeRoom (inner : RateLimiter) : RateLimiter :=
  if maxTrackedIps ≤ inner.entries.keys.length then
    evictFrom maxTrackedIps inner.entries inner.order
  else inner

def step (horizon : Instant) (s : Locked) (call : Call) : Answer × Locked :=
  if s.poisoned then (.refused rateLimitWindow, s)
  else
    let isNew := !decide (s.inner.Tracks call.ip)
    match s.inner.entries.lookup call.ip with
    | some nextAllowed =>
      if call.now < nextAllowed then (.refused (nextAllowed - call.now), s)
      else store horizon call isNew s.inner
    | none => store horizon call isNew (makeRoom s.inner)

def run (horizon : Instant) (calls : List Call) : Locked :=
  calls.foldl (fun s call => (step horizon s call).2) .new

section Steps
variable {horizon : Instant} {s : Locked} {call : Call}

theorem tracks_of_lookup {inner : RateLimiter} {ip : IpAddr} {next : Instant}
    (h : inner.entries.lookup ip = some next) : inner.Tracks ip := by
  apply AList.lookup_isSome.mp
  rw [h]
  rfl

theorem not_tracks_of_lookup {inner : RateLimiter} {ip : IpAddr}
    (h : inner.entries.lookup ip = none) : ¬ inner.Tracks ip :=
  AList.lookup_eq_none.mp h

/-- The test before the loop is the loop's own. -/
theorem makeRoom_eq (inner : RateLimiter) :
    makeRoom inner = evictFrom maxTrackedIps inner.entries inner.order := by
  unfold makeRoom
  split
  · rfl
  · rename_i hroom
    exact (evictFrom_of_lt (Nat.lt_of_not_le hroom)).symm

/-- While times can be represented, a call is the one that the feed makes. -/
theorem step_eq_checkAndRecord {inner : RateLimiter} (hnow : call.now + rateLimitWindow ≤ horizon) :
    step horizon ⟨inner, false⟩ call =
      (.ofResult (checkAndRecord call.ip call.now inner).1,
        ⟨(checkAndRecord call.ip call.now inner).2, false⟩) := by
  have hstore : ∀ isNew inner', store horizon call isNew inner' =
      (.allowed, ⟨⟨inner'.entries.insert call.ip (call.now + rateLimitWindow),
        if isNew then inner'.order ++ [call.ip] else inner'.order⟩, false⟩) := by
    intro isNew inner'
    exact if_neg (not_lt.mpr hnow)
  unfold step checkAndRecord
  rw [if_neg Bool.false_ne_true]
  cases hlookup : inner.entries.lookup call.ip with
  | some nextAllowed =>
      have htracks := tracks_of_lookup hlookup
      dsimp only
      split
      · rfl
      · rw [hstore]
        simp [Tracker.record, htracks, Answer.ofResult]
  | none =>
      have hnew := not_tracks_of_lookup hlookup
      dsimp only
      rw [hstore, makeRoom_eq]
      simp [Tracker.record, hnew, Answer.ofResult]

theorem lists_makeRoom {inner : RateLimiter} (h : Lists maxTrackedIps inner) :
    Lists maxTrackedIps (makeRoom inner) := by
  rw [makeRoom_eq]
  exact h.evict

theorem lists_store {isNew : Bool} {inner : RateLimiter} (h : Lists maxTrackedIps inner)
    (hold : isNew = false → inner.Tracks call.ip)
    (hnew : isNew = true → ¬ inner.Tracks call.ip ∧ inner.entries.keys.length < maxTrackedIps) :
    Lists maxTrackedIps (store horizon call isNew inner).2.inner := by
  unfold store
  dsimp only
  split
  · exact h
  · cases isNew with
    | false => exact h.insert_tracked (hold rfl)
    | true => exact h.insert_new (hnew rfl).1 (hnew rfl).2

theorem lists_step (h : Lists maxTrackedIps s.inner) :
    Lists maxTrackedIps (step horizon s call).2.inner := by
  unfold step
  split
  · exact h
  · cases hlookup : s.inner.entries.lookup call.ip with
    | some nextAllowed =>
        have htracks := tracks_of_lookup hlookup
        dsimp only
        split
        · exact h
        · refine lists_store h (fun _ => htracks) ?_
          intro hnew
          simp [htracks] at hnew
    | none =>
        have hnot := not_tracks_of_lookup hlookup
        refine lists_store (lists_makeRoom h) ?_ fun _ => ?_
        · intro hold
          simp [hnot] at hold
        · rw [makeRoom_eq]
          exact ⟨h.not_tracks_evict hnot, evictFrom_room h.perm (by decide)⟩

end Steps

theorem lists_run (horizon : Instant) (calls : List Call) :
    Lists maxTrackedIps (run horizon calls).inner := by
  induction calls using List.reverseRecOn with
  | nil => exact Lists.empty
  | append_singleton calls call ih =>
      unfold run
      rw [List.foldl_append]
      exact lists_step ih

/-- What holds of the limiter between calls: the queue has each tracked address once and
nothing else, map and queue are of one size within the bound, and should the eviction
loop be entered now, it is left with room for another address. -/
structure Tidy (inner : RateLimiter) : Prop where
  once : inner.order.Nodup
  tracked : ∀ ip, ip ∈ inner.order ↔ inner.Tracks ip
  size : inner.order.length = inner.entries.keys.length
  bounded : inner.entries.keys.length ≤ maxTrackedIps
  left : evictExit maxTrackedIps inner.entries inner.order = .room
  room : (makeRoom inner).entries.keys.length < maxTrackedIps

/-- After any calls, from any addresses and at any times, whether or not one of them has
panicked. -/
theorem limiter_tidy (horizon : Instant) (calls : List Call) : Tidy (run horizon calls).inner := by
  have h := lists_run horizon calls
  have hsize := h.perm.length_eq
  have hroom := evictFrom_room h.perm (by decide : 0 < maxTrackedIps)
  exact
    { once := h.nodup
      tracked := fun ip => h.mem_order
      size := hsize
      bounded := hsize ▸ h.bounded
      left := evictExit_eq_room_iff.mpr hroom
      room := by
        rw [makeRoom_eq]
        exact hroom }

end SimplyIpExporter.LimiterRecords
