import SimplyIpExporter.CanonicalSigning
import SimplyIpExporter.Interleaving
import SimplyIpExporter.VaultClient

/-!
# The timestamps of outbound requests

All requests to Vault of one process take their timestamp from one shared counter. A
request first reads the clock and then updates the counter in one step: to the reading
when that is newer, and otherwise to one more than the last timestamp. When the counter
has run five seconds ahead of the reading it is set back to it. As long as that does not
happen, every timestamp is larger than all before it.

The counter is kept as an integer. It is never more than five above some reading of the
clock, which is far from the ends of the 64-bit range.
-/
namespace SimplyIpExporter.OutboundStamps
open RustText Entities CanonicalSigning VaultClient Programs Interleaving

inductive StampCall where
  /-- `Utc::now().timestamp()`. -/
  | utcNow
  /-- The atomic update of the counter. -/
  | fetchUpdate (now : ℤ)

@[reducible] def StampAnswer : StampCall → Type
  | .utcNow | .fetchUpdate _ => ℤ

structure Clocks where
  /-- The wall clock in whole seconds. -/
  now : ℤ
  lastTimestamp : ℤ

def saturatingSub (a b : ℤ) : ℤ := max i64Min (min i64Max (a - b))

/-- The reading is taken as it is, or the counter goes on by one. -/
def nextTimestamp (now last : ℤ) : ℤ :=
  if last < now ∨ 5 ≤ saturatingSub last now then now else last + 1

def exec : (c : StampCall) → Unit → Clocks → Option (StampAnswer c × Clocks)
  | .utcNow, _, s => some (s.now, s)
  | .fetchUpdate now, _, s =>
      some (nextTimestamp now s.lastTimestamp,
        { s with lastTimestamp := nextTimestamp now s.lastTimestamp })

/-- Time passes, in whole seconds. -/
def env (seconds : ℕ) (s : Clocks) : Option Clocks := some { s with now := s.now + seconds }

def system : System StampAnswer Unit ℕ Clocks := ⟨exec, env⟩

structure SignedRequest where
  pathAndQuery : String
  timestamp : String
  signature : String
  deriving DecidableEq, Repr

def SignedRequest.payload (r : SignedRequest) : List UInt8 :=
  canonicalV1Payload "GET" r.pathAndQuery r.timestamp []

/-- What is sent, or the error of a secret that cannot be used. -/
def signedGet (crates : Crates) (signingSecret pathAndQuery : String) :
    Program StampAnswer (Except VaultError SignedRequest) := do
  let now : ℤ ← perform StampCall.utcNow
  let ts : ℤ ← perform (StampCall.fetchUpdate now)
  let timestamp := toString ts
  match computeSignature crates signingSecret
      (canonicalV1Payload "GET" pathAndQuery timestamp []) with
  | none => pure (.error (.status 500))
  | some signature => pure (.ok ⟨pathAndQuery, timestamp, signature⟩)

/-- The requests of one client before their first step. -/
def client {I : Type} (crates : Crates) (signingSecret : String) (paths : I → String) (s : Clocks) :
    Pool StampAnswer I (Except VaultError SignedRequest) Clocks :=
  ⟨s, fun i => signedGet crates signingSecret (paths i)⟩

theorem utf8_inj {s t : String} (h : utf8 s = utf8 t) : s = t := by
  have hbytes : s.toUTF8 = t.toUTF8 := ByteArray.ext (Array.toList_inj.mp h)
  exact String.toByteArray_inj.mp hbytes

theorem payload_inj {r r' : SignedRequest} (hpath : r.pathAndQuery = r'.pathAndQuery)
    (h : r.payload = r'.payload) : r.timestamp = r'.timestamp := by
  unfold SignedRequest.payload canonicalV1Payload at h
  rw [hpath] at h
  have htail := List.append_cancel_left (List.cons.inj (List.append_cancel_left h)).2
  exact utf8_inj (List.append_cancel_right (List.cons.inj htail).2)

/-- The counter is not set back. -/
def forward (now last : ℤ) : Bool := decide (last < now) || decide (last - now < 5)

def goesForward {I : Type} (p : Pool StampAnswer I (Except VaultError SignedRequest) Clocks) :
    Event I Unit ℕ → Bool
  | .act i _ =>
      match (p.threads i).upcoming with
      | some (.fetchUpdate now) => forward now p.state.lastTimestamp
      | _ => true
  | .world _ => true

theorem lt_nextTimestamp {now last : ℤ} (h : forward now last = true) :
    last < nextTimestamp now last := by
  have hmax : i64Max = 9223372036854775807 := rfl
  have hmin : i64Min = -9223372036854775808 := rfl
  simp only [forward, Bool.or_eq_true, decide_eq_true_eq] at h
  unfold nextTimestamp saturatingSub
  split
  · omega
  · omega

/-- The timestamp a request has taken, if it has. -/
def taking : Policy StampAnswer (Option ℤ) where
  permits _ _ := True
  moves m c r m' := match c with
    | .utcNow => m' = m
    | .fetchUpdate _ => m' = some r

/-- What is sent carries the timestamp taken and a signature over it. -/
def Sends (crates : Crates) (signingSecret pathAndQuery : String) (m : Option ℤ)
    (result : Except VaultError SignedRequest) : Prop :=
  ∀ sent, result = .ok sent → sent.pathAndQuery = pathAndQuery ∧
    (∃ ts, m = some ts ∧ sent.timestamp = toString ts) ∧
    computeSignature crates signingSecret sent.payload = some sent.signature

theorem signedGet_follows (crates : Crates) (signingSecret pathAndQuery : String) :
    Follows taking (Sends crates signingSecret pathAndQuery)
      (signedGet crates signingSecret pathAndQuery) none := by
  refine Follows.perform_bind trivial ?_
  rintro now _ rfl
  refine Follows.perform_bind trivial ?_
  rintro ts _ rfl
  dsimp only
  split
  · exact Follows.pure nofun
  · rename_i signature hsignature
    refine Follows.pure ?_
    rintro sent ⟨⟩
    exact ⟨rfl, ⟨ts, rfl, rfl⟩, hsignature⟩

/-- No timestamp taken is beyond the counter, and none was taken twice. -/
structure Unique {I : Type} (taken : I → Option ℤ) (s : Clocks) : Prop where
  bound : ∀ i ts, taken i = some ts → ts ≤ s.lastTimestamp
  single : ∀ i j ts, taken i = some ts → taken j = some ts → i = j

section Runs
variable {I : Type} [DecidableEq I] {crates : Crates} {signingSecret : String} {paths : I → String}
  {s₀ : Clocks} {events : List (Event I Unit ℕ)}
  {p : Pool StampAnswer I (Except VaultError SignedRequest) Clocks}

/-- A timestamp above the counter is new. -/
theorem Unique.take {taken : I → Option ℤ} {s : Clocks} (h : Unique taken s) {ts : ℤ}
    (hts : s.lastTimestamp < ts) (i : I) :
    Unique (Function.update taken i (some ts)) { s with lastTimestamp := ts } := by
  have hother : ∀ j ts', j ≠ i → Function.update taken i (some ts) j = some ts' → ts' < ts := by
    intro j ts' hj htaken
    rw [Function.update_of_ne hj] at htaken
    exact (h.bound j ts' htaken).trans_lt hts
  refine ⟨?_, ?_⟩
  · intro j ts' htaken
    by_cases hj : j = i
    · subst hj
      rw [Function.update_self] at htaken
      exact (Option.some.inj htaken).ge
    · exact (hother j ts' hj htaken).le
  · intro j k ts' hj hk
    by_cases hji : j = i <;> by_cases hki : k = i
    · rw [hji, hki]
    · subst hji
      rw [Function.update_self] at hj
      exact absurd (Option.some.inj hj) (hother k ts' hki hk).ne'
    · subst hki
      rw [Function.update_self] at hk
      exact absurd (Option.some.inj hk) (hother j ts' hji hj).ne'
    · rw [Function.update_of_ne hji] at hj
      rw [Function.update_of_ne hki] at hk
      exact h.single j k ts' hj hk

theorem run_unique (hrun : run system (client crates signingSecret paths s₀) events = some p)
    (hforward : Along system (fun p ev => goesForward p ev = true)
      (client crates signingSecret paths s₀) events) :
    ∃ taken, Watched (fun _ => taking) (fun i => Sends crates signingSecret (paths i))
      (fun _ => Unique) events p taken := by
  have hinit : Watched (fun _ => taking) (fun i => Sends crates signingSecret (paths i))
      (fun _ : List (Event I Unit ℕ) => Unique) [] (client crates signingSecret paths s₀)
      (fun _ => none) :=
    ⟨fun i => signedGet_follows crates signingSecret (paths i), nofun, nofun⟩
  refine run_watched _ _ (fun _ => Unique) _ hinit ?_ ?_ hrun hforward
  · intro past p taken i e c next r s' _ htaken hc hcond _ hexec
    cases c with
    | utcNow =>
        cases hexec
        refine ⟨taken i, rfl, ?_⟩
        rw [Function.update_eq_self]
        exact htaken.inv
    | fetchUpdate now =>
        cases hexec
        refine ⟨_, rfl, htaken.inv.take (lt_nextTimestamp ?_) i⟩
        have hupcoming : (p.threads i).upcoming = some (.fetchUpdate now) := by
          rw [hc]
          rfl
        simpa only [goesForward, hupcoming] using hcond
  · intro past p taken seconds s' _ htaken _ henv
    cases henv
    exact ⟨htaken.inv.bound, htaken.inv.single⟩

end Runs

/-- Any number of requests of one client, interleaved in any way with the clock: if the
counter is never set back, no two of them send the same timestamp. Two that go to the
same path sign different payloads, and their signatures are equal only where the digest
of two different payloads is. -/
theorem outbound_stamps_unique {I : Type} [DecidableEq I] {crates : Crates} {signingSecret : String}
    {paths : I → String} {s₀ : Clocks} {events : List (Event I Unit ℕ)}
    {p : Pool StampAnswer I (Except VaultError SignedRequest) Clocks}
    (hrun : run system (client crates signingSecret paths s₀) events = some p)
    (hforward : Along system (fun p ev => goesForward p ev = true)
      (client crates signingSecret paths s₀) events)
    {i j : I} (hij : i ≠ j) {sent sent' : SignedRequest} (hi : p.outcome i = some (.ok sent))
    (hj : p.outcome j = some (.ok sent')) :
    sent.timestamp ≠ sent'.timestamp ∧
      (paths i = paths j → sent.payload ≠ sent'.payload ∧
        (computeSignature crates signingSecret sent.payload ≠
            computeSignature crates signingSecret sent'.payload →
          sent.signature ≠ sent'.signature)) := by
  obtain ⟨taken, htaken⟩ := run_unique hrun hforward
  have hi' := htaken.follows i
  have hj' := htaken.follows j
  rw [Pool.outcome_eq_some.mp hi, follows_value] at hi'
  rw [Pool.outcome_eq_some.mp hj, follows_value] at hj'
  obtain ⟨hpath, ⟨ts, hts, htext⟩, hsignature⟩ := hi' sent rfl
  obtain ⟨hpath', ⟨ts', hts', htext'⟩, hsignature'⟩ := hj' sent' rfl
  have hne : sent.timestamp ≠ sent'.timestamp := by
    intro hsame
    rw [htext, htext'] at hsame
    have hstamp : ts = ts' := toString_inj hsame
    subst hstamp
    exact hij (htaken.inv.single i j ts hts hts')
  refine ⟨hne, ?_⟩
  intro hpaths
  refine ⟨?_, ?_⟩
  · intro hpayload
    exact hne (payload_inj (by rw [hpath, hpath', hpaths]) hpayload)
  · intro hdigest hsame
    rw [hsignature, hsignature', hsame] at hdigest
    exact hdigest rfl

def burstStart : Clocks := ⟨100, 0⟩

/-- Every request reads the clock and takes its timestamp before the next one begins. -/
def burst (n : ℕ) : List (Event ℕ Unit ℕ) :=
  (List.range n).flatMap fun i => [.act i (), .act i ()]

theorem outbound_stamps_unique_pair :
    ∃ p, run system (client sampleCrates "secret" (fun _ : ℕ => "/api/groups") burstStart)
      (burst 2) =
        some p ∧
      Along system (fun p ev => goesForward p ev = true)
        (client sampleCrates "secret" (fun _ : ℕ => "/api/groups") burstStart) (burst 2) ∧
      p.outcome 0 = some (.ok ⟨"/api/groups", "100", "sha256=ab"⟩) ∧
      p.outcome 1 = some (.ok ⟨"/api/groups", "101", "sha256=ab"⟩) ∧ ("100" : String) ≠ "101" := by
  have hchecks : (checkedRun system (fun p ev => goesForward p ev = true)
      (client sampleCrates "secret" (fun _ : ℕ => "/api/groups") burstStart) (burst 2)).map
        (fun p => (p.outcome 0, p.outcome 1)) =
      some (some (.ok ⟨"/api/groups", "100", "sha256=ab"⟩),
        some (.ok ⟨"/api/groups", "101", "sha256=ab"⟩)) := by
    rfl
  obtain ⟨p, hchecked, hp⟩ := Option.map_eq_some_iff.mp hchecks
  obtain ⟨hzero, hone⟩ := Prod.mk.inj hp
  obtain ⟨hrun, hforward⟩ := checkedRun_eq_some hchecked
  exact ⟨p, hrun, hforward, hzero, hone,
    (outbound_stamps_unique hrun hforward (by decide : (0 : ℕ) ≠ 1) hzero hone).1⟩

/-- Seven requests in one second: the first and the last send the same. -/
theorem seventh_stamp_repeats :
    ∃ p, run system (client sampleCrates "secret" (fun _ : ℕ => "/api/groups") burstStart)
      (burst 7) =
        some p ∧
      p.outcome 0 = some (.ok ⟨"/api/groups", "100", "sha256=ab"⟩) ∧
      p.outcome 6 = some (.ok ⟨"/api/groups", "100", "sha256=ab"⟩) := by
  have hends : (run system (client sampleCrates "secret" (fun _ : ℕ => "/api/groups") burstStart)
      (burst 7)).map (fun p => (p.outcome 0, p.outcome 6)) =
      some (some (.ok ⟨"/api/groups", "100", "sha256=ab"⟩),
        some (.ok ⟨"/api/groups", "100", "sha256=ab"⟩)) := by
    rfl
  obtain ⟨p, hrun, hp⟩ := Option.map_eq_some_iff.mp hends
  exact ⟨p, hrun, Prod.mk.inj hp⟩

end SimplyIpExporter.OutboundStamps
