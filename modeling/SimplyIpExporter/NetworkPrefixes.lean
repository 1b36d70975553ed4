import SimplyIpExporter.IpAddresses
import SimplyIpExporter.LaminarCovers

/-!
# Networks as sets of addresses

A network holds the addresses that agree with it on the leading bits. Two networks
that share an address are nested, the one with the longer prefix inside the other, so
the networks without host bits are a laminar family; and whether two networks share
an address can be read off their first addresses.
-/
namespace SimplyIpExporter.NetworkPrefixes
open IpAddresses LaminarCovers

section Bits
variable {w k j : ℕ} {x y a b : BitVec w}

theorem ushiftRight_eq_iff : x >>> k = y >>> k ↔ ∀ i, k ≤ i → x.getLsbD i = y.getLsbD i := by
  rw [BitVec.eq_of_getLsbD_eq_iff]
  constructor
  · intro h i hi
    by_cases hw : i < w
    · have hbit := h (i - k) (by omega)
      rw [BitVec.getLsbD_ushiftRight, BitVec.getLsbD_ushiftRight, Nat.add_sub_cancel' hi] at hbit
      exact hbit
    · rw [BitVec.getLsbD_of_ge x i (by omega), BitVec.getLsbD_of_ge y i (by omega)]
  · intro h i _
    rw [BitVec.getLsbD_ushiftRight, BitVec.getLsbD_ushiftRight]
    exact h (k + i) (by omega)

theorem ushiftRight_eq_mono (hkj : k ≤ j) (h : x >>> k = y >>> k) : x >>> j = y >>> j := by
  rw [ushiftRight_eq_iff] at h ⊢
  exact fun i hi => h i (hkj.trans hi)

theorem floor_ushiftRight (x : BitVec w) (k : ℕ) : (x >>> k <<< k) >>> k = x >>> k := by
  rw [ushiftRight_eq_iff]
  intro i hi
  by_cases hw : i < w
  · simp [hw, Nat.not_lt.mpr hi, Nat.add_sub_cancel' hi]
  · rw [BitVec.getLsbD_of_ge _ i (by omega), BitVec.getLsbD_of_ge x i (by omega)]

/-- Two leading parts that agree with one address: the longer refines the shorter. -/
theorem ushiftRight_nested (hjk : j ≤ k) (hx : x >>> k = a >>> k) (hy : y >>> j = a >>> j)
    (hb : y >>> j = b >>> j) : x >>> k = b >>> k := by
  have hab : a >>> k = b >>> k := ushiftRight_eq_mono hjk (hy.symm.trans hb)
  exact hx.trans hab

/-- The addresses that agree determine how many leading bits are compared. -/
theorem le_of_same_agreement (hk : k ≤ w)
    (h : ∀ a : BitVec w, x >>> k = a >>> k ↔ y >>> j = a >>> j) :
    k ≤ j := by
  by_contra hlt
  have hself : y >>> j = x >>> j := (h x).mp rfl
  -- flipping bit `j` stays inside the first and leaves the second
  have hflip : x >>> k = (x ^^^ BitVec.twoPow w j) >>> k := by
    rw [ushiftRight_eq_iff]
    intro i hi
    simp [BitVec.getLsbD_twoPow, show j ≠ i by omega]
  have hagree := hself.symm.trans ((h _).mp hflip)
  have hbit := ushiftRight_eq_iff.mp hagree j (le_refl j)
  simp [show j < w by omega] at hbit

theorem eq_of_same_agreement (hk : k ≤ w) (hj : j ≤ w) (hx : x >>> k <<< k = x)
    (hy : y >>> j <<< j = y) (h : ∀ a : BitVec w, x >>> k = a >>> k ↔ y >>> j = a >>> j) :
    k = j ∧ x = y := by
  have hle : k ≤ j := le_of_same_agreement hk h
  have hge : j ≤ k := le_of_same_agreement hj fun a => (h a).symm
  have heq : k = j := le_antisymm hle hge
  subst heq
  have hself : x >>> k = y >>> k := (h y).mpr rfl
  exact ⟨rfl, by rw [← hx, ← hy, hself]⟩

end Bits

section Networks
variable {m n : IpNet} {a : IpAddr}

def addresses (n : IpNet) : Set IpAddr := {a | n.contains a = true}

/-- The number of leading bits compared. -/
def prefixLen : IpNet → ℕ
  | .v4 _ len => len.val
  | .v6 _ len => len.val

/-- No host bit is set. -/
def Canonical : IpNet → Prop
  | .v4 addr len => addr >>> (32 - len.val) <<< (32 - len.val) = addr
  | .v6 addr len => addr >>> (128 - len.val) <<< (128 - len.val) = addr

instance (n : IpNet) : Decidable (Canonical n) := by
  cases n <;> (unfold Canonical; infer_instance)

theorem contains_network (n : IpNet) : n.contains n.network = true := by
  cases n with
  | v4 addr len => simpa [IpNet.contains, IpNet.network] using (floor_ushiftRight addr _).symm
  | v6 addr len => simpa [IpNet.contains, IpNet.network] using (floor_ushiftRight addr _).symm

/-- Of two networks that share an address the longer prefix is inside the other. -/
theorem contains_of_shared (hlen : prefixLen m ≤ prefixLen n) (hm : m.contains a = true)
    (hn : n.contains a = true) {b : IpAddr} (hb : n.contains b = true) : m.contains b = true := by
  cases m <;> cases n <;> cases a <;> cases b <;>
    simp only [IpNet.contains, beq_iff_eq, Bool.false_eq_true] at hm hn hb ⊢
  · exact ushiftRight_nested (Nat.sub_le_sub_left hlen 32) hm hn hb
  · exact ushiftRight_nested (Nat.sub_le_sub_left hlen 128) hm hn hb

theorem shared_iff : (∃ a, m.contains a = true ∧ n.contains a = true) ↔
    m.contains n.network = true ∨ n.contains m.network = true := by
  constructor
  · rintro ⟨a, hm, hn⟩
    rcases Nat.le_total (prefixLen m) (prefixLen n) with hle | hle
    · exact .inl (contains_of_shared hle hm hn (contains_network n))
    · exact .inr (contains_of_shared hle hn hm (contains_network m))
  · rintro (h | h)
    · exact ⟨_, h, contains_network n⟩
    · exact ⟨_, contains_network m, h⟩

theorem canonical_injOn : Set.InjOn addresses {n | Canonical n} := by
  intro m hm n hn hsame
  have hiff : ∀ a, m.contains a = true ↔ n.contains a = true := fun a => Set.ext_iff.mp hsame a
  cases m with
  | v4 x k =>
      cases n with
      | v4 y j =>
          obtain ⟨hlen, rfl⟩ := eq_of_same_agreement (Nat.sub_le 32 k) (Nat.sub_le 32 j) hm hn
            fun a => by simpa [IpNet.contains] using hiff (.v4 a)
          rw [show k = j from Fin.ext (by omega)]
      | v6 y j => exact absurd ((hiff (IpNet.v4 x k).network).mp (contains_network _)) nofun
  | v6 x k =>
      cases n with
      | v4 y j => exact absurd ((hiff (IpNet.v6 x k).network).mp (contains_network _)) nofun
      | v6 y j =>
          obtain ⟨hlen, rfl⟩ := eq_of_same_agreement (Nat.sub_le 128 k) (Nat.sub_le 128 j) hm hn
            fun a => by simpa [IpNet.contains] using hiff (.v6 a)
          rw [show k = j from Fin.ext (by omega)]

theorem laminar : Laminar {n | Canonical n} addresses prefixLen where
  nonempty n _ := ⟨n.network, contains_network n⟩
  injOn := canonical_injOn
  nested m _ n _ a hm hn := by
    rcases Nat.le_total (prefixLen m) (prefixLen n) with hle | hle
    · exact .inr fun b hb => contains_of_shared hle hm hn hb
    · exact .inl fun b hb => contains_of_shared hle hn hm hb
  ascent m hm n hn hsub hne := by
    by_contra hle
    have hshared : n.contains m.network = true := hsub (contains_network m)
    have hback : addresses n ⊆ addresses m := fun b hb =>
      contains_of_shared (Nat.le_of_not_lt hle) (contains_network m) hshared hb
    exact hne (canonical_injOn hm hn (hsub.antisymm hback))

/-- `IpNet::trunc`: the network with its host bits cleared. -/
def trunc : IpNet → IpNet
  | .v4 addr len => .v4 (addr >>> (32 - len.val) <<< (32 - len.val)) len
  | .v6 addr len => .v6 (addr >>> (128 - len.val) <<< (128 - len.val)) len

theorem canonical_trunc (n : IpNet) : Canonical (trunc n) := by
  cases n <;> simp only [Canonical, trunc, floor_ushiftRight]

theorem contains_trunc (n : IpNet) (a : IpAddr) : (trunc n).contains a = n.contains a := by
  cases n <;> cases a <;> simp only [IpNet.contains, trunc, floor_ushiftRight]

end Networks
end SimplyIpExporter.NetworkPrefixes
