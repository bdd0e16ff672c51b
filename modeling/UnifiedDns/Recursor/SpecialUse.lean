import UnifiedDns.Lib.AddressBlock
import UnifiedDns.Recursor.DelegationCache

/-!
# Special-use addresses

The ranges the resolver must not contact, as blocks of 32-bit and 128-bit addresses, against the tests on
octets and segments that `is_safe_upstream_ip` makes.

* `forbiddenIpv4`, `forbiddenIpv6`, `Forbidden` — the ranges, with the IPv4-mapped form of every IPv4 range.
* `isSafeUpstreamIp_iff` — the tests accept exactly the addresses outside all ranges.
* `SafeDelegations` — what a run keeps: the servers of every entry are acceptable.
-/

namespace UnifiedDns

def Ipv4Addr.number (a : Ipv4Addr) : Nat :=
  a.o0 * 2 ^ 24 + a.o1 * 2 ^ 16 + a.o2 * 2 ^ 8 + a.o3

/-- The upper 96 bits. -/
def Ipv6Addr.high (a : Ipv6Addr) : Nat :=
  a.s0.toNat * 2 ^ 80 + a.s1.toNat * 2 ^ 64 + a.s2.toNat * 2 ^ 48 + a.s3.toNat * 2 ^ 32 +
    a.s4.toNat * 2 ^ 16 + a.s5.toNat

/-- The lower 32 bits. -/
def Ipv6Addr.low (a : Ipv6Addr) : Nat := a.s6.toNat * 2 ^ 16 + a.s7.toNat

def Ipv6Addr.number (a : Ipv6Addr) : Nat := a.high * 2 ^ 32 + a.low

/-- Leading bits of an IPv4 address, read off its octets. -/
theorem Ipv4Addr.number_div (a : Ipv4Addr) :
    a.number / 2 ^ 28 = a.o0 / 16 ∧ a.number / 2 ^ 24 = a.o0 ∧
      a.number / 2 ^ 22 = a.o0 * 4 + a.o1 / 64 ∧ a.number / 2 ^ 20 = a.o0 * 16 + a.o1 / 16 ∧
      a.number / 2 ^ 17 = a.o0 * 128 + a.o1 / 2 ∧ a.number / 2 ^ 16 = a.o0 * 256 + a.o1 ∧
      a.number / 2 ^ 8 = (a.o0 * 256 + a.o1) * 256 + a.o2 := by
  have h1 := a.o1.isLt
  have h2 := a.o2.isLt
  have h3 := a.o3.isLt
  unfold Ipv4Addr.number
  omega

theorem Ipv6Addr.low_lt (a : Ipv6Addr) : a.low < 2 ^ 32 := by
  have h6 := a.s6.isLt
  have h7 := a.s7.isLt
  unfold Ipv6Addr.low
  omega

/-- The upper bits are `::ffff` when the segments are. -/
theorem Ipv6Addr.high_eq_mapped_iff (a : Ipv6Addr) :
    a.high = 0xffff ↔ a.s0 = 0 ∧ a.s1 = 0 ∧ a.s2 = 0 ∧ a.s3 = 0 ∧ a.s4 = 0 ∧ a.s5 = 0xffff := by
  have h0 := a.s0.isLt
  have h1 := a.s1.isLt
  have h2 := a.s2.isLt
  have h3 := a.s3.isLt
  have h4 := a.s4.isLt
  have h5 := a.s5.isLt
  simp only [Ipv6Addr.high, ← BitVec.toNat_inj, BitVec.ofNat_eq_ofNat, BitVec.toNat_ofNat]
  omega

/-- The number determines the segments. -/
theorem Ipv6Addr.number_eq_small_iff (a : Ipv6Addr) (n : Nat) (hn : n < 2 ^ 16) :
    a.number = n ↔ a = ⟨0, 0, 0, 0, 0, 0, 0, BitVec.ofNat 16 n⟩ := by
  obtain ⟨s0, s1, s2, s3, s4, s5, s6, s7⟩ := a
  have h0 := s0.isLt
  have h1 := s1.isLt
  have h2 := s2.isLt
  have h3 := s3.isLt
  have h4 := s4.isLt
  have h5 := s5.isLt
  have h6 := s6.isLt
  have h7 := s7.isLt
  simp only [Ipv6Addr.number, Ipv6Addr.high, Ipv6Addr.low, Ipv6Addr.mk.injEq,
    ← BitVec.toNat_inj, BitVec.ofNat_eq_ofNat, BitVec.toNat_ofNat, Nat.mod_eq_of_lt hn]
  omega

/-- Leading bits of an IPv6 address, read off its first segment. -/
theorem Ipv6Addr.number_div (a : Ipv6Addr) :
    a.number / 2 ^ 121 = a.s0.toNat / 2 ^ 9 ∧ a.number / 2 ^ 120 = a.s0.toNat / 2 ^ 8 ∧
      a.number / 2 ^ 118 = a.s0.toNat / 2 ^ 6 := by
  have h1 := a.s1.isLt
  have h2 := a.s2.isLt
  have h3 := a.s3.isLt
  have h4 := a.s4.isLt
  have h5 := a.s5.isLt
  have h6 := a.s6.isLt
  have h7 := a.s7.isLt
  unfold Ipv6Addr.number Ipv6Addr.high Ipv6Addr.low
  omega

namespace Recursor

/-- The IPv4 ranges: private (three), loopback, link-local, shared, benchmarking, multicast, broadcast,
documentation (three) and "this network". -/
def forbiddenIpv4 : List (AddressBlock 32) :=
  [⟨10 * 2 ^ 24, 8, by decide⟩, ⟨172 * 2 ^ 24 + 16 * 2 ^ 16, 12, by decide⟩,
    ⟨192 * 2 ^ 24 + 168 * 2 ^ 16, 16, by decide⟩, ⟨127 * 2 ^ 24, 8, by decide⟩,
    ⟨169 * 2 ^ 24 + 254 * 2 ^ 16, 16, by decide⟩, ⟨100 * 2 ^ 24 + 64 * 2 ^ 16, 10, by decide⟩,
    ⟨198 * 2 ^ 24 + 18 * 2 ^ 16, 15, by decide⟩, ⟨224 * 2 ^ 24, 4, by decide⟩,
    ⟨2 ^ 32 - 1, 32, by decide⟩, ⟨192 * 2 ^ 24 + 2 * 2 ^ 8, 24, by decide⟩,
    ⟨198 * 2 ^ 24 + 51 * 2 ^ 16 + 100 * 2 ^ 8, 24, by decide⟩,
    ⟨203 * 2 ^ 24 + 113 * 2 ^ 8, 24, by decide⟩, ⟨0, 8, by decide⟩]

/-- The IPv6 ranges: loopback, unspecified, multicast, link-local, unique local, and the IPv4 ranges
behind `::ffff:0:0/96`. -/
def forbiddenIpv6 : List (AddressBlock 128) :=
  [⟨1, 128, by decide⟩, ⟨0, 128, by decide⟩, ⟨0xff00 * 2 ^ 112, 8, by decide⟩,
    ⟨0xfe80 * 2 ^ 112, 10, by decide⟩, ⟨0xfc00 * 2 ^ 112, 7, by decide⟩] ++
    forbiddenIpv4.map (AddressBlock.embed 96 0xffff)

/-- The address lies in one of the ranges. -/
def Forbidden : IpAddr → Prop
  | .v4 a => ∃ block ∈ forbiddenIpv4, block.Contains a.number
  | .v6 a => ∃ block ∈ forbiddenIpv6, block.Contains a.number

/-! ### IPv4 -/

/-- The IPv4 ranges, by octets. -/
theorem forbiddenIpv4_iff (a : Ipv4Addr) :
    (∃ block ∈ forbiddenIpv4, block.Contains a.number) ↔
      a.o0 = 10 ∨ (a.o0 = 172 ∧ a.o1.val / 16 = 1) ∨ (a.o0 = 192 ∧ a.o1 = 168) ∨ a.o0 = 127 ∨
        (a.o0 = 169 ∧ a.o1 = 254) ∨ (a.o0 = 100 ∧ a.o1.val / 64 = 1) ∨
        (a.o0 = 198 ∧ (a.o1 = 18 ∨ a.o1 = 19)) ∨ a.o0.val / 16 = 14 ∨ a = ⟨255, 255, 255, 255⟩ ∨
        (a.o0 = 192 ∧ a.o1 = 0 ∧ a.o2 = 2) ∨ (a.o0 = 198 ∧ a.o1 = 51 ∧ a.o2 = 100) ∨
        (a.o0 = 203 ∧ a.o1 = 0 ∧ a.o2 = 113) ∨ a.o0 = 0 := by
  obtain ⟨h28, h24, h22, h20, h17, h16, h8⟩ := Ipv4Addr.number_div a
  have hnumber : a.number = ((a.o0 * 256 + a.o1) * 256 + a.o2) * 256 + a.o3 := by
    unfold Ipv4Addr.number
    omega
  simp only [forbiddenIpv4, List.mem_cons, List.not_mem_nil, or_false, exists_eq_or_imp,
    exists_eq_left, AddressBlock.Contains, Nat.reduceSub, Nat.reducePow, Nat.reduceMul,
    Nat.reduceAdd, Nat.reduceDiv, Nat.div_one] at *
  rw [h28, h24, h22, h20, h17, h16, h8, hnumber]
  clear h28 h24 h22 h20 h17 h16 h8 hnumber
  obtain ⟨o0, o1, o2, o3⟩ := a
  have h0 := o0.isLt
  have h1 := o1.isLt
  have h2 := o2.isLt
  have h3 := o3.isLt
  simp only [Ipv4Addr.mk.injEq, Fin.ext_iff, Fin.isValue, Fin.coe_ofNat_eq_mod, Nat.reduceMod]
  -- Range by range: the leading bits are a given number when the octets are.
  refine or_congr Iff.rfl (or_congr ?_ (or_congr ?_ (or_congr Iff.rfl (or_congr ?_ (or_congr ?_
    (or_congr ?_ (or_congr Iff.rfl (or_congr ?_ (or_congr ?_ (or_congr ?_ (or_congr ?_
      Iff.rfl)))))))))))
  all_goals omega

/-- The octet tests refuse exactly the IPv4 ranges. -/
theorem isSafeIpv4_iff (a : Ipv4Addr) :
    isSafeIpv4 a = true ↔ ¬ ∃ block ∈ forbiddenIpv4, block.Contains a.number := by
  rw [forbiddenIpv4_iff]
  simp only [isSafeIpv4, isPrivate, isDocumentation, Bool.if_false_left, Bool.and_eq_true,
    Bool.not_eq_true', ← Bool.not_eq_true, Bool.or_eq_true, decide_eq_true_eq, not_or,
    Bool.if_true_right]
  constructor
  · grind
  · grind

/-! ### IPv6 -/

/-- The octets that `is_safe_upstream_ip` takes out of the last two segments make up the lower bits. -/
theorem mappedIpv4_number (a : Ipv6Addr) : (mappedIpv4 a).number = a.low := by
  have h6 := a.s6.isLt
  have h7 := a.s7.isLt
  simp only [mappedIpv4, Ipv4Addr.number, Ipv6Addr.low, Fin.ofNat]
  omega

theorem forbiddenIpv4_base_lt : ∀ block ∈ forbiddenIpv4, block.base < 2 ^ 32 := by
  decide

/-- The IPv4 ranges behind `::ffff:0:0/96`, by the test on the address they map. -/
theorem mapped_contains_iff (a : Ipv6Addr) :
    (∃ block ∈ forbiddenIpv4.map (AddressBlock.embed 96 0xffff), block.Contains a.number) ↔
      a.high = 0xffff ∧ isSafeIpv4 (mappedIpv4 a) = false := by
  have hsafe := isSafeIpv4_iff (mappedIpv4 a)
  rw [mappedIpv4_number] at hsafe
  rw [← Bool.not_eq_true, hsafe, not_not]
  constructor
  · rintro ⟨wide, hwide, hcontains⟩
    obtain ⟨block, hblock, rfl⟩ := List.mem_map.mp hwide
    obtain ⟨hhigh, hlow⟩ :=
      (AddressBlock.contains_embed (forbiddenIpv4_base_lt block hblock) a.low_lt).mp hcontains
    exact ⟨hhigh, block, hblock, hlow⟩
  · rintro ⟨hhigh, block, hblock, hlow⟩
    refine ⟨_, List.mem_map_of_mem hblock, ?_⟩
    exact (AddressBlock.contains_embed (forbiddenIpv4_base_lt block hblock) a.low_lt).mpr
      ⟨hhigh, hlow⟩

/-- The five ranges that are not mapped, by the tests of the code. -/
theorem forbiddenIpv6_iff (a : Ipv6Addr) :
    (∃ block ∈ forbiddenIpv6, block.Contains a.number) ↔
      a = ⟨0, 0, 0, 0, 0, 0, 0, 1⟩ ∨ a = ⟨0, 0, 0, 0, 0, 0, 0, 0⟩ ∨ a.s0 &&& 0xff00 = 0xff00 ∨
        a.s0 &&& 0xffc0 = 0xfe80 ∨ a.s0 &&& 0xfe00 = 0xfc00 ∨
          (a.high = 0xffff ∧ isSafeIpv4 (mappedIpv4 a) = false) := by
  obtain ⟨h121, h120, h118⟩ := Ipv6Addr.number_div a
  have hmulticast := and_highMask_eq_iff a.s0 0xff00 8 (by decide)
  have hlinkLocal := and_highMask_eq_iff a.s0 0xfe80 6 (by decide)
  have hunique := and_highMask_eq_iff a.s0 0xfc00 9 (by decide)
  have hloopback : a.number = 1 ↔ a = ⟨0, 0, 0, 0, 0, 0, 0, 1⟩ := a.number_eq_small_iff 1 (by decide)
  have hunspecified : a.number = 0 ↔ a = ⟨0, 0, 0, 0, 0, 0, 0, 0⟩ :=
    a.number_eq_small_iff 0 (by decide)
  rw [← mapped_contains_iff, ← hloopback, ← hunspecified]
  have hmasks : BitVec.allOnes 16 <<< 8 = 0xff00 ∧ BitVec.allOnes 16 <<< 6 = 0xffc0 ∧
      BitVec.allOnes 16 <<< 9 = 0xfe00 := by decide
  rw [hmasks.1] at hmulticast
  rw [hmasks.2.1] at hlinkLocal
  rw [hmasks.2.2] at hunique
  rw [hmulticast, hlinkLocal, hunique, ← h121, ← h120, ← h118]
  simp only [forbiddenIpv6, List.mem_append, or_and_right, exists_or, List.mem_cons,
    List.not_mem_nil, or_false, exists_eq_left, AddressBlock.Contains]
  simp [or_assoc]

/-- **The address test.**  Over all IPv4 and IPv6 addresses it accepts what lies outside the ranges. -/
theorem isSafeUpstreamIp_iff (ip : IpAddr) : isSafeUpstreamIp ip = true ↔ ¬ Forbidden ip := by
  cases ip with
  | v4 a => exact isSafeIpv4_iff a
  | v6 a =>
      show _ ↔ ¬ ∃ block ∈ forbiddenIpv6, block.Contains a.number
      rw [forbiddenIpv6_iff, Ipv6Addr.high_eq_mapped_iff]
      unfold isSafeUpstreamIp
      split
      · grind
      · split
        · grind
        · split
          · grind
          · split
            · grind
            · grind

theorem rootServers_safe : ∀ ip ∈ rootServers, isSafeUpstreamIp ip = true := by
  decide

/-! ### The delegation cache -/

/-- All servers in the delegation cache pass the test. -/
def SafeDelegations (s : RState) : Prop :=
  ∀ key entry, s.delegationCache key = some entry → ∀ ip ∈ entry.servers, isSafeUpstreamIp ip = true

theorem SafeDelegations.runInvariant (env : REnv) : RunInvariant env SafeDelegations where
  of_shrunk h _ hcache key entry hentry := h key entry (hcache key entry hentry)
  write h _ _ hservers key entry hentry := by
    rcases TextMap.insert_eq_some hentry with ⟨-, rfl⟩ | hold
    · exact hservers
    · exact h key entry hold

theorem ResolverRun.safeDelegations {env : REnv} {s : RState} (hrun : ResolverRun env s) :
    SafeDelegations s := by
  apply (SafeDelegations.runInvariant env).of_run _ hrun
  intro key entry hentry
  cases hentry

end Recursor
end UnifiedDns
