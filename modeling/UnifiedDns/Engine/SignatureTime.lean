import UnifiedDns.Engine.CacheSafety

/-!
# The time fields of a signature

An RRSIG carries its inception and expiration as seconds modulo `2 ^ 32`.  `rrsig_time_valid` compares
them with the clock by three wrapping subtractions, and `calculate_cache_ttl` takes a fourth for the time
that is left.

* `ValidityInterval` — an interval of real times that the two fields stand for.
* `rrsigTimeValid_iff` — the time test is membership in such an interval.
* `ValidityInterval.expiration_eq` — the remaining validity is the way to its end.
* `rrsigTimeValid_realTime` — both tests on real times.
* `messageRrsigs_valid_for_ttl` — the signatures of a message are good for the lifetime it gets.
-/

namespace UnifiedDns
namespace Engine

open Dnssec

/-- An interval of real times that the time fields of a signature stand for, shorter than half a round of
the 32-bit clock. -/
structure ValidityInterval (sig : RRSIG) where
  inception : Int
  expiration : Int
  inception_modEq : inception ≡ sig.sigInception.toNat [ZMOD 2 ^ 32]
  expiration_modEq : expiration ≡ sig.sigExpiration.toNat [ZMOD 2 ^ 32]
  ordered : 0 < expiration - inception
  short : expiration - inception < 2 ^ 31

variable {sig : RRSIG}

namespace ValidityInterval

/-- The clock reading lies in the interval. -/
def Contains (interval : ValidityInterval sig) (now : Nat) : Prop :=
  interval.inception ≤ now ∧ now ≤ interval.expiration

/-- What `calculate_cache_ttl` takes for the remaining validity is the way to the end of the interval. -/
theorem expiration_eq {interval : ValidityInterval sig} {now : Nat} (h : interval.Contains now) :
    interval.expiration = now + remainingValidity sig now := by
  obtain ⟨hbegun, hahead⟩ := h
  have hshort := interval.short
  have hdistance := Serial.distance_eq_of_modEq (Serial.ofNat_modEq now) interval.expiration_modEq
    (by linarith) (by linarith)
  rw [remainingValidity, hdistance]
  exact (add_sub_cancel _ _).symm

end ValidityInterval

/-- The time test is membership in an interval of real times. -/
theorem rrsigTimeValid_iff {now : Nat} :
    rrsigTimeValid sig now = true ↔ ∃ interval : ValidityInterval sig, interval.Contains now := by
  have hwithin := Serial.within_iff (a := sig.sigInception) (b := sig.sigExpiration) (t := now)
  simp only [rrsigTimeValid, Bool.and_eq_true, decide_eq_true_eq, and_assoc]
  refine hwithin.trans ⟨?_, ?_⟩
  · rintro ⟨inception, expiration, hinception, hexpiration, hbegun, hahead, hordered, hshort⟩
    exact ⟨⟨inception, expiration, hinception, hexpiration, hordered, by linarith⟩, hbegun, hahead⟩
  · rintro ⟨interval, hbegun, hahead⟩
    have hshort := interval.short
    exact ⟨interval.inception, interval.expiration, interval.inception_modEq,
      interval.expiration_modEq, hbegun, hahead, interval.ordered, by linarith⟩

/-- A signature that is good now is good as long as its remaining validity says. -/
theorem rrsigTimeValid_of_remaining {now later : Nat} (hvalid : rrsigTimeValid sig now = true)
    (hpast : now ≤ later) (hleft : (later : Int) ≤ now + remainingValidity sig now) :
    rrsigTimeValid sig later = true := by
  obtain ⟨interval, hcontains⟩ := rrsigTimeValid_iff.mp hvalid
  have hend := ValidityInterval.expiration_eq hcontains
  refine rrsigTimeValid_iff.mpr ⟨interval, hcontains.1.trans (Int.ofNat_le.mpr hpast), ?_⟩
  rwa [hend]

/-- The time test on real times: a signature is good exactly in the intervals its fields stand for, and it
stays good for the remaining validity that `calculate_cache_ttl` computes. -/
theorem rrsigTimeValid_realTime (sig : RRSIG) (now : Nat) :
    (rrsigTimeValid sig now = true ↔
      ∃ inception expiration : Int, inception ≡ sig.sigInception.toNat [ZMOD 2 ^ 32] ∧
        expiration ≡ sig.sigExpiration.toNat [ZMOD 2 ^ 32] ∧ inception ≤ now ∧ now ≤ expiration ∧
        0 < expiration - inception ∧ expiration - inception < 2 ^ 31) ∧
    (rrsigTimeValid sig now = true → ∀ later : Nat, now ≤ later →
      (later : Int) ≤ now + remainingValidity sig now → rrsigTimeValid sig later = true) := by
  refine ⟨rrsigTimeValid_iff.trans ⟨?_, ?_⟩, fun hvalid later => rrsigTimeValid_of_remaining hvalid⟩
  · rintro ⟨interval, hbegun, hahead⟩
    exact ⟨interval.inception, interval.expiration, interval.inception_modEq,
      interval.expiration_modEq, hbegun, hahead, interval.ordered, interval.short⟩
  · rintro ⟨inception, expiration, hinception, hexpiration, hbegun, hahead, hordered, hshort⟩
    exact ⟨⟨inception, expiration, hinception, hexpiration, hordered, hshort⟩, hbegun, hahead⟩

/-- A signature from 100 s before the 32-bit clock wraps to 100 s behind the wrap. -/
def wrappingRrsig : RRSIG :=
  ⟨.A, 8, 0, 300, 100, 4294967196, 1, .root, [1]⟩

/-- Good 96 s before the wrap with 196 s left, hence good at the last of them. -/
theorem rrsigTimeValid_realTime_wrapping :
    remainingValidity wrappingRrsig 4294967200 = 196 ∧
      rrsigTimeValid wrappingRrsig 4294967396 = true :=
  ⟨by decide, (rrsigTimeValid_realTime wrappingRrsig 4294967200).2 (by decide) 4294967396 (by decide)
    (by decide)⟩

/-- Signatures that are good when a message is cached as `secure` are good for the lifetime it gets. -/
theorem messageRrsigs_valid_for_ttl {msg : Message} {now later : Nat}
    (hvalid : ∀ sig ∈ messageRrsigs msg, rrsigTimeValid sig now = true) (hpast : now ≤ later)
    (hlife : later ≤ now + calculateCacheTtl msg .secure now) :
    ∀ sig ∈ messageRrsigs msg, rrsigTimeValid sig later = true := by
  intro sig hsig
  rcases calculateCacheTtl_le sig hsig with hzero | hlong
  · rw [hzero] at hlife
    rw [le_antisymm hlife hpast]
    exact hvalid sig hsig
  · exact rrsigTimeValid_of_remaining (hvalid sig hsig) hpast (by omega)

end Engine
end UnifiedDns
