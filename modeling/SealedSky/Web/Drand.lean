import Mathlib.Data.Rat.Floor
import Mathlib.Order.Bounds.Basic
import Mathlib.Tactic.Linarith

/-!
# Rounds of the beacon (`sealed-sky-web/src/lib/drand.ts`)

`roundAtTime` and `timeAtRound` count rounds as if round `r` came out at `genesis_time + r · period`.
drand publishes round 1 at genesis, so round `r` comes out one period earlier. Times are whole
seconds and the arithmetic is exact.

* `roundAtTime_le_iff` — `roundAtTime` is the least round of the code's own time scale.
* `published_roundAtTime_lt` — after genesis the round sealed for is out before the unlock time.
* `roundAtTime_isLeast_iff` — `roundAtTime` is the least round out at the unlock time or later only
  for times up to genesis.
-/
namespace SealedSky.Web

/-- The two fields of `ChainInfo` (drand.ts:13) that the arithmetic reads. -/
structure ChainInfo where
  period : ℤ
  genesisTime : ℤ
  period_pos : 0 < period

/-- drand.ts:41. -/
def roundAtTime (targetUnix : ℤ) (info : ChainInfo) : ℤ :=
  max 1 ⌈((targetUnix - info.genesisTime : ℤ) : ℚ) / info.period⌉

/-- drand.ts:45. -/
def timeAtRound (round : ℤ) (info : ChainInfo) : ℤ := info.genesisTime + round * info.period

/-- The round that `sealDrand` encrypts to and the unlock time that it shows (App.tsx:178). -/
structure DrandSeal where
  round : ℤ
  unlockUnix : ℤ

def sealDrand (info : ChainInfo) (unlockUnix : ℤ) : DrandSeal :=
  let round := roundAtTime unlockUnix info
  ⟨round, timeAtRound round info⟩

/-- When drand publishes a round. -/
def published (info : ChainInfo) (round : ℤ) : ℤ := info.genesisTime + (round - 1) * info.period

variable {info : ChainInfo} {T r : ℤ}

theorem one_le_roundAtTime (T : ℤ) (info : ChainInfo) : 1 ≤ roundAtTime T info := le_max_left _ _

theorem published_eq_timeAtRound (info : ChainInfo) (r : ℤ) :
    published info r = timeAtRound (r - 1) info := rfl

theorem published_mono {r s : ℤ} (h : r ≤ s) : published info r ≤ published info s := by
  have := mul_le_mul_of_nonneg_right (sub_le_sub_right h 1) info.period_pos.le
  unfold published
  omega

theorem roundAtTime_le_iff : roundAtTime T info ≤ r ↔ 1 ≤ r ∧ T ≤ timeAtRound r info := by
  have hpos : (0 : ℚ) < info.period := by exact_mod_cast info.period_pos
  have hceil : ⌈((T - info.genesisTime : ℤ) : ℚ) / info.period⌉ ≤ r ↔
      T ≤ timeAtRound r info := by
    rw [Int.ceil_le, div_le_iff₀ hpos]
    unfold timeAtRound
    constructor
    · intro h
      have h : T - info.genesisTime ≤ r * info.period := by exact_mod_cast h
      omega
    · intro h
      have h : T - info.genesisTime ≤ r * info.period := by omega
      exact_mod_cast h
  rw [roundAtTime, max_le_iff, hceil]

/-- **After genesis the round sealed for comes out too early**: before the unlock time. -/
theorem published_roundAtTime_lt (h : info.genesisTime < T) :
    published info (roundAtTime T info) < T := by
  by_contra hlate
  have hlate : T ≤ timeAtRound (roundAtTime T info - 1) info := not_lt.1 hlate
  have hone := one_le_roundAtTime T info
  by_cases hfirst : roundAtTime T info = 1
  · -- round 1 comes out at genesis
    rw [hfirst, timeAtRound, sub_self, zero_mul, add_zero] at hlate
    omega
  · have hle := roundAtTime_le_iff.2 ⟨by omega, hlate⟩
    omega

/-- The round after it is the one that was meant. -/
theorem roundAtTime_succ_isLeast (h : info.genesisTime < T) :
    IsLeast {r | 1 ≤ r ∧ T ≤ published info r} (roundAtTime T info + 1) := by
  obtain ⟨hone, htime⟩ := roundAtTime_le_iff.1 (le_refl (roundAtTime T info))
  constructor
  · refine ⟨by omega, ?_⟩
    rwa [published_eq_timeAtRound, add_sub_cancel_right]
  · rintro r ⟨hr, hpub⟩
    by_contra hlt
    have hle : published info r ≤ published info (roundAtTime T info) := published_mono (by omega)
    have hearly := published_roundAtTime_lt h
    omega

theorem roundAtTime_of_le_genesis (h : T ≤ info.genesisTime) : roundAtTime T info = 1 := by
  refine le_antisymm (roundAtTime_le_iff.2 ⟨le_refl 1, ?_⟩) (one_le_roundAtTime T info)
  have := info.period_pos
  unfold timeAtRound
  omega

/-- **The round sealed for is the least that is out no earlier than the unlock time** exactly when
that time is not after genesis. -/
theorem roundAtTime_isLeast_iff (T : ℤ) (info : ChainInfo) :
    IsLeast {r | 1 ≤ r ∧ T ≤ published info r} (sealDrand info T).round ↔
      T ≤ info.genesisTime := by
  change IsLeast {r | 1 ≤ r ∧ T ≤ published info r} (roundAtTime T info) ↔ _
  constructor
  · rintro ⟨⟨-, hpub⟩, -⟩
    by_contra hafter
    have := published_roundAtTime_lt (not_le.1 hafter)
    omega
  · intro h
    rw [roundAtTime_of_le_genesis h]
    constructor
    · refine ⟨le_refl 1, ?_⟩
      rwa [published, sub_self, zero_mul, add_zero]
    · rintro r ⟨hr, -⟩
      exact hr

/-- A chain like quicknet's. -/
def quicknet : ChainInfo := ⟨3, 1692803367, by decide⟩

/-- 14 seconds after genesis: the round sealed for is out after 12 seconds, and the next one after
15. -/
theorem sealDrand_early :
    (sealDrand quicknet 1692803381).round = 5 ∧ published quicknet 5 = 1692803379 ∧
      ¬ IsLeast {r | 1 ≤ r ∧ (1692803381 : ℤ) ≤ published quicknet r}
        (sealDrand quicknet 1692803381).round := by
  refine ⟨by decide +kernel, by decide, fun h => ?_⟩
  have hround : (sealDrand quicknet 1692803381).round = 5 := by decide +kernel
  rw [hround] at h
  exact absurd h.1.2 (by decide)

end SealedSky.Web
