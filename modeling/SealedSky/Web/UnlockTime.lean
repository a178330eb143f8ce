import SealedSky.Web.Addressing
import SealedSky.Web.Drand
import Mathlib.Data.Int.ConditionallyCompleteOrder
import Mathlib.Order.GaloisConnection.Defs

/-!
# The unlock time of a drand capsule (`src/lib/drand.ts:41-47`, `src/App.tsx:93-104, 176-196`)

On the code's own time scale the least round for a time and the time of a round are a Galois connection
between times and the rounds from 1 on. Sealing goes there and back, importing goes back again.

* `gc_rounds` — the connection.
* `finalise_sealed` — an import has the unlock time of the sealed item, whatever the arithmetic.
* `unlockTime_shown` — what both show, in exact arithmetic.
-/
namespace SealedSky.Web

open Js

abbrev Round := {r : ℤ // 1 ≤ r}

/-- The round for a time. -/
def roundFor (info : ChainInfo) (T : ℤ) : Round := ⟨roundAtTime T info, one_le_roundAtTime T info⟩

def timeOf (info : ChainInfo) (r : Round) : ℤ := timeAtRound r info

/-- **Rounds and times are a Galois connection.** -/
theorem gc_rounds (info : ChainInfo) : GaloisConnection (roundFor info) (timeOf info) := by
  intro T r
  have hiff : roundAtTime T info ≤ r ↔ 1 ≤ (r : ℤ) ∧ T ≤ timeAtRound r info := roundAtTime_le_iff
  exact hiff.trans (and_iff_right r.2)

theorem timeOf_injective (info : ChainInfo) : Function.Injective (timeOf info) := by
  intro r s h
  have heq : info.genesisTime + r * info.period = info.genesisTime + s * info.period := h
  exact Subtype.ext (mul_right_cancel₀ info.period_pos.ne' (add_left_cancel heq))

/-- Different rounds have different times, so a round is the one for its time. -/
theorem roundFor_timeOf (info : ChainInfo) (r : Round) : roundFor info (timeOf info r) = r :=
  timeOf_injective info ((gc_rounds info).u_l_u_eq_u r)

theorem le_sealDrand_unlockUnix (info : ChainInfo) (T : ℤ) : T ≤ (sealDrand info T).unlockUnix :=
  (gc_rounds info).le_u_l T

/-- The round before is too early, so the unlock time is less than a period away. -/
theorem sealDrand_unlockUnix_lt {info : ChainInfo} {T : ℤ} (h : info.genesisTime < T) :
    (sealDrand info T).unlockUnix < T + info.period := by
  have hearly := published_roundAtTime_lt h
  have hunlock : (sealDrand info T).unlockUnix =
      published info (roundAtTime T info) + info.period := by
    change timeAtRound (roundAtTime T info) info = _
    unfold timeAtRound published
    ring
  omega

/-- What is imported of a sealed drand capsule, by a link or by a name, has the unlock time that the
sealed item has, where that is the one of its round. -/
theorem finalise_sealed {timeAt : JsValue → Result JsValue} {round : Binary64.Double}
    {actualUnlock : JsNum} (htime : timeAt (.num (.fin round)) = .ok (.num actualUnlock))
    {ct : List UInt8} {recipientEns senderEns : Option JsString} {id : JsString} {now : TimeValue}
    {imp : ImportedItem}
    (himp : imp.envelope =
      (App.sealDrand (.fin round) actualUnlock ct recipientEns senderEns id now).envelope)
    (capsuleEns : Option JsString) (id' : JsString) :
    ∃ item, App.finalise imp capsuleEns timeAt id' = .ok item ∧ item.unlockUnix =
      (App.sealDrand (.fin round) actualUnlock ct recipientEns senderEns id now).unlockUnix := by
  have henvelope : imp.envelope =
      encodeBlob (.obj (drandPayload (.fin round) ct senderEns recipientEns)) := himp
  obtain ⟨hunpack, hpeek, -⟩ := unpack_drandPayload
    (decodeBlob_encodeBlob (drandPayload (.fin round) ct senderEns recipientEns))
  rw [← henvelope] at hunpack hpeek
  have hround : asJson (.num (.fin round)) = .num (.fin round) := by
    rw [asJson]
    rfl
  rw [App.finalise_drand hpeek hunpack, hround, htime]
  exact ⟨_, rfl, rfl⟩

/-- **The unlock time that is shown**, for every chain and every time: rounds and times are a Galois
connection, a round is the one for its time, and the time shown after sealing is not before the chosen
one and, after genesis, less than a period behind it. Whatever number the round is, and with any
arithmetic, an import shows what the sealed item shows. -/
theorem unlockTime_shown (info : ChainInfo) (T : ℤ) :
    (∀ r, 1 ≤ r → (roundAtTime T info ≤ r ↔ T ≤ timeAtRound r info)) ∧
    (∀ r, 1 ≤ r → roundAtTime (timeAtRound r info) info = r) ∧
    T ≤ (sealDrand info T).unlockUnix ∧
    (info.genesisTime < T → (sealDrand info T).unlockUnix < T + info.period) ∧
    ∀ (timeAt : JsValue → Result JsValue) (round : Binary64.Double) (actualUnlock : JsNum),
      timeAt (.num (.fin round)) = .ok (.num actualUnlock) →
      ∀ ct recipientEns senderEns id now (imp : ImportedItem) capsuleEns id',
        imp.envelope =
          (App.sealDrand (.fin round) actualUnlock ct recipientEns senderEns id now).envelope →
        ∃ item, App.finalise imp capsuleEns timeAt id' = .ok item ∧ item.unlockUnix =
          (App.sealDrand (.fin round) actualUnlock ct recipientEns senderEns id now).unlockUnix := by
  refine ⟨fun r hr => ?_, fun r hr => ?_, le_sealDrand_unlockUnix info T, sealDrand_unlockUnix_lt, ?_⟩
  · exact gc_rounds info T ⟨r, hr⟩
  · exact congrArg Subtype.val (roundFor_timeOf info ⟨r, hr⟩)
  · intro timeAt round actualUnlock htime ct recipientEns senderEns id now imp capsuleEns id' himp
    exact finalise_sealed htime himp capsuleEns id'

end SealedSky.Web
