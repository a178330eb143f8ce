import SealedSky.Js.Arith
import SealedSky.Web.Symmetric
import Mathlib.Data.Int.ModEq

/-!
# What a commitment binds (`sealed-sky-web/src/lib/symmetric.ts`, `bytes.ts`)

The key, the iv and the eight bytes of the unlock time are hashed one behind the other. Where the key
ends and the iv begins is not hashed, and no length is checked when a commitment is verified; of the
unlock time `u64BeBytes` keeps the low 64 bits of the whole part.

* `u64BeBytes_inj` — two whole numbers have the same eight bytes when they agree modulo `2 ^ 64`.
* `verifyCommitment_iff` — what verifies has the same bytes in front of the hash.
* `verifyCommitment_binds_iff` — what verifies is what was committed to, unless a boundary was moved,
  the unlock time was wrapped, or it lies between `-1` and a committed `0`.
-/
namespace SealedSky.Web

open Js Sha256 Binary64 Fallible

/-! ## Eight bytes of a whole number -/

theorem u64Loop_append (k : ℕ) (v : ℤ) (out : List UInt8) :
    u64Loop k v out = u64Loop k v [] ++ out := by
  induction k generalizing v out with
  | zero => rfl
  | succ k ih =>
    rw [u64Loop, u64Loop, ih, ih _ [UInt8.ofNat _], List.append_assoc]
    rfl

theorem u64Loop_length (k : ℕ) (v : ℤ) (out : List UInt8) :
    (u64Loop k v out).length = k + out.length := by
  induction k generalizing v out with
  | zero => simp [u64Loop]
  | succ k ih =>
    rw [u64Loop, ih, List.length_cons]
    omega

/-- The last byte and the others, as one remainder. -/
theorem modEq_mul_iff (M v w : ℤ) :
    v ≡ w [ZMOD M * 256] ↔ v / 256 ≡ w / 256 [ZMOD M] ∧ v % 256 = w % 256 := by
  have hv := Int.mul_ediv_add_emod v 256
  have hw := Int.mul_ediv_add_emod w 256
  constructor
  · intro h
    have hlow : v % 256 = w % 256 := h.of_mul_left M
    refine ⟨?_, hlow⟩
    rw [Int.modEq_iff_dvd] at h ⊢
    obtain ⟨k, hk⟩ := h
    refine ⟨k, ?_⟩
    have hdiff : 256 * (w / 256 - v / 256) = 256 * (M * k) := by linarith
    exact mul_left_cancel₀ (by decide) hdiff
  · rintro ⟨h, hlow⟩
    rw [Int.modEq_iff_dvd] at h ⊢
    obtain ⟨k, hk⟩ := h
    refine ⟨k, ?_⟩
    calc w - v = 256 * (w / 256 - v / 256) := by linarith
      _ = M * 256 * k := by rw [hk]; ring

/-- **Two numbers have the same bytes** when they agree modulo a power of 256. -/
theorem u64Loop_inj (k : ℕ) (v w : ℤ) :
    u64Loop k v [] = u64Loop k w [] ↔ v ≡ w [ZMOD 256 ^ k] := by
  induction k generalizing v w with
  | zero => simp [u64Loop, Int.modEq_one]
  | succ k ih =>
    have hlow : [UInt8.ofNat (v % 256).toNat] = [UInt8.ofNat (w % 256).toNat] ↔ v % 256 = w % 256 := by
      rw [List.cons_eq_cons, ← UInt8.toNat_inj, UInt8.toNat_ofNat', UInt8.toNat_ofNat']
      simp only [and_true]
      omega
    rw [pow_succ, modEq_mul_iff, ← ih, ← hlow, u64Loop, u64Loop, u64Loop_append,
      u64Loop_append k (w / 256)]
    constructor
    · intro h
      exact List.append_inj h (by rw [u64Loop_length, u64Loop_length])
    · rintro ⟨hhigh, hlast⟩
      rw [hhigh, hlast]

/-! ## What is hashed -/

/-- What is hashed for a key, an iv and the whole part of an unlock time. -/
def preimage (keyBytes iv : List UInt8) (v : ℤ) : List UInt8 :=
  COMMIT_LABEL ++ keyBytes ++ iv ++ u64Loop 8 v []

/-- SHA-256 does not collide on two texts. -/
def NoCollision (bs cs : List UInt8) : Prop := sha256 bs = sha256 cs → bs = cs

instance (bs cs : List UInt8) : Decidable (NoCollision bs cs) :=
  inferInstanceAs (Decidable (_ → _))

section
variable {keyBytes iv keyBytes' iv' : List UInt8} {v v' : ℤ} {n n' : JsNum}

/-- **The parts that give one text**: the boundary between key and iv is not in it. -/
theorem preimage_inj :
    preimage keyBytes iv v = preimage keyBytes' iv' v' ↔
      keyBytes' ++ iv' = keyBytes ++ iv ∧ v' ≡ v [ZMOD 256 ^ 8] := by
  rw [← u64Loop_inj, preimage, preimage]
  simp only [List.append_assoc, List.append_cancel_left_eq]
  rw [← List.append_assoc, ← List.append_assoc keyBytes']
  constructor
  · intro h
    obtain ⟨hparts, hlast⟩ := List.append_inj' h (by rw [u64Loop_length, u64Loop_length])
    exact ⟨hparts.symm, hlast.symm⟩
  · rintro ⟨hparts, hlast⟩
    rw [hparts, hlast]

theorem commitment_of_trunc (h : bigIntTrunc n = some v) :
    commitment keyBytes iv (.num n) = .ok (bytesToHex (sha256 (preimage keyBytes iv v))) := by
  have hunlock : u64BeBytes n = .ok (u64Loop 8 v []) := by
    rw [u64BeBytes, h]
    rfl
  unfold commitment
  simp only [JsValue.toNumber, ofEngine, ok_bind, hunlock]
  rfl

/-- What has no whole part is not committed to. -/
theorem commitment_of_trunc_none (h : bigIntTrunc n = none) :
    commitment keyBytes iv (.num n) = .error .engine := by
  have hunlock : u64BeBytes n = .error .engine := by
    rw [u64BeBytes, h]
    rfl
  unfold commitment
  simp only [JsValue.toNumber, ofEngine, ok_bind, error_bind, hunlock]

/-- **What verifies has the same text** in front of the hash. -/
theorem verifyCommitment_iff {commit : JsString} (h : bigIntTrunc n = some v)
    (hcommit : commitment keyBytes iv (.num n) = .ok commit)
    (hhash : ∀ v', bigIntTrunc n' = some v' →
      NoCollision (preimage keyBytes iv v) (preimage keyBytes' iv' v')) :
    verifyCommitment (.str commit) keyBytes' iv' (.num n') = .ok true ↔
      ∃ v', bigIntTrunc n' = some v' ∧ keyBytes' ++ iv' = keyBytes ++ iv ∧
        v' ≡ v [ZMOD 256 ^ 8] := by
  rw [commitment_of_trunc h] at hcommit
  cases hcommit
  cases hn' : bigIntTrunc n' with
  | none =>
    rw [verifyCommitment, commitment_of_trunc_none hn']
    simp
  | some v' =>
    have hsame : constantTimeEqHex (bytesToHex (sha256 (preimage keyBytes' iv' v')))
        (bytesToHex (sha256 (preimage keyBytes iv v))) = true ↔
          preimage keyBytes iv v = preimage keyBytes' iv' v' := by
      rw [constantTimeEqHex_iff]
      constructor
      · intro heq
        exact hhash v' hn' (hexText_injective heq).symm
      · intro heq
        rw [heq]
    rw [verifyCommitment, commitment_of_trunc hn']
    simp only [ok_bind, Except.ok.injEq, hsame, preimage_inj, Option.some.injEq,
      exists_eq_left']

/-! ## What else verifies -/

/-- A shorter key, with the rest of the committed key in front of the iv. -/
def Moved (keyBytes iv : List UInt8) (v : ℤ) (keyBytes' iv' : List UInt8) (n' : JsNum) : Prop :=
  keyBytes'.length < keyBytes.length ∧ keyBytes' ++ iv' = keyBytes ++ iv ∧
    ∃ v', bigIntTrunc n' = some v' ∧ v' ≡ v [ZMOD 2 ^ 64]

/-- Another unlock time with the same low 64 bits. -/
def Wrapped (keyBytes iv : List UInt8) (v : ℤ) (keyBytes' iv' : List UInt8) (n' : JsNum) : Prop :=
  keyBytes' = keyBytes ∧ iv' = iv ∧ ∃ v', bigIntTrunc n' = some v' ∧ v' ≠ v ∧ v' ≡ v [ZMOD 2 ^ 64]

/-- A fraction below a committed zero, which is rounded up to it. -/
def RaisedToZero (keyBytes iv : List UInt8) (v : ℤ) (keyBytes' iv' : List UInt8) (n' : JsNum) :
    Prop :=
  keyBytes' = keyBytes ∧ iv' = iv ∧ v = 0 ∧ ∃ x, n' = .fin x ∧ -1 < x.val ∧ x.val < 0

/-- An unlock time before a committed one has another whole part, but below zero. -/
theorem lt_of_trunc {unlock : Double} {m : ℕ} (hunlock : unlock.val = m)
    (hn' : bigIntTrunc n' = some (m : ℤ)) (hlt : n'.lt (.fin unlock) = true) :
    m = 0 ∧ ∃ x, n' = .fin x ∧ -1 < x.val ∧ x.val < 0 := by
  cases n' with
  | nan => cases hn'
  | infinity neg => cases hn'
  | fin x =>
    have hx : x.val < m := by
      rw [← hunlock]
      exact of_decide_eq_true hlt
    have htrunc : (if 0 ≤ x.val then ⌊x.val⌋ else ⌈x.val⌉) = (m : ℤ) := Option.some.inj hn'
    split at htrunc
    · have hle := Int.floor_le x.val
      rw [htrunc, Int.cast_natCast] at hle
      exact absurd hx (not_lt.2 hle)
    · rename_i hneg
      have hceil : ⌈x.val⌉ ≤ 0 := Int.ceil_le.2 (by exact_mod_cast (not_le.1 hneg).le)
      have hm : m = 0 := by omega
      have hlow := Int.ceil_lt_add_one x.val
      rw [htrunc, hm] at hlow
      push_cast at hlow
      exact ⟨hm, x, rfl, by linarith, not_le.1 hneg⟩

theorem trunc_of_raised {x : Double} (hlow : -1 < x.val) (hneg : x.val < 0) :
    bigIntTrunc (.fin x) = some 0 := by
  have hceil : ⌈x.val⌉ = 0 := Int.ceil_eq_iff.2 (by push_cast; exact ⟨by linarith, hneg.le⟩)
  rw [bigIntTrunc, if_neg (not_le.2 hneg), hceil]

theorem trunc_natCast {unlock : Double} {m : ℕ} (h : unlock.val = m) :
    bigIntTrunc (.fin unlock) = some (m : ℤ) := by
  rw [bigIntTrunc, h, if_pos (Nat.cast_nonneg m), Int.floor_natCast]

/-- **Exactly when a commitment binds** the key, the iv and the unlock time it was made of, against a
key that imports. -/
theorem verifyCommitment_binds_iff {unlock : Double} {m : ℕ} {commit : JsString}
    (hunlock : unlock.val = m) (hkey : keyBytes.length = 32) (hkey' : importsKey keyBytes' = true)
    (hcommit : commitment keyBytes iv (.num (.fin unlock)) = .ok commit)
    (hhash : ∀ v', bigIntTrunc n' = some v' →
      NoCollision (preimage keyBytes iv m) (preimage keyBytes' iv' v')) :
    (verifyCommitment (.str commit) keyBytes' iv' (.num n') = .ok true →
      keyBytes' = keyBytes ∧ iv' = iv ∧ bigIntTrunc n' = some (m : ℤ) ∧
        n'.lt (.fin unlock) = false) ↔
      ¬ Moved keyBytes iv m keyBytes' iv' n' ∧ ¬ Wrapped keyBytes iv m keyBytes' iv' n' ∧
        ¬ RaisedToZero keyBytes iv m keyBytes' iv' n' := by
  rw [verifyCommitment_iff (trunc_natCast hunlock) hcommit hhash]
  constructor
  · intro hbinds
    refine ⟨?_, ?_, ?_⟩
    · rintro ⟨hshort, hparts, v', hv', hmod⟩
      have hsame := (hbinds ⟨v', hv', hparts, hmod⟩).1
      rw [hsame] at hshort
      exact lt_irrefl _ hshort
    · rintro ⟨rfl, rfl, v', hv', hne, hmod⟩
      have htrunc := (hbinds ⟨v', hv', rfl, hmod⟩).2.2.1
      rw [hv'] at htrunc
      exact hne (Option.some.inj htrunc)
    · rintro ⟨rfl, rfl, hm, x, rfl, hlow, hneg⟩
      have hv' := trunc_of_raised hlow hneg
      have hlt := (hbinds ⟨0, hv', rfl, by rw [hm]⟩).2.2.2
      have hm' : m = 0 := by exact_mod_cast hm
      have hbelow : x.val < unlock.val := by
        rw [hunlock, hm']
        exact_mod_cast hneg
      exact of_decide_eq_false hlt hbelow
  · rintro ⟨hmoved, hwrapped, hraised⟩ ⟨v', hv', hparts, hmod⟩
    -- a key that imports is the committed one or shorter
    have hlen : keyBytes'.length = keyBytes.length := by
      have hmem := of_decide_eq_true hkey'
      by_cases hshort : keyBytes'.length < keyBytes.length
      · exact absurd ⟨hshort, hparts, v', hv', hmod⟩ hmoved
      · simp only [List.mem_cons, List.not_mem_nil, or_false] at hmem
        omega
    obtain ⟨hk, hiv⟩ := List.append_inj hparts hlen
    have hv : v' = m := by
      by_contra hne
      exact hwrapped ⟨hk, hiv, v', hv', hne, hmod⟩
    rw [hv] at hv'
    refine ⟨hk, hiv, hv', ?_⟩
    by_contra hlt
    obtain ⟨hm, x, hx, hlow, hneg⟩ := lt_of_trunc hunlock hv' (eq_true_of_ne_false hlt)
    exact hraised ⟨hk, hiv, by rw [hm]; rfl, x, hx, hlow, hneg⟩

end

/-- A half of a second behind a committed `1893457920`, which verifies. -/
theorem verifyCommitment_binds_half :
    verifyCommitment
        (.str (bytesToHex (sha256 (preimage (List.replicate 32 1) (List.replicate 12 2) 1893457920))))
        (List.replicate 32 1) (List.replicate 12 2) (.num (ofRat 1893457920.5)) = .ok true ∧
      List.replicate 32 1 = List.replicate 32 (1 : UInt8) ∧
        List.replicate 12 2 = List.replicate 12 (2 : UInt8) ∧
        bigIntTrunc (ofRat 1893457920.5) = some ((1893457920 : ℕ) : ℤ) ∧
        (ofRat 1893457920.5).lt (.fin ⟨1893457920, by decide +kernel⟩) = false := by
  have htrunc : bigIntTrunc (ofRat 1893457920.5) = some 1893457920 := by decide +kernel
  have hverifies : verifyCommitment
      (.str (bytesToHex (sha256 (preimage (List.replicate 32 1) (List.replicate 12 2) 1893457920))))
      (List.replicate 32 1) (List.replicate 12 2) (.num (ofRat 1893457920.5)) = .ok true := by
    rw [verifyCommitment, commitment_of_trunc htrunc]
    exact congrArg Except.ok (constantTimeEqHex_iff.2 rfl)
  have hbinds := (@verifyCommitment_binds_iff (List.replicate 32 1) (List.replicate 12 2)
    (List.replicate 32 1) (List.replicate 12 2) (ofRat 1893457920.5)
    ⟨1893457920, by decide +kernel⟩ 1893457920 _ rfl rfl rfl
    (commitment_of_trunc (trunc_natCast rfl)) fun v' hv' _ => by
      rw [htrunc] at hv'
      rw [← Option.some.inj hv']
      rfl).2 ⟨?_, ?_, ?_⟩
  · exact ⟨hverifies, hbinds hverifies⟩
  · rintro ⟨hshort, -⟩
    exact lt_irrefl _ hshort
  · rintro ⟨-, -, v', hv', hne, -⟩
    rw [htrunc] at hv'
    exact hne (Option.some.inj hv').symm
  · rintro ⟨-, -, hm, -⟩
    exact absurd hm (by decide)

/-- An unlock time that was lowered by `2 ^ 64` verifies. -/
theorem lowered_verifies :
    ∃ commit, commitment (List.replicate 32 1) (List.replicate 12 2) (.num (ofRat 1893457920)) =
        .ok commit ∧
      verifyCommitment (.str commit) (List.replicate 32 1) (List.replicate 12 2)
        (.num (ofRat (-18446744071816093696))) = .ok true ∧
      (ofRat (-18446744071816093696)).lt (ofRat 1893457920) = true := by
  have htrunc : bigIntTrunc (ofRat 1893457920) = some 1893457920 := by decide +kernel
  have htrunc' : bigIntTrunc (ofRat (-18446744071816093696)) = some (-18446744071816093696) := by
    decide +kernel
  have hsame : preimage (List.replicate 32 1) (List.replicate 12 2) (-18446744071816093696) =
      preimage (List.replicate 32 1) (List.replicate 12 2) 1893457920 :=
    preimage_inj.2 ⟨rfl, by decide⟩
  refine ⟨_, commitment_of_trunc htrunc, ?_, by decide +kernel⟩
  rw [verifyCommitment, commitment_of_trunc htrunc', hsame]
  exact congrArg Except.ok (constantTimeEqHex_iff.2 rfl)

end SealedSky.Web
