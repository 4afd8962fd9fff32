import Mathlib.Data.UInt
import Mathlib.Tactic.Ring
import AevumDb.Infra.Uuid
import AevumDb.Storage.Db

/-!
# The key hash and unsigned DJB2

`Db::hash_key` folds `hash = ((hash << 5) + hash) + c` over `for (char c : key)`.  Where `char`
is signed (x86-64, the platform the model fixes), a byte `c ≥ 0x80` is promoted to the
negative `int` `c - 256` before it is added to the `unsigned long`, so the sum wraps to
`hash + c - 256`.  DJB2 over the bytes read as `0..255` (`djb2`) adds `c` itself.

`hashKey_eq_djb2_sub` measures the difference exactly: `256` times the DJB2 weight of the
high bytes (`highWeight`).  The weight is `0` on ASCII keys, where the two hashes agree; its
low five bits count the high bytes (`33 ≡ 1` modulo `32`), so the hashes differ on every key
whose number of high bytes is not a multiple of `32`, and their decimal renderings with them
(`toDigits_inj`).
-/

namespace AevumDb

/-- Modelled from the spec: DJB2 over the bytes of a key read as unsigned values, from `5381`,
`hash = (hash << 5) + hash + c` in 64-bit unsigned arithmetic with wrap. -/
def djb2 (bytes : List UInt8) : UInt64 :=
  bytes.foldl (fun (hash : UInt64) c => (hash <<< 5) + hash + c.toUInt64) 5381

def highWeight (bytes : List UInt8) : UInt64 :=
  bytes.foldl (fun (w : UInt64) c => 33 * w + if c < 128 then 0 else 1) 0

theorem shiftLeft_five_add (h : UInt64) : (h <<< 5) + h = 33 * h := by
  apply UInt64.toNat.inj
  show (h.toBitVec <<< (UInt64.mod 5 64).toBitVec + h.toBitVec).toNat = (33#64 * h.toBitVec).toNat
  rw [BitVec.toNat_add, BitVec.shiftLeft_eq', BitVec.toNat_shiftLeft, BitVec.toNat_mul,
    Nat.shiftLeft_eq]
  show (h.toNat * 2 ^ 5 % 2 ^ 64 + h.toNat) % 2 ^ 64 = 33 % 2 ^ 64 * h.toNat % 2 ^ 64
  omega

theorem signed_step (h w : UInt64) (c : UInt8) :
    ((h - 256 * w) <<< 5) + (h - 256 * w : UInt64) +
        (if c < 128 then c.toUInt64 else c.toUInt64 - 256) =
      ((h <<< 5) + h + c.toUInt64) - 256 * (33 * w + if c < 128 then (0 : UInt64) else 1) := by
  rw [shiftLeft_five_add, shiftLeft_five_add]
  split <;> open scoped UInt64.CommRing in ring

theorem foldl_signed (bytes : List UInt8) : ∀ h w : UInt64,
    bytes.foldl (fun (hash : UInt64) c => (hash <<< 5) + hash +
        if c < 128 then c.toUInt64 else c.toUInt64 - 256) (h - 256 * w) =
      bytes.foldl (fun (hash : UInt64) c => (hash <<< 5) + hash + c.toUInt64) h -
        256 * bytes.foldl (fun (w : UInt64) c => 33 * w + if c < 128 then 0 else 1) w := by
  induction bytes with
  | nil => intro h w; rfl
  | cons c bytes ih =>
    intro h w
    simp only [List.foldl_cons]
    rw [signed_step, ih]

theorem hashKey_eq_djb2_sub (key : String) :
    hashKey key = toString (djb2 (key.data.flatMap String.utf8EncodeChar) -
      256 * highWeight (key.data.flatMap String.utf8EncodeChar)) := by
  have h := foldl_signed (key.data.flatMap String.utf8EncodeChar) 5381 0
  rw [mul_zero, sub_zero] at h
  exact congrArg toString h

theorem highWeight_of_ascii {bytes : List UInt8} (h : ∀ c ∈ bytes, c < 128) :
    highWeight bytes = 0 := by
  suffices ∀ w : UInt64, w = 0 →
      bytes.foldl (fun (w : UInt64) c => 33 * w + if c < 128 then 0 else 1) w = 0
    from this 0 rfl
  induction bytes with
  | nil => exact fun w hw => hw
  | cons c bytes ih =>
    intro w hw
    rw [List.foldl_cons, if_pos (h c (List.mem_cons_self c bytes))]
    exact ih (fun c' hc' => h c' (List.mem_cons_of_mem c hc')) _ (by rw [hw, mul_zero, add_zero])

theorem highWeight_mod_32 (bytes : List UInt8) :
    (highWeight bytes).toNat % 32 = bytes.countP (fun c => !(c < 128)) % 32 := by
  suffices ∀ w : UInt64,
      (bytes.foldl (fun (w : UInt64) c => 33 * w + if c < 128 then 0 else 1) w).toNat % 32 =
      (w.toNat + bytes.countP (fun c => !(c < 128))) % 32 by simpa using this 0
  induction bytes with
  | nil => intro w; rfl
  | cons c bytes ih =>
    intro w
    have hmul : (33 * w).toNat = 33 * w.toNat % 2 ^ 64 := BitVec.toNat_mul _ _
    have hadd (e : UInt64) : (33 * w + e).toNat = ((33 * w).toNat + e.toNat) % 2 ^ 64 :=
      BitVec.toNat_add _ _
    rw [List.foldl_cons, ih, List.countP_cons, hadd, hmul]
    by_cases hc : c < 128 <;>
      simp only [hc, ite_true, ite_false, decide_True, decide_False, Bool.not_true, Bool.not_false,
        Bool.false_eq_true, UInt64.toNat_zero, UInt64.reduceToNat] <;> omega

/-- The key hash agrees with unsigned DJB2 on ASCII keys, and differs from it, as a number
and as its rendering, on every key whose number of bytes at or above `0x80` is not a
multiple of `32`; `"é"` (bytes `C3 A9`) is one. -/
theorem hashKey_differs_from_djb2 :
    (∀ key, hashKey key = toString (djb2 (key.data.flatMap String.utf8EncodeChar) -
      256 * highWeight (key.data.flatMap String.utf8EncodeChar))) ∧
    (∀ key, (∀ c ∈ key.data.flatMap String.utf8EncodeChar, c < 128) →
      hashKey key = toString (djb2 (key.data.flatMap String.utf8EncodeChar))) ∧
    (∀ key, (key.data.flatMap String.utf8EncodeChar).countP (fun c => !(c < 128)) % 32 ≠ 0 →
      hashKey key ≠ toString (djb2 (key.data.flatMap String.utf8EncodeChar))) ∧
    hashKey "é" ≠ toString (djb2 ("é".data.flatMap String.utf8EncodeChar)) := by
  refine ⟨hashKey_eq_djb2_sub, fun key h => ?_, fun key h => ?_, by decide⟩
  · rw [hashKey_eq_djb2_sub, highWeight_of_ascii h, mul_zero, sub_zero]
  · rw [hashKey_eq_djb2_sub]
    intro heq
    have hw := highWeight_mod_32 (key.data.flatMap String.utf8EncodeChar)
    have hv := UInt64.toNat.inj (@IdGenerator.toDigits_inj 10 (by decide) (by decide) _ _ (congrArg String.data heq))
    rw [sub_eq_self] at hv
    have h256 := congrArg UInt64.toNat hv
    change 256 * (highWeight _).toNat % 2 ^ 64 = 0 at h256
    omega

example : hashKey "é" = "5857809" ∧ djb2 [0xC3, 0xA9] = 5866513 := by decide

end AevumDb
