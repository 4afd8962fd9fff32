import Mathlib.Data.UInt
import Mathlib.Data.List.Basic

/-!
# Binary log frames

`Engine::append` and `Engine::compact` write each payload as a frame: the
payload's length as a 32-bit little-endian header, then the payload.
`Engine::load_log` reads frames back until the file ends, and stops without
error at a header shorter than 4 bytes or a payload shorter than its header
says.  This module models the bytes of an `.aev` file and that reader, and
shows that the reader returns exactly the complete frames at the front of the
file, and that frames appended to a file whose tail is torn are misread.
-/

namespace AevumDb

abbrev Bytes := List UInt8

namespace Engine

def readLength (b0 b1 b2 b3 : UInt8) : Nat :=
  b0.toNat + 256 * b1.toNat + 65536 * b2.toNat + 16777216 * b3.toNat

def lengthBytes (n : Nat) : Bytes :=
  [UInt8.ofNat n, UInt8.ofNat (n / 256), UInt8.ofNat (n / 65536), UInt8.ofNat (n / 16777216)]

def frame (payload : Bytes) : Bytes :=
  let length := payload.length % 2 ^ 32
  lengthBytes length ++ payload.take length

def frames (payloads : List Bytes) : Bytes := (payloads.map frame).flatten

def loadLog : Bytes -> List Bytes
  | b0 :: b1 :: b2 :: b3 :: rest =>
      let length := readLength b0 b1 b2 b3
      if length ≤ rest.length then rest.take length :: loadLog (rest.drop length) else []
  | [] => []
  | [_] => []
  | [_, _] => []
  | [_, _, _] => []
termination_by bytes => bytes.length
decreasing_by simp only [List.length_drop, List.length_cons]; omega

def Torn : Bytes -> Prop
  | b0 :: b1 :: b2 :: b3 :: rest => rest.length < readLength b0 b1 b2 b3
  | [] => True
  | [_] => True
  | [_, _] => True
  | [_, _, _] => True

/-!
## Header round trip
-/

@[simp] theorem toNat_ofNat_byte (n : Nat) : (UInt8.ofNat n).toNat = n % 256 := rfl

theorem toNat_lt_byte (b : UInt8) : b.toNat < 256 := UInt8.toNat_lt_size b

theorem readLength_lt (b0 b1 b2 b3 : UInt8) : readLength b0 b1 b2 b3 < 2 ^ 32 := by
  have := toNat_lt_byte b0; have := toNat_lt_byte b1
  have := toNat_lt_byte b2; have := toNat_lt_byte b3
  simp only [readLength]; omega

theorem lengthBytes_readLength (b0 b1 b2 b3 : UInt8) :
    lengthBytes (readLength b0 b1 b2 b3) = [b0, b1, b2, b3] := by
  have h0 := toNat_lt_byte b0; have h1 := toNat_lt_byte b1
  have h2 := toNat_lt_byte b2; have h3 := toNat_lt_byte b3
  simp only [lengthBytes, readLength, List.cons.injEq, and_true]
  refine ⟨UInt8.toNat.inj ?_, UInt8.toNat.inj ?_, UInt8.toNat.inj ?_, UInt8.toNat.inj ?_⟩ <;>
    simp only [toNat_ofNat_byte] <;> omega

theorem readLength_lengthBytes {n : Nat} (h : n < 2 ^ 32) :
    lengthBytes n = [UInt8.ofNat n, UInt8.ofNat (n / 256), UInt8.ofNat (n / 65536),
      UInt8.ofNat (n / 16777216)] ∧
    readLength (UInt8.ofNat n) (UInt8.ofNat (n / 256)) (UInt8.ofNat (n / 65536))
      (UInt8.ofNat (n / 16777216)) = n := by
  refine ⟨rfl, ?_⟩
  simp only [readLength, toNat_ofNat_byte]
  omega

/-!
## The reader, one frame at a time
-/

theorem loadLog_of_torn {t : Bytes} (h : Torn t) : loadLog t = [] := by
  match t, h with
  | b0 :: b1 :: b2 :: b3 :: rest, h =>
      rw [loadLog, if_neg (Nat.not_le.mpr h)]
  | [], _ => rw [loadLog]
  | [_], _ => rw [loadLog]
  | [_, _], _ => rw [loadLog]
  | [_, _, _], _ => rw [loadLog]

theorem loadLog_frame_append {p : Bytes} (hp : p.length < 2 ^ 32) (t : Bytes) :
    loadLog (frame p ++ t) = p :: loadLog t := by
  obtain ⟨hbytes, hlen⟩ := readLength_lengthBytes hp
  simp only [frame, Nat.mod_eq_of_lt hp, List.take_length, hbytes, List.cons_append,
    List.nil_append]
  rw [loadLog, hlen, if_pos (by simp), List.take_left, List.drop_left]

theorem loadLog_frames_append {ps : List Bytes} (hps : ∀ p ∈ ps, p.length < 2 ^ 32)
    (t : Bytes) : loadLog (frames ps ++ t) = ps ++ loadLog t := by
  induction ps with
  | nil =>
      rfl
  | cons p ps ih =>
      have hp := hps p (List.mem_cons_self p ps)
      simp only [frames, List.map_cons, List.flatten_cons, List.append_assoc] at ih ⊢
      rw [loadLog_frame_append hp, ih (fun q hq => hps q (List.mem_cons_of_mem p hq)),
        List.cons_append]

theorem loadLog_length_lt (bytes : Bytes) : ∀ p ∈ loadLog bytes, p.length < 2 ^ 32 := by
  intro p hp
  match bytes, hp with
  | b0 :: b1 :: b2 :: b3 :: rest, hp =>
      rw [loadLog] at hp
      split at hp
      · rcases List.mem_cons.mp hp with rfl | hp
        · exact (List.length_take_le _ _).trans_lt (readLength_lt b0 b1 b2 b3)
        · exact loadLog_length_lt _ p hp
      · cases hp
  | [], hp | [_], hp | [_, _], hp | [_, _, _], hp =>
      rw [loadLog] at hp; cases hp
termination_by bytes.length
decreasing_by simp only [List.length_drop, List.length_cons]; omega

theorem loadLog_split (bytes : Bytes) :
    exists t, bytes = frames (loadLog bytes) ++ t ∧ Torn t := by
  match bytes with
  | b0 :: b1 :: b2 :: b3 :: rest =>
      rw [loadLog]
      split
      · rename_i hle
        obtain ⟨t, ht, htorn⟩ := loadLog_split (rest.drop (readLength b0 b1 b2 b3))
        refine ⟨t, ?_, htorn⟩
        have hlen : (rest.take (readLength b0 b1 b2 b3)).length % 2 ^ 32 =
            readLength b0 b1 b2 b3 := by
          rw [List.length_take_of_le hle]; exact Nat.mod_eq_of_lt (readLength_lt b0 b1 b2 b3)
        simp only [frames, List.map_cons, List.flatten_cons] at ht ⊢
        rw [List.append_assoc, ← ht, frame, hlen, lengthBytes_readLength, List.take_take,
          min_self]
        simp only [List.cons_append, List.nil_append, List.take_append_drop]
      · rename_i hgt
        exact ⟨_, rfl, Nat.lt_of_not_le hgt⟩
  | [] => exact ⟨[], by rw [loadLog]; rfl, trivial⟩
  | [b] => exact ⟨[b], by rw [loadLog]; rfl, trivial⟩
  | [b, c] => exact ⟨[b, c], by rw [loadLog]; rfl, trivial⟩
  | [b, c, d] => exact ⟨[b, c, d], by rw [loadLog]; rfl, trivial⟩
termination_by bytes.length
decreasing_by simp only [List.length_drop, List.length_cons]; omega

/-!
## What load_log returns

The reader returns the one payload list whose frames start the file and
leave a torn tail; the loop stops on every input since each pass consumes the
4 header bytes.
-/

theorem loadLog_eq_iff (bytes : Bytes) (ps : List Bytes) :
    loadLog bytes = ps ↔
      (∀ p ∈ ps, p.length < 2 ^ 32) ∧ exists t, bytes = frames ps ++ t ∧ Torn t := by
  constructor
  · rintro rfl
    exact ⟨loadLog_length_lt bytes, loadLog_split bytes⟩
  · rintro ⟨hps, t, rfl, ht⟩
    rw [loadLog_frames_append hps, loadLog_of_torn ht, List.append_nil]

/-!
## Appending after recovery

Recovery never rewrites a log except by auto-compaction, so a file keeps its
torn tail and later appends are framed after it.
-/

theorem loadLog_append_frames {qs ps : List Bytes} (hqs : ∀ q ∈ qs, q.length < 2 ^ 32)
    (hps : ∀ p ∈ ps, p.length < 2 ^ 32) :
    loadLog (frames qs ++ frames ps) = qs ++ ps := by
  rw [loadLog_frames_append hqs, ← List.append_nil (frames ps), loadLog_frames_append hps,
    loadLog_of_torn (t := []) trivial, List.append_nil]

theorem loadLog_torn_header_then_frame :
    loadLog ([1, 0, 0, 0] ++ frame [97]) = [[1]] := by
  have hbytes : [1, 0, 0, 0] ++ frame [97] = frame [1] ++ [0, 0, 0, 97] := by decide
  have htorn : Torn [0, 0, 0, 97] := show ([] : Bytes).length < readLength 0 0 0 97 by decide
  rw [hbytes, loadLog_frame_append (by decide), loadLog_of_torn htorn]

/-- The torn header a crash leaves stays in the file, so a frame appended after it is read from
the wrong offset and lost: no successful append survives every starting content. -/
theorem loadLog_append_after_torn_tail_fails :
    ¬ ∀ (bytes : Bytes) (ps : List Bytes), (∀ p ∈ ps, p.length < 2 ^ 32) ->
      exists earlier, loadLog (bytes ++ frames ps) = earlier ++ ps := by
  intro h
  obtain ⟨earlier, hearlier⟩ := h [1, 0, 0, 0] [[97]] (by decide)
  have hread : loadLog ([1, 0, 0, 0] ++ frames [[97]]) = [[1]] := by
    simpa [frames] using loadLog_torn_header_then_frame
  rw [hread] at hearlier
  have hlast := congrArg List.getLast? hearlier
  simp at hlast

end Engine

end AevumDb
