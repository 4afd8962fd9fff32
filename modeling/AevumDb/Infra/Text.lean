import Mathlib.Data.List.DropRight

/-!
# Trimming whitespace

`String::trim` (`infra/string.cpp`) scans the bytes of a string with two iterators: forward
from the first byte while `std::isspace` holds, and, unless that scan reached the end,
backward from the last byte while the byte is a space and the iterator is still after the
first one.  It returns the bytes from the first iterator to the second, both included.

The model follows the two loops on indices (`scanStart`, `scanEnd`, `trim`).  Each loop is
described by what it leaves of the string (`drop_scanStart`, `drop_take_scanEnd`), and
together they compute the plain description of the header, drop the leading whitespace and
then the trailing whitespace (`trim_eq_strip`).  From that description, the result is the
input with a run of whitespace cut from each end, it neither starts nor ends with a space,
and trimming it again changes nothing (`trim_spec`, which states the two together).
-/

namespace AevumDb

def isspace (c : UInt8) : Bool := c == 32 || (9 ≤ c && c ≤ 13)

namespace String

def scanStart (s : List UInt8) : Nat -> Nat -> Nat
  | 0, start => start
  | left + 1, start => if isspace (s.getD start 0) then scanStart s left (start + 1) else start

def scanEnd (s : List UInt8) (start : Nat) : Nat -> Nat
  | 0 => 0
  | stop + 1 => if start < stop && isspace (s.getD stop 0) then scanEnd s start stop else stop

def trim (s : List UInt8) : List UInt8 :=
  let start := scanStart s s.length 0
  if start = s.length then [] else (s.take (scanEnd s start s.length + 1)).drop start

/-- Modelled from the header: the bytes of `s` without its leading and trailing whitespace. -/
def strip (s : List UInt8) : List UInt8 := (s.dropWhile isspace).rdropWhile isspace

/-!
## The two scans
-/

theorem getD_of_lt {s : List UInt8} {i : Nat} (h : i < s.length) : s.getD i 0 = s[i] := by
  rw [List.getD_eq_getElem?_getD, List.getElem?_eq_getElem h, Option.getD_some]

theorem scanStart_le (s : List UInt8) : ∀ left start, scanStart s left start ≤ start + left
  | 0, start => le_refl start
  | left + 1, start => by
      rw [scanStart]
      split
      · have := scanStart_le s left (start + 1)
        omega
      · omega

theorem drop_scanStart (s : List UInt8) : ∀ left start, start + left = s.length ->
    s.drop (scanStart s left start) = (s.drop start).dropWhile isspace
  | 0, start, h => by
      rw [scanStart, show start = s.length by omega, List.drop_length]
      rfl
  | left + 1, start, h => by
      have hlt : start < s.length := by omega
      have hcons := List.drop_eq_getElem_cons hlt
      rw [scanStart, getD_of_lt hlt, hcons, List.dropWhile_cons]
      by_cases hs : isspace s[start] = true
      · rw [if_pos hs, if_pos hs]
        exact drop_scanStart s left (start + 1) (by omega)
      · rw [if_neg hs, if_neg hs, hcons]

theorem drop_take_succ {s : List UInt8} {start k : Nat} (hk : start ≤ k) (hlt : k < s.length) :
    (s.take (k + 1)).drop start = (s.take k).drop start ++ [s[k]] := by
  rw [List.take_succ, List.getElem?_eq_getElem hlt, Option.toList_some,
    List.drop_append_of_le_length (by rw [List.length_take]; omega)]

theorem drop_take_scanEnd (s : List UInt8) {start : Nat} (hs : isspace (s.getD start 0) = false) :
    ∀ stop, start < stop -> stop ≤ s.length ->
      (s.take (scanEnd s start stop + 1)).drop start = ((s.take stop).drop start).rdropWhile isspace
  | 0, h, _ => absurd h (Nat.not_lt_zero _)
  | k + 1, h, hle => by
      have hk : k < s.length := by omega
      rw [scanEnd, drop_take_succ (by omega) hk, getD_of_lt hk]
      by_cases hstep : start < k ∧ isspace s[k] = true
      · rw [if_pos (by simpa using hstep), List.rdropWhile_concat_pos _ _ _ hstep.2]
        exact drop_take_scanEnd s hs k hstep.1 (by omega)
      · have hk' : isspace s[k] = false := by
          rcases Nat.lt_or_ge start k with hlt | hge
          · simpa using fun h => hstep ⟨hlt, h⟩
          · obtain rfl : start = k := by omega
            rwa [getD_of_lt hk] at hs
        rw [if_neg (by simpa using hstep), List.rdropWhile_concat_neg _ _ _ (by simp [hk']),
          drop_take_succ (by omega) hk]

theorem trim_eq_strip (s : List UInt8) : trim s = strip s := by
  have hdrop : s.drop (scanStart s s.length 0) = s.dropWhile isspace := by
    rw [drop_scanStart s s.length 0 (Nat.zero_add _), List.drop_zero]
  unfold trim strip
  dsimp only
  split
  · rename_i heq
    rw [← hdrop, heq, List.drop_length]
    rfl
  · rename_i hne
    have hlt : scanStart s s.length 0 < s.length :=
      lt_of_le_of_ne ((scanStart_le s s.length 0).trans_eq (Nat.zero_add _)) hne
    have hhead : isspace (s.getD (scanStart s s.length 0) 0) = false := by
      have hw : s.dropWhile isspace ≠ [] := by
        rw [← hdrop, List.drop_eq_getElem_cons hlt]
        exact List.cons_ne_nil _ _
      have hh := List.head_dropWhile_not isspace s hw
      simp only [← hdrop, List.drop_eq_getElem_cons hlt, List.head_cons] at hh
      rwa [getD_of_lt hlt]
    rw [drop_take_scanEnd s hhead s.length hlt le_rfl, List.take_length, hdrop]

example : trim [32, 32, 104, 105, 32, 33, 9, 10] = [104, 105, 32, 33] := by decide

example : trim [32, 9, 10, 32, 13, 32] = [] := by decide

/-!
## What trimming leaves
-/

theorem strip_split (s : List UInt8) :
    s = s.takeWhile isspace ++ strip s ++ (s.dropWhile isspace).rtakeWhile isspace := by
  rw [strip, List.append_assoc, List.rdropWhile, List.rtakeWhile, ← List.reverse_append,
    List.takeWhile_append_dropWhile, List.reverse_reverse, List.takeWhile_append_dropWhile]

theorem head?_strip {s : List UInt8} {c : UInt8} (h : (strip s).head? = some c) :
    isspace c = false := by
  have hd : (s.dropWhile isspace).head? = some c := by
    obtain ⟨t, ht⟩ := List.rdropWhile_prefix (p := isspace) (l := s.dropWhile isspace)
    rw [← ht, List.head?_append, ← strip, h]
    rfl
  have hn := List.head?_dropWhile_not isspace s
  rw [hd] at hn
  exact hn

theorem getLast?_strip {s : List UInt8} {c : UInt8} (h : (strip s).getLast? = some c) :
    isspace c = false := by
  have hne : strip s ≠ [] := fun hn => by simp [hn] at h
  have hl : ¬ isspace ((strip s).getLast hne) = true :=
    List.rdropWhile_last_not isspace (s.dropWhile isspace) hne
  rw [List.getLast?_eq_getLast _ hne, Option.some.injEq] at h
  rw [← h]
  simpa using hl

theorem strip_strip (s : List UInt8) : strip (strip s) = strip s := by
  have hkeep : (strip s).dropWhile isspace = strip s := by
    cases hs : strip s with
    | nil => rfl
    | cons c t =>
        have hc := head?_strip (s := s) (by rw [hs]; rfl)
        exact List.dropWhile_cons_of_neg (by simp [hc])
  rw [strip, hkeep, strip, List.rdropWhile_idempotent]

end String

/-- String::trim's two scans drop the leading whitespace bytes of `s` and then the trailing
ones.  So its result sits in `s` between two runs of whitespace, neither starts nor ends with
whitespace, and trimming it again changes nothing. -/
theorem trim_spec (s : List UInt8) :
    String.trim s = (s.dropWhile isspace).rdropWhile isspace ∧
    (∃ pre suf, s = pre ++ String.trim s ++ suf ∧ (∀ c ∈ pre, isspace c = true) ∧
      ∀ c ∈ suf, isspace c = true) ∧
    (∀ c, (String.trim s).head? = some c -> isspace c = false) ∧
    (∀ c, (String.trim s).getLast? = some c -> isspace c = false) ∧
    String.trim (String.trim s) = String.trim s := by
  simp only [String.trim_eq_strip]
  exact ⟨rfl, ⟨_, _, String.strip_split s, fun _ => List.mem_takeWhile_imp,
      fun _ => List.mem_rtakeWhile_imp⟩,
    fun _ => String.head?_strip, fun _ => String.getLast?_strip, String.strip_strip s⟩

end AevumDb
