import AevumDb.Storage.Db

/-!
# The rows tier 2 of `find` copies

Tier 2 of `Db::find` converts `skip` to `size_t`, computes `end = min(start + limit, n)` in
`size_t` when `limit > 0`, and copies `docs[i]` for `i` from `start` while `i < end`, only
when `start < n`.  `sliceTier2Reads` is that loop's list of indices and `sliceTier2` the
rows it copies (`sliceTier2_eq_filterMap_reads`).

`limit` and `skip` are C++ `int`s (`Handler::process` reads them as `valueint`), and `docs`
is a `std::vector`, whose size stays below `2 ^ 63` (`max_size` is at most `PTRDIFF_MAX`).
On that domain every index read is below `n`, a non-negative `skip` gives the window of the
spec, and a negative `skip` copies nothing: its `start` lies in `[2 ^ 64 - 2 ^ 31, 2 ^ 64)`,
past every vector, even where `start + limit` wraps around `2 ^ 64`.
-/

namespace AevumDb

def sliceTier2Reads (n : Nat) (limit skip : Int) : List Nat :=
  let start := (skip % 2 ^ 64).toNat
  let stop := if limit > 0 then min ((start + limit.toNat) % 2 ^ 64) n else n
  if start < n then List.range' start (stop - start) else []

theorem filterMap_getElem?_range' {α : Type} (l : List α) (s k : Nat) :
    (List.range' s k).filterMap (l[·]?) = (l.drop s).take k := by
  induction k generalizing s with
  | zero => rfl
  | succ k ih =>
    rw [List.range'_succ, List.filterMap_cons, ih]
    rcases Nat.lt_or_ge s l.length with hs | hs
    · rw [List.getElem?_eq_getElem hs, List.drop_eq_getElem_cons hs, List.take_succ_cons]
    · simp [List.getElem?_eq_none hs, List.drop_eq_nil_of_le hs,
        List.drop_eq_nil_of_le (by omega : l.length ≤ s + 1)]

theorem sliceTier2_eq_filterMap_reads (docs : List Item) (limit skip : Int) :
    sliceTier2 docs limit skip =
      (sliceTier2Reads docs.length limit skip).filterMap (docs[·]?) := by
  unfold sliceTier2 sliceTier2Reads
  dsimp only
  by_cases h : (skip % 2 ^ 64).toNat < docs.length
  · rw [if_pos h, if_pos h, filterMap_getElem?_range']
  · rw [if_neg h, if_neg h]
    rfl

theorem lt_of_mem_sliceTier2Reads {n : Nat} {limit skip : Int} {i : Nat}
    (h : i ∈ sliceTier2Reads n limit skip) : i < n := by
  unfold sliceTier2Reads at h
  dsimp only at h
  by_cases hs : (skip % 2 ^ 64).toNat < n
  · rw [if_pos hs, List.mem_range'_1] at h
    split at h <;> omega
  · rw [if_neg hs] at h
    cases h

theorem sliceTier2_of_nonneg {docs : List Item} {limit skip : Int} (h0 : 0 ≤ skip)
    (hskip : skip < 2 ^ 31) (hlimit : limit < 2 ^ 31) :
    sliceTier2 docs limit skip =
      if 0 < limit then (docs.drop skip.toNat).take (min (skip + limit).toNat docs.length - skip.toNat)
      else docs.drop skip.toNat := by
  have hstart : (skip % 2 ^ 64).toNat = skip.toNat := by omega
  unfold sliceTier2
  dsimp only
  rw [hstart]
  by_cases hl : 0 < limit
  · have hstop : (skip.toNat + limit.toNat) % 2 ^ 64 = (skip + limit).toNat := by omega
    rw [if_pos hl, if_pos hl, hstop]
    split
    · rfl
    · rw [List.drop_eq_nil_of_le (by omega), List.take_nil]
  · rw [if_neg hl, if_neg hl]
    split
    · exact List.take_of_length_le (by simp)
    · rw [List.drop_eq_nil_of_le (by omega)]

/-- Tier 2 copies the rows at the indices its loop reads, and reads only rows below `n`; for
C++ `int`s `limit` and `skip` and a vector of fewer than `2 ^ 63` rows it copies `docs[skip .. min(skip + limit, n) - 1]` when `skip ≥ 0` and
`limit > 0`, `docs[skip .. n - 1]` when `skip ≥ 0` and `limit ≤ 0`, and nothing when
`skip < 0`. -/
theorem sliceTier2_reads_and_rows (docs : List Item) (limit skip : Int)
    (hlimit : -2 ^ 31 ≤ limit ∧ limit < 2 ^ 31) (hskip : -2 ^ 31 ≤ skip ∧ skip < 2 ^ 31)
    (hn : docs.length < 2 ^ 63) :
    sliceTier2 docs limit skip = (sliceTier2Reads docs.length limit skip).filterMap (docs[·]?) ∧
    (∀ i ∈ sliceTier2Reads docs.length limit skip, i < docs.length) ∧
    (0 ≤ skip → 0 < limit → sliceTier2 docs limit skip =
      (docs.drop skip.toNat).take (min (skip + limit).toNat docs.length - skip.toNat)) ∧
    (0 ≤ skip → limit ≤ 0 → sliceTier2 docs limit skip = docs.drop skip.toNat) ∧
    (skip < 0 → sliceTier2 docs limit skip = []) := by
  refine ⟨sliceTier2_eq_filterMap_reads docs limit skip, fun i => lt_of_mem_sliceTier2Reads,
    fun h0 hl => ?_, fun h0 hl => ?_, fun h0 => ?_⟩
  · rw [sliceTier2_of_nonneg h0 hskip.2 hlimit.2, if_pos hl]
  · rw [sliceTier2_of_nonneg h0 hskip.2 hlimit.2, if_neg (not_lt.mpr hl)]
  · -- `start` is `2 ^ 64 + skip`, beyond every vector
    unfold sliceTier2
    dsimp only
    split
    · omega
    · rfl

theorem sliceTier2_wrapping_skip_copies_nothing :
    sliceTier2 (List.replicate 3 Item.createObject) 5 (-1) = [] :=
  (sliceTier2_reads_and_rows (List.replicate 3 Item.createObject) 5 (-1) (by decide) (by decide)
    (by decide)).2.2.2.2 (by decide)

end AevumDb
