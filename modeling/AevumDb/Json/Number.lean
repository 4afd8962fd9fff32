import Mathlib.Data.Int.Log
import Mathlib.Data.Rat.Floor

/-!
# Numbers

cJSON keeps a number as a `double` (`valuedouble`) with its cast to `int` beside
it (`valueint`).  A double is modelled by its exact rational value, except that
the negative zero is a value of its own: every comparison takes it for `0`, and
only printf's `%f`, behind std::to_string, prints its sign.

print_number writes a double as `%d` of `valueint` when the two are equal, else
as `%1.15g` when that text reads back within compare_double's tolerance, else as
`%1.17g`, whose seventeen digits read back to the same double.  One function
makes that choice (`Double.numberFormat`); the printer and the double
cJSON_Parse reads back from the printed text (`Double.reparse`) both follow it.
Reading back is idempotent (`Double.reparse_reparse`), but it moves a double
that fifteen digits approximate closely enough to the fifteen-digit value:
`0.30000000000000004` comes back as `0.3` (`reparse_point_three`).
-/

namespace AevumDb

/-- A finite double: its exact value, or the negative zero. -/
inductive Double where
  | ofRat (val : ℚ)
  | negZero
  deriving DecidableEq, Repr

namespace Print

def roundHalfEven (x : ℚ) : Int :=
  let f := ⌊x⌋
  if x - f < 1 / 2 then f else if 1 / 2 < x - f then f + 1 else if f % 2 = 0 then f else f + 1

def significant (p : Nat) (x : ℚ) : Nat × Int :=
  let e := Int.log 10 x
  let m := (roundHalfEven (x / 10 ^ (e - p + 1))).toNat
  if m = 10 ^ p then (10 ^ (p - 1), e + 1) else (m, e)

def readBack (p : Nat) (x : ℚ) : ℚ :=
  if x = 0 then 0 else
  (if x < 0 then -1 else 1) * (significant p |x|).1 * 10 ^ ((significant p |x|).2 - p + 1)

def compareDouble (a b : ℚ) : Bool := |a - b| ≤ max |a| |b| * (1 / 2 ^ 52)

theorem roundHalfEven_bounds (x : ℚ) : ⌊x⌋ ≤ roundHalfEven x ∧ roundHalfEven x ≤ ⌊x⌋ + 1 := by
  unfold roundHalfEven
  dsimp only
  split_ifs <;> omega

theorem roundHalfEven_intCast (n : Int) : roundHalfEven n = n := by
  simp [roundHalfEven]

theorem scaled_mem {p : Nat} (hp : 1 ≤ p) {x : ℚ} (hx : 0 < x) :
    ((10 ^ (p - 1) : ℕ) : ℚ) ≤ x / 10 ^ (Int.log 10 x - p + 1) ∧
      x / 10 ^ (Int.log 10 x - p + 1) < ((10 ^ p : ℕ) : ℚ) := by
  have h₁ : (10 : ℚ) ^ Int.log 10 x ≤ x := by exact_mod_cast Int.zpow_log_le_self (b := 10) (by norm_num) hx
  have h₂ : x < (10 : ℚ) ^ (Int.log 10 x + 1) := by
    exact_mod_cast Int.lt_zpow_succ_log_self (b := 10) (by norm_num) x
  have hpos : (0 : ℚ) < 10 ^ (Int.log 10 x - p + 1) := zpow_pos (by norm_num) _
  have hshift (n : ℕ) (z : ℤ) (hz : (n : ℤ) + (Int.log 10 x - p + 1) = z) :
      ((10 ^ n : ℕ) : ℚ) * 10 ^ (Int.log 10 x - p + 1) = 10 ^ z := by
    rw [Nat.cast_pow, Nat.cast_ofNat, ← zpow_natCast, ← zpow_add₀ (by norm_num), hz]
  rw [le_div_iff₀ hpos, div_lt_iff₀ hpos, hshift (p - 1) (Int.log 10 x) (by omega),
    hshift p (Int.log 10 x + 1) (by omega)]
  exact ⟨h₁, h₂⟩

theorem significant_bounds {p : Nat} (hp : 1 ≤ p) {x : ℚ} (hx : 0 < x) :
    10 ^ (p - 1) ≤ (significant p x).1 ∧ (significant p x).1 < 10 ^ p := by
  obtain ⟨hlo, hhi⟩ := scaled_mem hp hx
  have hf₁ : ((10 ^ (p - 1) : ℕ) : ℤ) ≤ ⌊x / 10 ^ (Int.log 10 x - p + 1)⌋ :=
    Int.le_floor.mpr (by exact_mod_cast hlo)
  have hf₂ : ⌊x / 10 ^ (Int.log 10 x - p + 1)⌋ < ((10 ^ p : ℕ) : ℤ) :=
    Int.floor_lt.mpr (by exact_mod_cast hhi)
  have hr := roundHalfEven_bounds (x / 10 ^ (Int.log 10 x - p + 1))
  have hlt : 10 ^ (p - 1) < 10 ^ p := Nat.pow_lt_pow_right (by norm_num) (by omega)
  unfold significant
  dsimp only
  generalize 10 ^ (p - 1) = a at *
  generalize 10 ^ p = b at *
  split_ifs with hm
  · exact ⟨le_rfl, hlt⟩
  · omega

theorem significant_digits {p : Nat} (hp : 1 ≤ p) {m : ℕ} (hm₁ : 10 ^ (p - 1) ≤ m) (hm₂ : m < 10 ^ p)
    (k : ℤ) : significant p (m * 10 ^ k) = (m, k + p - 1) := by
  have hpow (z : ℤ) : (0 : ℚ) < 10 ^ z := zpow_pos (by norm_num) z
  have hcast (n : ℕ) : ((10 ^ n : ℕ) : ℚ) = 10 ^ (n : ℤ) := by
    rw [Nat.cast_pow, Nat.cast_ofNat, zpow_natCast]
  have hx : (0 : ℚ) < m * 10 ^ k :=
    mul_pos (Nat.cast_pos.mpr (lt_of_lt_of_le (Nat.pos_pow_of_pos _ (by norm_num)) hm₁)) (hpow k)
  have hlog : Int.log 10 ((m : ℚ) * 10 ^ k) = k + p - 1 := by
    have hlo : (10 : ℚ) ^ (k + p - 1) ≤ m * 10 ^ k := by
      rw [show k + p - 1 = ((p - 1 : ℕ) : ℤ) + k by omega, zpow_add₀ (by norm_num), ← hcast]
      exact mul_le_mul_of_nonneg_right (by exact_mod_cast hm₁) (hpow k).le
    have hhi : (m : ℚ) * 10 ^ k < 10 ^ (k + p) := by
      rw [add_comm k, zpow_add₀ (by norm_num), ← hcast]
      exact mul_lt_mul_of_pos_right (by exact_mod_cast hm₂) (hpow k)
    have h₁ := (Int.zpow_le_iff_le_log (b := 10) (by norm_num) hx).mp (by exact_mod_cast hlo)
    have h₂ := (Int.lt_zpow_iff_log_lt (b := 10) (by norm_num) hx).mp (by exact_mod_cast hhi)
    omega
  have hy : (m : ℚ) * 10 ^ k / 10 ^ (k + p - 1 - p + 1) = ((m : ℤ) : ℚ) := by
    rw [show k + p - 1 - p + 1 = k by omega, mul_div_cancel_right₀ _ (hpow k).ne']
    rfl
  unfold significant
  simp only [hlog, hy, roundHalfEven_intCast, Int.toNat_natCast]
  rw [if_neg (by omega)]

theorem log_eq_of_mem {x : ℚ} {e : ℤ} (hx : 0 < x) (h₁ : 10 ^ e ≤ x) (h₂ : x < 10 ^ (e + 1)) :
    Int.log 10 x = e := by
  have hlo := (Int.zpow_le_iff_le_log (b := 10) (by norm_num) hx).mp (by exact_mod_cast h₁)
  have hhi := (Int.lt_zpow_iff_log_lt (b := 10) (by norm_num) hx).mp (by exact_mod_cast h₂)
  omega

theorem readBack_zero (p : Nat) : readBack p 0 = 0 := if_pos rfl

theorem readBack_readBack {p : Nat} (hp : 1 ≤ p) (x : ℚ) : readBack p (readBack p x) = readBack p x := by
  by_cases hx : x = 0
  · rw [hx, readBack_zero, readBack_zero]
  obtain ⟨hm₁, hm₂⟩ := significant_bounds hp (abs_pos.mpr hx)
  set m := (significant p |x|).1
  set e := (significant p |x|).2
  have hmag : (0 : ℚ) < m * 10 ^ (e - p + 1) :=
    mul_pos (Nat.cast_pos.mpr (lt_of_lt_of_le (Nat.pos_pow_of_pos _ (by norm_num)) hm₁))
      (zpow_pos (by norm_num) _)
  have hrb : readBack p x = (if x < 0 then -1 else 1) * (m * 10 ^ (e - p + 1)) := by
    rw [readBack, if_neg hx, mul_assoc]
  have habs : |readBack p x| = m * 10 ^ (e - p + 1) := by
    rw [hrb]
    split_ifs <;> simp [abs_of_pos hmag]
  have hsig : significant p |readBack p x| = (m, e) := by
    rw [habs, significant_digits hp hm₁ hm₂]
    congr 1
    omega
  have hsign : readBack p x < 0 ↔ x < 0 := by
    rw [hrb]
    split_ifs with hneg
    · simp [hneg, hmag]
    · simp [hneg, hmag.le]
  have hne : readBack p x ≠ 0 := fun h => by rw [h, abs_zero] at habs; exact hmag.ne habs
  conv_lhs => rw [readBack, if_neg hne, hsig]
  simp only [hsign]
  rw [hrb, mul_assoc]

end Print

inductive NumberFormat where
  | int
  | g15
  | g17
  deriving DecidableEq

namespace Double

def val : Double -> ℚ
  | ofRat v => v
  | negZero => 0

@[simp] theorem val_ofRat (v : ℚ) : (ofRat v).val = v := rfl

@[simp] theorem val_negZero : negZero.val = 0 := rfl

def valueint (d : Double) : Int :=
  if 2147483647 ≤ d.val then 2147483647 else if d.val ≤ -2147483648 then -2147483648
  else d.val.num.tdiv d.val.den

theorem tdiv_num_den_of_nonneg {q : ℚ} (hq : 0 ≤ q.num) : q.num.tdiv q.den = ⌊q⌋ := by
  rw [Int.tdiv_eq_ediv hq (Int.ofNat_nonneg _), Rat.floor_def]

theorem tdiv_num_den_mem_int {v : ℚ} (hlo : -2147483648 < v) (hhi : v < 2147483647) :
    -2 ^ 31 ≤ v.num.tdiv v.den ∧ v.num.tdiv v.den < 2 ^ 31 := by
  rcases le_or_lt 0 v.num with hn | hn
  · rw [tdiv_num_den_of_nonneg hn]
    have h1 : ⌊v⌋ < 2147483647 := Int.floor_lt.mpr (by exact_mod_cast hhi)
    have h2 : 0 ≤ ⌊v⌋ := Int.floor_nonneg.mpr (Rat.num_nonneg.mp hn)
    omega
  · -- truncation rounds a negative value up: `tdiv` is `-⌊-v⌋`
    have htd : v.num.tdiv v.den = -⌊-v⌋ := by
      rw [← tdiv_num_den_of_nonneg (q := -v) (by rw [Rat.neg_num]; omega), Rat.neg_num, Rat.neg_den,
        Int.neg_tdiv, neg_neg]
    rw [htd]
    have h1 : ⌊-v⌋ < 2147483648 := Int.floor_lt.mpr (by push_cast; linarith)
    have h2 : 0 ≤ ⌊-v⌋ := Int.floor_nonneg.mpr (by linarith [Rat.num_neg.mp hn])
    omega

theorem valueint_mem_int (d : Double) : -2 ^ 31 ≤ d.valueint ∧ d.valueint < 2 ^ 31 := by
  unfold valueint
  split
  · norm_num
  · split
    · norm_num
    · exact tdiv_num_den_mem_int (by linarith) (by linarith)

theorem valueint_ofRat_int {n : Int} (hlo : -2 ^ 31 ≤ n) (hhi : n < 2 ^ 31) :
    (ofRat n).valueint = n := by
  unfold valueint
  simp only [val_ofRat, Rat.intCast_num, Rat.intCast_den, Nat.cast_one, Int.tdiv_one]
  split_ifs with h₁ h₂
  · have : (2147483647 : ℤ) ≤ n := by exact_mod_cast h₁
    omega
  · have : n ≤ -2147483648 := by exact_mod_cast h₂
    omega
  · rfl

def numberFormat (d : Double) : NumberFormat :=
  if d.val = d.valueint then .int
  else if Print.compareDouble (Print.readBack 15 d.val) d.val then .g15
  else .g17

/-- The double cJSON_Parse reads back from the text print_number writes; seventeen significant
digits give a double back exactly. -/
def reparse (d : Double) : Double :=
  match d.numberFormat with
  | .int => ofRat d.valueint
  | .g15 => ofRat (Print.readBack 15 d.val)
  | .g17 => d

theorem reparse_ofRat_valueint (d : Double) : (ofRat d.valueint).reparse = ofRat d.valueint := by
  obtain ⟨hlo, hhi⟩ := d.valueint_mem_int
  have hint := valueint_ofRat_int hlo hhi
  simp [reparse, numberFormat, hint]

theorem reparse_ofRat_readBack (x : ℚ) :
    (ofRat (Print.readBack 15 x)).reparse = ofRat (Print.readBack 15 x) := by
  by_cases hint : Print.readBack 15 x = (ofRat (Print.readBack 15 x)).valueint
  · have hfmt : (ofRat (Print.readBack 15 x)).numberFormat = .int := if_pos hint
    rw [reparse, hfmt]
    exact congrArg ofRat hint.symm
  · have hfmt : (ofRat (Print.readBack 15 x)).numberFormat = .g15 := by
      simp only [numberFormat, val_ofRat, if_neg hint, Print.readBack_readBack (by norm_num : 1 ≤ 15)]
      simp [Print.compareDouble]
    rw [reparse, hfmt, val_ofRat, Print.readBack_readBack (by norm_num)]

theorem reparse_reparse (d : Double) : d.reparse.reparse = d.reparse := by
  cases hfmt : d.numberFormat with
  | int =>
      have h : d.reparse = ofRat d.valueint := by rw [reparse, hfmt]
      rw [h, reparse_ofRat_valueint]
  | g15 =>
      have h : d.reparse = ofRat (Print.readBack 15 d.val) := by rw [reparse, hfmt]
      rw [h, reparse_ofRat_readBack]
  | g17 =>
      have h : d.reparse = d := by rw [reparse, hfmt]
      rw [h, h]

theorem compareDouble_reparse (d : Double) : Print.compareDouble d.reparse.val d.val = true := by
  have hself : ∀ x : ℚ, Print.compareDouble x x = true := fun x => by
    simp [Print.compareDouble, le_max_iff, abs_nonneg]
  unfold reparse
  split
  · rename_i hfmt
    have hint : d.val = d.valueint := by
      unfold numberFormat at hfmt
      split_ifs at hfmt with h
      exact h
    rw [val_ofRat, ← hint]
    exact hself _
  · rename_i hfmt
    unfold numberFormat at hfmt
    split_ifs at hfmt with h₁ h₂
    exact h₂
  · exact hself _

theorem valueint_negZero : negZero.valueint = 0 := by
  norm_num [valueint]

@[simp] theorem reparse_negZero : negZero.reparse = ofRat 0 := by
  have hfmt : negZero.numberFormat = .int := by simp [numberFormat, valueint_negZero]
  rw [reparse, hfmt, valueint_negZero]
  rfl

theorem reparse_point_three : (ofRat (30000000000000004 / 10 ^ 17)).reparse = ofRat (3 / 10) := by
  have hlog : Int.log 10 ((30000000000000004 : ℚ) / 10 ^ 17) = -1 :=
    Print.log_eq_of_mem (by norm_num) (by norm_num) (by norm_num)
  have hfloor : ⌊(30000000000000004 : ℚ) / 10 ^ 17 / 10 ^ ((-1 : ℤ) - (15 : ℕ) + 1)⌋ = 300000000000000 :=
    Int.floor_eq_iff.mpr ⟨by norm_num, by norm_num⟩
  have hsig : Print.significant 15 ((30000000000000004 : ℚ) / 10 ^ 17) = (300000000000000, -1) := by
    unfold Print.significant Print.roundHalfEven
    simp only [hlog, hfloor]
    norm_num
    decide
  have hback : Print.readBack 15 ((30000000000000004 : ℚ) / 10 ^ 17) = 3 / 10 := by
    rw [Print.readBack, if_neg (by norm_num), abs_of_pos (by norm_num), hsig]
    norm_num
  have hint : (ofRat ((30000000000000004 : ℚ) / 10 ^ 17)).valueint = 0 := by
    have hnum : 0 ≤ ((30000000000000004 : ℚ) / 10 ^ 17).num := Rat.num_nonneg.mpr (by norm_num)
    rw [valueint, if_neg (by norm_num), if_neg (by norm_num), val_ofRat, tdiv_num_den_of_nonneg hnum]
    exact Int.floor_eq_iff.mpr ⟨by norm_num, by norm_num⟩
  have hclose : Print.compareDouble (3 / 10) ((30000000000000004 : ℚ) / 10 ^ 17) = true := by
    rw [Print.compareDouble, decide_eq_true_eq, abs_of_neg (by norm_num), abs_of_pos (by norm_num),
      abs_of_pos (by norm_num), max_eq_right (by norm_num)]
    norm_num
  have hfmt : (ofRat (30000000000000004 / 10 ^ 17)).numberFormat = .g15 := by
    rw [numberFormat, hint, if_neg (by norm_num), val_ofRat, hback, if_pos hclose]
  rw [reparse, hfmt, val_ofRat, hback]

end Double

end AevumDb
