import Mathlib.Data.Nat.Bitwise
import AevumDb.Infra.IdGenerator

/-!
# Shape and injectivity of generated identifiers

`IdGenerator::generate` prints each group with `std::setw` and `std::setfill('0')`, so a
group of width `w` whose value is below `16 ^ w` prints as exactly its `w` low hexadecimal
digits (`hexField_data`).  The masks and shifts keep every group within its width, and
`generate_data` reads the identifier as five digit strings of fixed widths.

From there the two halves of the result are list facts: the pattern of the spec accepts the
digits position by position, with the version and variant nibbles forced by the `|`
constants; and equal identifiers split at the fixed group lengths into equal digit strings,
hence equal group values, which are the 122 sample bits the groups read.
-/

namespace AevumDb

namespace IdGenerator

/-! ## Digits of a padded group -/

def hexDigits : Nat → Nat → List Char
  | 0, _ => []
  | w + 1, n => Nat.digitChar (n / 16 ^ w % 16) :: hexDigits w n

@[simp] theorem length_hexDigits (w n : Nat) : (hexDigits w n).length = w := by
  induction w <;> simp [hexDigits, *]

theorem hexDigits_succ_eq_append (w n : Nat) :
    hexDigits (w + 1) n = hexDigits w (n / 16) ++ [Nat.digitChar (n % 16)] := by
  induction w with
  | zero => simp [hexDigits]
  | succ w ih =>
    rw [hexDigits, ih, hexDigits, Nat.div_div_eq_div_mul, ← Nat.pow_succ']
    rfl

theorem digitChar_inj : ∀ a b : Fin 16, Nat.digitChar a = Nat.digitChar b → a = b := by
  decide

theorem hexDigits_eq_iff (w m n : Nat) :
    hexDigits w m = hexDigits w n ↔ m % 16 ^ w = n % 16 ^ w := by
  induction w with
  | zero => simp [hexDigits, Nat.mod_one]
  | succ w ih =>
    have hm := @Nat.mod_pow_succ m 16 w
    have hn := @Nat.mod_pow_succ n 16 w
    rw [hexDigits, hexDigits, List.cons.injEq, ih]
    constructor
    · rintro ⟨hd, hlow⟩
      have := digitChar_inj ⟨_, Nat.mod_lt _ (by decide)⟩ ⟨_, Nat.mod_lt _ (by decide)⟩ hd
      rw [hm, hn, hlow, Fin.mk.inj this]
    · intro h
      have hlow : m % 16 ^ w = n % 16 ^ w := by
        rw [← Nat.mod_mod_of_dvd m (Nat.pow_dvd_pow 16 w.le_succ), h,
          Nat.mod_mod_of_dvd n (Nat.pow_dvd_pow 16 w.le_succ)]
      rw [hm, hn, hlow, Nat.add_left_cancel_iff] at h
      exact ⟨by rw [Nat.eq_of_mul_eq_mul_left (Nat.pos_pow_of_pos w (by decide)) h], hlow⟩

theorem hexDigits_inj {w m n : Nat} (hm : m < 16 ^ w) (hn : n < 16 ^ w) :
    hexDigits w m = hexDigits w n ↔ m = n := by
  rw [hexDigits_eq_iff, Nat.mod_eq_of_lt hm, Nat.mod_eq_of_lt hn]

theorem hexDigits_append_eq_iff {w m n : Nat} {s t : List Char} :
    hexDigits w m ++ s = hexDigits w n ++ t ↔ hexDigits w m = hexDigits w n ∧ s = t :=
  ⟨fun h => List.append_inj h (by simp), fun ⟨h₁, h₂⟩ => h₁ ▸ h₂ ▸ rfl⟩

/-! ## `Nat.toDigits` one digit at a time -/

section Digits

variable {b : Nat}

theorem toDigitsCore_eq (hb : 2 ≤ b) (n : Nat) : ∀ f ds, n < f →
    Nat.toDigitsCore b f n ds = Nat.toDigits b n ++ ds := by
  induction n using Nat.strong_induction_on with
  | _ n ih =>
    intro f ds hf
    obtain ⟨f, rfl⟩ : ∃ g, f = g + 1 := ⟨f - 1, by omega⟩
    simp only [Nat.toDigits, Nat.toDigitsCore]
    split
    · rfl
    · rename_i hq
      have hlt : n / b < n := Nat.div_lt_self (Nat.pos_of_ne_zero (by rintro rfl; simp at hq)) hb
      rw [ih _ hlt _ _ (by omega), ih _ hlt _ _ (by omega)]
      simp

theorem toDigits_eq_append (hb : 2 ≤ b) {n : Nat} (h : b ≤ n) :
    Nat.toDigits b n = Nat.toDigits b (n / b) ++ [Nat.digitChar (n % b)] := by
  have hne : n / b ≠ 0 := by
    rw [Ne, Nat.div_eq_zero_iff (by omega)]
    omega
  rw [Nat.toDigits, Nat.toDigitsCore, if_neg hne,
    toDigitsCore_eq hb _ _ _ (Nat.div_lt_self (by omega) hb)]

theorem toDigits_of_lt {n : Nat} (h : n < b) : Nat.toDigits b n = [Nat.digitChar n] := by
  simp [Nat.toDigits, Nat.toDigitsCore, Nat.div_eq_of_lt h, Nat.mod_eq_of_lt h]

theorem toDigits_ne_nil (hb : 2 ≤ b) (n : Nat) : Nat.toDigits b n ≠ [] := by
  rcases Nat.lt_or_ge n b with h | h
  · simp [toDigits_of_lt h]
  · simp [toDigits_eq_append hb h]

theorem toDigits_inj (hb : 2 ≤ b) (hb16 : b ≤ 16) :
    ∀ m n, Nat.toDigits b m = Nat.toDigits b n → m = n := by
  have hdig : ∀ {m n}, m < b → n < b → Nat.digitChar m = Nat.digitChar n → m = n :=
    fun hm hn h => Fin.mk.inj (digitChar_inj ⟨_, by omega⟩ ⟨_, by omega⟩ h)
  intro m
  induction m using Nat.strong_induction_on with
  | _ m ih =>
    intro n h
    rcases Nat.lt_or_ge m b with hm | hm <;> rcases Nat.lt_or_ge n b with hn | hn
    · rw [toDigits_of_lt hm, toDigits_of_lt hn, List.singleton_inj] at h
      exact hdig hm hn h
    · rw [toDigits_of_lt hm, toDigits_eq_append hb hn] at h
      exact absurd (List.append_inj' (h.symm.trans (List.nil_append _).symm) rfl).1
        (toDigits_ne_nil hb _)
    · rw [toDigits_of_lt hn, toDigits_eq_append hb hm] at h
      exact absurd (List.append_inj' (h.trans (List.nil_append _).symm) rfl).1
        (toDigits_ne_nil hb _)
    · rw [toDigits_eq_append hb hm, toDigits_eq_append hb hn] at h
      obtain ⟨hq, hr⟩ := List.append_inj' h rfl
      have hq := ih _ (Nat.div_lt_self (by omega) (by omega)) _ hq
      have hr := hdig (Nat.mod_lt _ (by omega)) (Nat.mod_lt _ (by omega)) (List.singleton_inj.mp hr)
      rw [← Nat.div_add_mod m b, ← Nat.div_add_mod n b, hq, hr]

end Digits

theorem hexField_data (w : Nat) : ∀ n, n < 16 ^ (w + 1) →
    (hexField (w + 1) n).data = hexDigits (w + 1) n := by
  show ∀ n, n < 16 ^ (w + 1) →
    List.replicate (w + 1 - (Nat.toDigits 16 n).length) '0' ++ Nat.toDigits 16 n = _
  induction w with
  | zero =>
    intro n h
    rw [Nat.zero_add, Nat.pow_one] at h
    simp [toDigits_of_lt h, hexDigits, Nat.mod_eq_of_lt h]
  | succ w ih =>
    intro n h
    have hq : n / 16 < 16 ^ (w + 1) := by rw [Nat.pow_succ] at h; omega
    rw [hexDigits_succ_eq_append, ← ih _ hq]
    rcases Nat.lt_or_ge n 16 with hn | hn
    · have h0 : Nat.toDigits 16 0 = ['0'] := rfl
      simp [toDigits_of_lt hn, Nat.div_eq_of_lt hn, Nat.mod_eq_of_lt hn, h0, List.replicate_succ']
    · rw [toDigits_eq_append (by decide) hn]
      simp

/-! ## The groups as numbers -/

theorem toNat_shiftRight (x : UInt64) (k : Nat) (hk : k < 64) :
    (x >>> UInt64.ofNat k).toNat = x.toNat / 2 ^ k := by
  show (x.toBitVec >>> (UInt64.mod (UInt64.ofNat k) 64).toBitVec).toNat = _
  rw [BitVec.ushiftRight_eq', BitVec.toNat_ushiftRight, Nat.shiftRight_eq_div_pow]
  congr
  show k % 18446744073709551616 % 64 = k
  omega

theorem toNat_and_mask (x : UInt64) (k : Nat) (hk : k < 64) :
    (x &&& UInt64.ofNat (2 ^ k - 1)).toNat = x.toNat % 2 ^ k := by
  show x.toNat &&& (2 ^ k - 1) % 2 ^ 64 = _
  have : 2 ^ k ≤ 2 ^ 64 := Nat.pow_le_pow_right (by decide) hk.le
  rw [Nat.mod_eq_of_lt (by omega), Nat.and_pow_two_sub_one_eq_mod]

theorem toNat_and_mask_or (x : UInt64) (k j : Nat) (hk : k ≤ j) (hj : j < 64) :
    ((x &&& UInt64.ofNat (2 ^ k - 1)) ||| UInt64.ofNat (2 ^ j)).toNat =
      x.toNat % 2 ^ k + 2 ^ j := by
  have hbit : (UInt64.ofNat (2 ^ j)).toNat = 2 ^ j :=
    UInt64.toNat_ofNat_of_lt (Nat.pow_lt_pow_right (by decide) hj)
  have hlow : x.toNat % 2 ^ k < 2 ^ j :=
    Nat.lt_of_lt_of_le (Nat.mod_lt _ (Nat.two_pow_pos k)) (Nat.pow_le_pow_right (by decide) hk)
  have hdisj : (x &&& UInt64.ofNat (2 ^ k - 1)).toBitVec &&& (UInt64.ofNat (2 ^ j)).toBitVec =
      0#64 := by
    apply BitVec.eq_of_toNat_eq
    show (x &&& _).toNat &&& (UInt64.ofNat (2 ^ j)).toNat = 0
    rw [toNat_and_mask x k (by omega), hbit, Nat.and_two_pow, Nat.testBit_lt_two_pow hlow,
      Bool.toNat_false, Nat.zero_mul]
  show (_ ||| _ : BitVec 64).toNat = _
  rw [← BitVec.add_eq_or_of_and_eq_zero _ _ hdisj, BitVec.toNat_add_of_and_eq_zero hdisj]
  show (x &&& _).toNat + (UInt64.ofNat (2 ^ j)).toNat = _
  rw [toNat_and_mask x k (by omega), hbit]

theorem generate_data (p1 p2 : UInt64) :
    (generate p1 p2).data =
      hexDigits 8 (p1.toNat / 2 ^ 32) ++ ['-'] ++
      hexDigits 4 (p1.toNat / 2 ^ 16 % 2 ^ 16) ++ ['-'] ++
      hexDigits 4 (p1.toNat % 2 ^ 12 + 2 ^ 14) ++ ['-'] ++
      hexDigits 4 (p2.toNat / 2 ^ 48 % 2 ^ 14 + 2 ^ 15) ++ ['-'] ++
      hexDigits 12 (p2.toNat % 2 ^ 48) := by
  have ha : p1.toNat < 2 ^ 64 := UInt64.toNat_lt_size p1
  have hb : p2.toNat < 2 ^ 64 := UInt64.toNat_lt_size p2
  have g1 : (p1 >>> 32).toNat = p1.toNat / 2 ^ 32 := toNat_shiftRight p1 32 (by decide)
  have g2 : ((p1 >>> 16) &&& 0xFFFF).toNat = p1.toNat / 2 ^ 16 % 2 ^ 16 := by
    rw [← toNat_shiftRight p1 16 (by decide)]
    exact toNat_and_mask _ 16 (by decide)
  have g3 : ((p1 &&& 0x0FFF) ||| 0x4000).toNat = p1.toNat % 2 ^ 12 + 2 ^ 14 :=
    toNat_and_mask_or p1 12 14 (by decide) (by decide)
  have g4 : (((p2 >>> 48) &&& 0x3FFF) ||| 0x8000).toNat = p2.toNat / 2 ^ 48 % 2 ^ 14 + 2 ^ 15 := by
    rw [← toNat_shiftRight p2 48 (by decide)]
    exact toNat_and_mask_or _ 14 15 (by decide) (by decide)
  have g5 : (p2 &&& 0xFFFFFFFFFFFF).toNat = p2.toNat % 2 ^ 48 := toNat_and_mask p2 48 (by decide)
  simp only [generate, String.data_append, g1, g2, g3, g4, g5]
  rw [hexField_data 7 _ (by omega), hexField_data 3 _ (by omega), hexField_data 3 _ (by omega),
    hexField_data 3 _ (by omega), hexField_data 11 _ (by omega)]

/-! ## The pattern of the spec -/

inductive CharClass where
  /-- `[0-9a-f]` -/
  | hex
  /-- a literal character -/
  | lit (c : Char)
  /-- a bracket of listed characters, as `[89ab]` -/
  | oneOf (cs : List Char)
  deriving DecidableEq, Repr

/-- Modelled from the spec: the characters a position accepts. -/
def CharClass.accepts : CharClass → Char → Bool
  | .hex, c => ('0' ≤ c && c ≤ '9') || ('a' ≤ c && c ≤ 'f')
  | .lit d, c => c == d
  | .oneOf cs, c => cs.contains c

/-- Modelled from the spec: a pattern anchored at both ends accepts the strings with one
character per position, each in its position's class. -/
def matchesPattern : List CharClass → List Char → Bool
  | [], [] => true
  | k :: p, c :: s => k.accepts c && matchesPattern p s
  | _, _ => false

/-- Modelled from the spec: the version-4 identifier pattern, position by position. -/
def uuidPattern : List CharClass :=
  List.replicate 8 .hex ++ [.lit '-'] ++ List.replicate 4 .hex ++ [.lit '-', .lit '4'] ++
  List.replicate 3 .hex ++ [.lit '-', .oneOf ['8', '9', 'a', 'b']] ++ List.replicate 3 .hex ++
  [.lit '-'] ++ List.replicate 12 .hex

@[simp] theorem matchesPattern_cons (k : CharClass) (p : List CharClass) (c : Char)
    (s : List Char) : matchesPattern (k :: p) (c :: s) = (k.accepts c && matchesPattern p s) :=
  rfl

@[simp] theorem lit_accepts_self (c : Char) : (CharClass.lit c).accepts c = true :=
  beq_self_eq_true c

theorem hex_accepts_digitChar {d : Nat} (h : d < 16) :
    CharClass.hex.accepts (Nat.digitChar d) = true := by
  interval_cases d <;> rfl

theorem matchesPattern_hexDigits (w n : Nat) (p : List CharClass) (s : List Char) :
    matchesPattern (List.replicate w .hex ++ p) (hexDigits w n ++ s) = matchesPattern p s := by
  induction w with
  | zero => rfl
  | succ w ih =>
    rw [List.replicate_succ, hexDigits, List.cons_append, List.cons_append, matchesPattern_cons,
      ih, hex_accepts_digitChar (Nat.mod_lt _ (by decide)), Bool.true_and]

theorem hexDigits_version (a : Nat) :
    hexDigits 4 (a % 2 ^ 12 + 2 ^ 14) = '4' :: hexDigits 3 (a % 2 ^ 12 + 2 ^ 14) := by
  rw [hexDigits, show (a % 2 ^ 12 + 2 ^ 14) / 16 ^ 3 % 16 = 4 by omega]
  rfl

theorem hexDigits_variant (b : Nat) :
    hexDigits 4 (b % 2 ^ 14 + 2 ^ 15) =
      Nat.digitChar (8 + b % 2 ^ 14 / 2 ^ 12) :: hexDigits 3 (b % 2 ^ 14 + 2 ^ 15) := by
  rw [hexDigits, show (b % 2 ^ 14 + 2 ^ 15) / 16 ^ 3 % 16 = 8 + b % 2 ^ 14 / 2 ^ 12 by omega]

theorem variant_accepts_digitChar {d : Nat} (h : d < 4) :
    (CharClass.oneOf ['8', '9', 'a', 'b']).accepts (Nat.digitChar (8 + d)) = true := by
  interval_cases d <;> rfl

/-! ## Shape and injectivity of `generate` -/

theorem generate_matches_uuidPattern (p1 p2 : UInt64) :
    matchesPattern uuidPattern (generate p1 p2).data = true := by
  have last := matchesPattern_hexDigits 12 (p2.toNat % 2 ^ 48) [] []
  rw [List.append_nil, List.append_nil] at last
  rw [generate_data, hexDigits_version, hexDigits_variant]
  simp only [uuidPattern, List.append_assoc, List.cons_append, List.singleton_append,
    List.nil_append, matchesPattern_hexDigits, matchesPattern_cons, lit_accepts_self,
    variant_accepts_digitChar (by omega : p2.toNat / 2 ^ 48 % 2 ^ 14 / 2 ^ 12 < 4), last,
    Bool.true_and]
  rfl

theorem generate_eq_iff (p1 p2 q1 q2 : UInt64) :
    generate p1 p2 = generate q1 q2 ↔
      (p1 >>> 16 = q1 >>> 16 ∧ p1 &&& 0xFFF = q1 &&& 0xFFF ∧
        p2 &&& 0x3FFFFFFFFFFFFFFF = q2 &&& 0x3FFFFFFFFFFFFFFF) := by
  have key : ∀ x y : UInt64, x = y ↔ x.toNat = y.toNat := fun _ _ => ⟨congrArg _, UInt64.toNat.inj⟩
  have s16 (x : UInt64) : (x >>> 16).toNat = x.toNat / 2 ^ 16 := toNat_shiftRight x 16 (by decide)
  have m12 (x : UInt64) : (x &&& 0xFFF).toNat = x.toNat % 2 ^ 12 := toNat_and_mask x 12 (by decide)
  have m62 (x : UInt64) : (x &&& 0x3FFFFFFFFFFFFFFF).toNat = x.toNat % 2 ^ 62 :=
    toNat_and_mask x 62 (by decide)
  have ha : p1.toNat < 2 ^ 64 := UInt64.toNat_lt_size p1
  have hb : p2.toNat < 2 ^ 64 := UInt64.toNat_lt_size p2
  have ha' : q1.toNat < 2 ^ 64 := UInt64.toNat_lt_size q1
  have hb' : q2.toNat < 2 ^ 64 := UInt64.toNat_lt_size q2
  rw [String.ext_iff, generate_data, generate_data, key, key, key, s16, s16, m12, m12, m62, m62]
  simp (disch := omega) only [List.append_assoc, List.cons_append, List.nil_append,
    hexDigits_append_eq_iff, List.cons.injEq, true_and, hexDigits_inj, Nat.add_right_cancel_iff]
  rw [← and_assoc]
  exact and_congr (by omega) (and_congr Iff.rfl (by omega))

/-- Every identifier matches the pattern, and two identifiers are equal exactly when the
samples agree on bits 63..16 and 11..0 of `p1` and bits 61..0 of `p2`. -/
theorem generate_shape_and_injective (p1 p2 : UInt64) :
    matchesPattern uuidPattern (generate p1 p2).data = true ∧
      ∀ q1 q2 : UInt64, generate p1 p2 = generate q1 q2 ↔
        (p1 >>> 16 = q1 >>> 16 ∧ p1 &&& 0xFFF = q1 &&& 0xFFF ∧
          p2 &&& 0x3FFFFFFFFFFFFFFF = q2 &&& 0x3FFFFFFFFFFFFFFF) :=
  ⟨generate_matches_uuidPattern p1 p2, generate_eq_iff p1 p2⟩

example : generate 0x0123456789ABCDEF 0xFEDCBA9876543210 = "01234567-89ab-4def-bedc-ba9876543210" := by
  decide

end IdGenerator

end AevumDb
