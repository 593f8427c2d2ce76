/-
  Software division is exact.

  The number of leading zeros normalises both words; the shortcut is exact since the low half of the
  shifted divisor is zero, and the loop keeps the dividend below twice the divisor.  The signed
  division is the one on magnitudes with the sign put back.
-/
import ZipStormMX.Zlib.Udiv
import Mathlib.Data.Nat.Log
import Mathlib.Tactic.Ring

namespace ZipStormMX.Zlib

/-! ## Bits in reverse -/

/-- After `k` rounds the last `k` bits have moved over, in reverse. -/
theorem zipBitrev_iterate (a : BitVec 32) : ∀ k ≤ 32,
    (zipBitrevStep^[k] (0, a)).2 = a >>> k ∧
    ∀ j, (zipBitrevStep^[k] (0, a)).1.getLsbD j = (decide (j < k) && a.getLsbD (k - 1 - j)) := by
  intro k
  induction k with
  | zero =>
    intro _
    refine ⟨(BitVec.ushiftRight_zero a).symm, ?_⟩
    intro j
    show (0 : BitVec 32).getLsbD j = _
    simp
  | succ k ih =>
    intro hk
    obtain ⟨hb, hr⟩ := ih (by omega)
    rw [Function.iterate_succ_apply']
    generalize zipBitrevStep^[k] (0, a) = rb at *
    constructor
    · show rb.2 >>> 1 = a >>> (k + 1)
      rw [hb, BitVec.shiftRight_add]
    · intro j
      have hone : (rb.2 &&& 1#32).getLsbD j = (decide (j = 0) && a.getLsbD k) := by
        rw [BitVec.getLsbD_and, hb, BitVec.getLsbD_ushiftRight]
        by_cases hj : j = 0
        · subst hj
          simp
        · have h1 : (1#32).getLsbD j = false := by
            rw [BitVec.getLsbD_one]
            simp [hj]
          rw [h1, Bool.and_false, decide_eq_false hj, Bool.false_and]
      show (rb.1 <<< 1 ||| (rb.2 &&& 1#32)).getLsbD j = _
      rw [BitVec.getLsbD_or, BitVec.getLsbD_shiftLeft, hone, hr]
      by_cases hj : j = 0
      · subst hj
        simp
      · rw [decide_eq_false hj, Bool.false_and, Bool.or_false,
          show k + 1 - 1 - j = k - 1 - (j - 1) by omega]
        by_cases hlt : j < k + 1
        · rw [decide_eq_true hlt, decide_eq_true (by omega : j - 1 < k),
            decide_eq_true (by omega : j < 32), decide_eq_false (by omega : ¬j < 1)]
          simp
        · rw [decide_eq_false hlt, decide_eq_false (by omega : ¬j - 1 < k)]
          simp

theorem getLsbD_zipBitrev (a : BitVec 32) {j : ℕ} (hj : j < 32) :
    (zipBitrev a).getLsbD j = a.getLsbD (31 - j) := by
  have h := (zipBitrev_iterate a 32 (Nat.le_refl _)).2 j
  rw [decide_eq_true hj, Bool.true_and] at h
  exact h

/-! ## Leading zeros -/

/-- The first set bit is bit `t`. -/
structure FirstBit (h : BitVec 32) (t : ℕ) : Prop where
  bit : h.getLsbD t = true
  below : ∀ i < t, h.getLsbD i = false

theorem mask_eq_zero {h : BitVec 32} {n : ℕ} (hn : n ≤ 32) :
    h &&& BitVec.ofNat 32 (2 ^ n - 1) = 0 ↔ ∀ i < n, h.getLsbD i = false := by
  have hbit : ∀ i < 32, (h &&& BitVec.ofNat 32 (2 ^ n - 1)).getLsbD i =
      (h.getLsbD i && decide (i < n)) := by
    intro i hi
    rw [BitVec.getLsbD_and, BitVec.getLsbD_ofNat, Nat.testBit_two_pow_sub_one, decide_eq_true hi,
      Bool.true_and]
  constructor
  · intro hz i hi
    have h0 := hbit i (by omega)
    rw [hz, decide_eq_true hi, Bool.and_true] at h0
    rw [← h0]
    exact BitVec.getLsbD_zero
  · intro hall
    apply BitVec.eq_of_getLsbD_eq
    intro i hi
    rw [hbit i hi]
    by_cases hlt : i < n
    · rw [hall i hlt]
      exact BitVec.getLsbD_zero.symm
    · rw [decide_eq_false hlt, Bool.and_false]
      exact BitVec.getLsbD_zero.symm

theorem FirstBit.mask {h : BitVec 32} {t n : ℕ} (hf : FirstBit h t) (hn : n ≤ 32) :
    h &&& BitVec.ofNat 32 (2 ^ n - 1) = 0 ↔ n ≤ t := by
  rw [mask_eq_zero hn]
  constructor
  · intro hall
    by_contra hlt
    have hbit := hf.bit
    rw [hall t (by omega)] at hbit
    exact Bool.false_ne_true hbit
  · exact fun hle i hi => hf.below i (by omega)

/-- **One step of the search** halves the range, and keeps the sum of count and position. -/
theorem skip_spec {h : BitVec 32} {t n : ℕ} (hf : FirstBit h t) (hn : n ≤ 32) (ht : t < 2 * n) (c : ℕ) :
    ∃ t' < n, FirstBit (skip n (c, h)).2 t' ∧ (skip n (c, h)).1 + t' = c + t := by
  unfold skip
  by_cases hle : n ≤ t
  · rw [if_pos ((hf.mask hn).2 hle)]
    refine ⟨t - n, by omega, ⟨?_, ?_⟩, ?_⟩
    · show (h >>> n).getLsbD (t - n) = true
      rw [BitVec.getLsbD_ushiftRight, show n + (t - n) = t by omega]
      exact hf.bit
    · intro i hi
      show (h >>> n).getLsbD i = false
      rw [BitVec.getLsbD_ushiftRight]
      exact hf.below _ (by omega)
    · show c + n + (t - n) = c + t
      omega
  · rw [if_neg fun hz => hle ((hf.mask hn).1 hz)]
    exact ⟨t, by omega, hf, rfl⟩

/-- The search, from a word with its first bit at `t`. -/
theorem search_spec {h : BitVec 32} {t : ℕ} (hf : FirstBit h t) (ht : t < 32) (c : ℕ) :
    (if (skip 2 (skip 4 (skip 8 (skip 16 (c, h))))).2 &&& 1 = 0 then
      (skip 2 (skip 4 (skip 8 (skip 16 (c, h))))).1 + 1
    else (skip 2 (skip 4 (skip 8 (skip 16 (c, h))))).1) = c + t := by
  obtain ⟨t1, h1, hf1, hs1⟩ := skip_spec hf (n := 16) (by decide) (by omega) c
  obtain ⟨t2, h2, hf2, hs2⟩ := skip_spec hf1 (n := 8) (by decide) (by omega) (skip 16 (c, h)).1
  obtain ⟨t3, h3, hf3, hs3⟩ :=
    skip_spec hf2 (n := 4) (by decide) (by omega) (skip 8 (skip 16 (c, h))).1
  obtain ⟨t4, h4, hf4, hs4⟩ :=
    skip_spec hf3 (n := 2) (by decide) (by omega) (skip 4 (skip 8 (skip 16 (c, h)))).1
  have hlast := hf4.mask (n := 1) (by decide)
  change (skip 2 (skip 4 (skip 8 (skip 16 (c, h))))).2 &&& 1 = 0 ↔ 1 ≤ t4 at hlast
  change (skip 8 (skip 16 (c, h))).1 + t2 = _ at hs2
  change (skip 4 (skip 8 (skip 16 (c, h)))).1 + t3 = _ at hs3
  change (skip 2 (skip 4 (skip 8 (skip 16 (c, h))))).1 + t4 = _ at hs4
  by_cases hle : 1 ≤ t4
  · rw [if_pos (hlast.2 hle)]
    omega
  · rw [if_neg fun hz => hle (hlast.1 hz)]
    omega

/-- `n` leading zeros. -/
def LeadingZeros (v : BitVec 64) (n : ℕ) : Prop :=
  n < 64 ∧ 2 ^ (63 - n) ≤ v.toNat ∧ v.toNat < 2 ^ (64 - n)

/-- Seen in reverse, the first bit of a word is its highest. -/
theorem firstBit_zipBitrev {x : BitVec 32} (hx : x ≠ 0) :
    FirstBit (zipBitrev x) (31 - Nat.log2 x.toNat) ∧ Nat.log2 x.toNat < 32 := by
  have hne : x.toNat ≠ 0 := fun h => hx (BitVec.eq_of_toNat_eq h)
  have hlog : Nat.log2 x.toNat < 32 := (Nat.log2_lt hne).2 x.isLt
  refine ⟨⟨?_, ?_⟩, hlog⟩
  · rw [getLsbD_zipBitrev x (by omega), show 31 - (31 - Nat.log2 x.toNat) = Nat.log2 x.toNat by omega]
    exact Nat.testBit_log2 hne
  · intro i hi
    rw [getLsbD_zipBitrev x (by omega)]
    apply Nat.testBit_lt_two_pow
    have hlt := Nat.lt_log2_self (n := x.toNat)
    exact Nat.lt_of_lt_of_le hlt (Nat.pow_le_pow_right (by decide) (by omega))

/-- The search from a word that is not zero. -/
theorem search_zipBitrev {x : BitVec 32} (hx : x ≠ 0) (c : ℕ) :
    (if (skip 2 (skip 4 (skip 8 (skip 16 (c, zipBitrev x))))).2 &&& 1 = 0 then
      (skip 2 (skip 4 (skip 8 (skip 16 (c, zipBitrev x))))).1 + 1
    else (skip 2 (skip 4 (skip 8 (skip 16 (c, zipBitrev x))))).1) = c + (31 - Nat.log2 x.toNat) := by
  obtain ⟨hf, hlog⟩ := firstBit_zipBitrev hx
  exact search_spec hf (by omega) c

/-- **`cltz` counts the leading zeros** of any word but zero. -/
theorem cltz_spec {v : BitVec 64} (hv : v ≠ 0) : LeadingZeros v (cltz v) := by
  have hlt := v.isLt
  have hne : v.toNat ≠ 0 := fun h => hv (BitVec.eq_of_toNat_eq h)
  have hhigh : ((v >>> 32).setWidth 32 : BitVec 32).toNat = v.toNat / 2 ^ 32 := by
    rw [BitVec.toNat_setWidth, BitVec.toNat_ushiftRight, Nat.shiftRight_eq_div_pow]
    omega
  have hlog := (Nat.log2_eq_iff hne).1 rfl
  have hsum : ∀ l, 2 ^ l ≤ v.toNat → v.toNat < 2 ^ (l + 1) → cltz v = 63 - l →
      LeadingZeros v (cltz v) := by
    intro l h0 h1 heq
    have hl : l < 64 := by
      by_contra hge
      exact absurd (Nat.le_trans (Nat.pow_le_pow_right (by decide) (by omega : 64 ≤ l)) h0) (by omega)
    unfold LeadingZeros
    rw [heq, show 63 - (63 - l) = l by omega, show 64 - (63 - l) = l + 1 by omega]
    exact ⟨by omega, h0, h1⟩
  by_cases hz : ((v >>> 32).setWidth 32 : BitVec 32) = 0
  · -- the first bit is in the low half
    have hsmall : v.toNat / 2 ^ 32 = 0 := by
      rw [← hhigh, hz]
      rfl
    have hlow : (v.setWidth 32).toNat = v.toNat := by
      rw [BitVec.toNat_setWidth]
      omega
    have hx : v.setWidth 32 ≠ 0 := by
      intro h
      apply hne
      rw [← hlow, h]
      rfl
    have hcltz : cltz v = 32 + (31 - Nat.log2 v.toNat) := by
      have hsearch := search_zipBitrev hx 32
      rw [hlow] at hsearch
      unfold cltz
      dsimp only
      rw [if_pos hz]
      exact hsearch
    have hl := (firstBit_zipBitrev hx).2
    rw [hlow] at hl
    exact hsum _ hlog.1 hlog.2 (by omega)
  · have hcltz : cltz v = 0 + (31 - Nat.log2 (v.toNat / 2 ^ 32)) := by
      have hsearch := search_zipBitrev hz 0
      rw [hhigh] at hsearch
      unfold cltz
      dsimp only
      rw [if_neg hz]
      exact hsearch
    have hl := (firstBit_zipBitrev hz).2
    rw [hhigh] at hl
    have hne' : v.toNat / 2 ^ 32 ≠ 0 := by
      rw [← hhigh]
      exact fun h => hz (BitVec.eq_of_toNat_eq h)
    have hlog' := (Nat.log2_eq_iff hne').1 rfl
    apply hsum (32 + Nat.log2 (v.toNat / 2 ^ 32))
    · rw [Nat.pow_add, Nat.mul_comm]
      exact (Nat.le_div_iff_mul_le (by decide)).1 hlog'.1
    · rw [Nat.add_assoc, Nat.pow_add, Nat.mul_comm]
      exact (Nat.div_lt_iff_lt_mul (by decide)).1 hlog'.2
    · omega

/-! ## The loop -/

/-- A bit below a multiple of its double is added. -/
theorem or_pow {r : BitVec 64} {k : ℕ} (hk : k < 64) (hr : r.toNat % 2 ^ (k + 1) = 0) :
    (r ||| 1#64 <<< k).toNat = r.toNat + 2 ^ k := by
  have hpow : 2 ^ k < 2 ^ 64 := Nat.pow_lt_pow_right (by decide) hk
  have hbit : (1#64 <<< k).toNat = 2 ^ k := by
    rw [BitVec.toNat_shiftLeft, Nat.shiftLeft_eq]
    show 1 * 2 ^ k % 2 ^ 64 = _
    rw [Nat.one_mul, Nat.mod_eq_of_lt hpow]
  have hmul : r.toNat = (r.toNat / 2 ^ (k + 1)) <<< (k + 1) := by
    rw [Nat.shiftLeft_eq]
    exact (Nat.div_mul_cancel (Nat.dvd_of_mod_eq_zero hr)).symm
  rw [BitVec.toNat_or, hbit, hmul,
    Nat.shiftLeft_add_eq_or_of_lt (Nat.pow_lt_pow_right (by decide) (Nat.lt_succ_self k))]

theorem pow_ne_zero {k : ℕ} (hk : k < 64) : 1#64 <<< k ≠ 0 := by
  intro h
  have hbit := congrArg (BitVec.getLsbD · k) h
  simp [hk] at hbit

/-- **The loop divides.**  The divisor is `d` shifted by `k`, the dividend is below twice that, and the
    last `k + 1` bits of the quotient are still to come. -/
theorem udivLoop_spec (d : ℕ) (hd : 0 < d) : ∀ k < 64, ∀ r a b : BitVec 64, b.toNat = d * 2 ^ k →
    a.toNat < 2 * b.toNat → r.toNat % 2 ^ (k + 1) = 0 →
    (udivLoop r a b (1#64 <<< k)).toNat = r.toNat + a.toNat / d := by
  intro k
  induction k with
  | zero =>
    intro _ r a b hb ha hr
    rw [Nat.pow_zero, Nat.mul_one] at hb
    have hend : ∀ r a b, udivLoop r a b (1#64 <<< 0 >>> 1) = r := by
      intro r a b
      rw [udivLoop, if_pos (by decide)]
    rw [udivLoop, if_neg (pow_ne_zero (by decide)), hend, hend]
    by_cases hle : b ≤ a
    · have hle' : b.toNat ≤ a.toNat := hle
      rw [if_pos hle, or_pow (by decide) hr]
      have hdiv : a.toNat / d = 1 := Nat.div_eq_of_lt_le (by omega) (by omega)
      rw [hdiv, Nat.pow_zero]
    · have hlt : ¬b.toNat ≤ a.toNat := hle
      rw [if_neg hle, Nat.div_eq_of_lt (by omega)]
      rfl
  | succ k ih =>
    intro hk r a b hb ha hr
    have hpow : 2 ^ (k + 1) = 2 * 2 ^ k := Nat.pow_succ'
    have hpos : 0 < 2 ^ k := Nat.pow_pos (by decide)
    have hhalf : (b >>> 1).toNat = d * 2 ^ k := by
      rw [BitVec.toNat_ushiftRight, Nat.shiftRight_eq_div_pow, hb, hpow, Nat.pow_one,
        show d * (2 * 2 ^ k) = d * 2 ^ k * 2 by ring, Nat.mul_div_cancel _ (by decide)]
    have hm : 1#64 <<< (k + 1) >>> 1 = 1#64 <<< k := by
      apply BitVec.eq_of_toNat_eq
      have h0 : 2 ^ k < 2 ^ 64 := Nat.pow_lt_pow_right (by decide) (by omega)
      have h1 : 2 ^ (k + 1) < 2 ^ 64 := Nat.pow_lt_pow_right (by decide) hk
      rw [BitVec.toNat_ushiftRight, BitVec.toNat_shiftLeft, BitVec.toNat_shiftLeft]
      simp only [Nat.shiftLeft_eq, Nat.shiftRight_eq_div_pow, BitVec.toNat_ofNat]
      omega
    rw [udivLoop, if_neg (pow_ne_zero hk), hm]
    have hdouble : b.toNat = 2 * (d * 2 ^ k) := by
      rw [hb, hpow]
      ring
    by_cases hle : b ≤ a
    · -- the bit is set, and the divisor taken away
      have hle' : b.toNat ≤ a.toNat := hle
      have hor := or_pow hk hr
      have hsub : (a - b).toNat = a.toNat - d * 2 ^ (k + 1) := by
        rw [BitVec.toNat_sub_of_le hle, hb]
      have hr' : (r ||| 1#64 <<< (k + 1)).toNat % 2 ^ (k + 1) = 0 := by
        rw [hor, Nat.add_mod_right]
        exact Nat.mod_eq_zero_of_dvd ((Nat.pow_dvd_pow 2 (Nat.le_succ _)).trans (Nat.dvd_of_mod_eq_zero hr))
      rw [if_pos hle, ih (by omega) _ _ _ hhalf (by omega) hr', hor, hsub]
      have hdiv : (a.toNat - d * 2 ^ (k + 1)) / d = a.toNat / d - 2 ^ (k + 1) :=
        Nat.sub_mul_div_of_le _ _ _ (by omega)
      have hge : 2 ^ (k + 1) ≤ a.toNat / d := (Nat.le_div_iff_mul_le hd).2 (by
        rw [Nat.mul_comm]
        omega)
      omega
    · have hlt : ¬b.toNat ≤ a.toNat := hle
      have hr' : r.toNat % 2 ^ (k + 1) = 0 :=
        Nat.mod_eq_zero_of_dvd ((Nat.pow_dvd_pow 2 (Nat.le_succ _)).trans (Nat.dvd_of_mod_eq_zero hr))
      rw [if_neg hle]
      exact ih (by omega) _ _ _ hhalf (by omega) hr'

/-! ## Unsigned division -/

theorem shl_toNat {v : BitVec 64} {n : ℕ} (h : v.toNat * 2 ^ n < 2 ^ 64) :
    (v <<< n).toNat = v.toNat * 2 ^ n := by
  rw [BitVec.toNat_shiftLeft, Nat.shiftLeft_eq, Nat.mod_eq_of_lt h]

/-- A word shifted by its leading zeros has its top bit set. -/
theorem LeadingZeros.normalised {v : BitVec 64} {n : ℕ} (h : LeadingZeros v n) :
    2 ^ 63 ≤ v.toNat * 2 ^ n ∧ v.toNat * 2 ^ n < 2 ^ 64 := by
  obtain ⟨hn, hlow, hhigh⟩ := h
  have hpos : 0 < 2 ^ n := Nat.pow_pos (by decide)
  constructor
  · calc 2 ^ 63 = 2 ^ (63 - n) * 2 ^ n := by rw [← Nat.pow_add, Nat.sub_add_cancel (by omega)]
      _ ≤ v.toNat * 2 ^ n := Nat.mul_le_mul_right _ hlow
  · calc v.toNat * 2 ^ n < 2 ^ (64 - n) * 2 ^ n := Nat.mul_lt_mul_of_pos_right hhigh hpos
      _ = 2 ^ 64 := by rw [← Nat.pow_add, Nat.sub_add_cancel (by omega)]

/-- The smaller word has more of them. -/
theorem LeadingZeros.le {a b : BitVec 64} {la lb : ℕ} (ha : LeadingZeros a la)
    (hb : LeadingZeros b lb) (hle : b.toNat ≤ a.toNat) : la ≤ lb := by
  obtain ⟨ha0, -, ha1⟩ := ha
  obtain ⟨hb0, hb1, -⟩ := hb
  have hlt : 2 ^ (63 - lb) < 2 ^ (64 - la) := by
    omega
  have hexp := (Nat.pow_lt_pow_iff_right (by decide)).1 hlt
  omega

theorem LeadingZeros.lt {a : BitVec 64} {la : ℕ} (ha : LeadingZeros a la) (h : 2 ^ 32 ≤ a.toNat) :
    la < 32 := by
  obtain ⟨ha0, -, ha1⟩ := ha
  have hlt : 2 ^ 32 < 2 ^ (64 - la) := by
    omega
  have hexp := (Nat.pow_lt_pow_iff_right (by decide)).1 hlt
  omega

theorem high_toNat (v : BitVec 64) : (high v).toNat = v.toNat / 2 ^ 32 := by
  have hv := v.isLt
  unfold high
  rw [BitVec.toNat_setWidth, BitVec.toNat_ushiftRight, Nat.shiftRight_eq_div_pow]
  omega

theorem low_zero (v : BitVec 64) : v &&& 0x0ffffffff#64 = 0 ↔ v.toNat % 2 ^ 32 = 0 := by
  have hval : (v &&& 0x0ffffffff#64).toNat = v.toNat % 2 ^ 32 := by
    rw [BitVec.toNat_and]
    exact Nat.and_two_pow_sub_one_eq_mod v.toNat 32
  rw [← BitVec.toNat_inj, hval]
  exact Iff.rfl

theorem ushiftRight_zero_iff (v : BitVec 64) : v >>> 32 = 0 ↔ v.toNat < 2 ^ 32 := by
  rw [← BitVec.toNat_inj, BitVec.toNat_ushiftRight, Nat.shiftRight_eq_div_pow]
  show v.toNat / 2 ^ 32 = 0 ↔ _
  omega

variable {a b : BitVec 64}

/-- What is known past the first two branches. -/
theorem leadingZeros_of_large (hb : b ≠ 0) (hle : ¬a < b)
    (hlarge : ¬(b >>> 32 = 0 ∧ a >>> 32 = 0)) : LeadingZeros a (cltz a) ∧
    LeadingZeros b (cltz b) ∧ cltz a ≤ cltz b ∧ cltz a < 32 := by
  have hle' : b.toNat ≤ a.toNat := Nat.le_of_not_lt hle
  have hlarge' : 2 ^ 32 ≤ a.toNat := by
    rw [ushiftRight_zero_iff, ushiftRight_zero_iff] at hlarge
    omega
  have ha : a ≠ 0 := by
    rintro rfl
    exact absurd hlarge' (by decide)
  have hla := cltz_spec ha
  have hlb := cltz_spec hb
  exact ⟨hla, hlb, hla.le hlb hle', hla.lt hlarge'⟩

/-- **`__udivdi3` divides.** -/
theorem udivdi3_spec (hb : b ≠ 0) : (udivdi3 a b).toNat = a.toNat / b.toNat := by
  have hblt := b.isLt
  have halt := a.isLt
  have hbpos : 0 < b.toNat := Nat.pos_of_ne_zero fun h => hb (BitVec.eq_of_toNat_eq h)
  unfold udivdi3
  split_ifs with hlt hsmall
  · have hlt' : a.toNat < b.toNat := hlt
    rw [Nat.div_eq_of_lt hlt']
    rfl
  · rw [ushiftRight_zero_iff, ushiftRight_zero_iff] at hsmall
    have hle := Nat.div_le_self a.toNat b.toNat
    rw [BitVec.toNat_setWidth, BitVec.toNat_udiv, BitVec.toNat_setWidth, BitVec.toNat_setWidth,
      Nat.mod_eq_of_lt hsmall.1, Nat.mod_eq_of_lt hsmall.2, Nat.mod_eq_of_lt (by omega)]
  · obtain ⟨hla, hlb, hle, hla32⟩ := leadingZeros_of_large hb hlt hsmall
    have hle' : b.toNat ≤ a.toNat := Nat.le_of_not_lt hlt
    have hpos : 0 < 2 ^ cltz a := Nat.pow_pos (by decide)
    have hA := shl_toNat hla.normalised.2
    have hB : (b <<< cltz a).toNat = b.toNat * 2 ^ cltz a :=
      shl_toNat (Nat.lt_of_le_of_lt (Nat.mul_le_mul_right _ hle') hla.normalised.2)
    have hquot : a.toNat * 2 ^ cltz a / (b.toNat * 2 ^ cltz a) = a.toNat / b.toNat :=
      Nat.mul_div_mul_right _ _ hpos
    dsimp only
    simp only [Int.toNat_natCast]
    split_ifs with hshort
    · -- the low half of the divisor is zero
      have hlow := (low_zero _).1 hshort.2
      rw [Int.toNat_natCast, hB] at hlow
      rw [BitVec.toNat_setWidth, BitVec.toNat_udiv, high_toNat, high_toNat, hA, hB,
        Nat.div_div_eq_div_mul, Nat.mul_div_cancel' (Nat.dvd_of_mod_eq_zero hlow), hquot]
      have hdiv := Nat.div_le_self a.toNat b.toNat
      exact Nat.mod_eq_of_lt (by omega)
    · have hshift : ((cltz b : ℤ) - (cltz a : ℤ)).toNat = cltz b - cltz a := by
        omega
      have hlb64 := hlb.1
      have hB' := shl_toNat hlb.normalised.2
      have hnorm := hlb.normalised
      have hnorm' := hla.normalised
      have hexact : (b <<< cltz b).toNat = b.toNat * 2 ^ cltz a * 2 ^ (cltz b - cltz a) := by
        rw [hB', Nat.mul_assoc, ← Nat.pow_add, Nat.add_sub_cancel' hle]
      rw [hshift, udivLoop_spec (b.toNat * 2 ^ cltz a) (Nat.mul_pos hbpos hpos) _ (by omega) _ _ _ hexact
        (by omega) (Nat.zero_mod _), hA, hquot]
      exact Nat.zero_add _

/-- No shift is by a negative amount, or by 64 or more. -/
theorem shiftAmounts_spec (hb : b ≠ 0) : ∀ k ∈ shiftAmounts a b, 0 ≤ k ∧ k < 64 := by
  intro k hk
  unfold shiftAmounts at hk
  split_ifs at hk with hlt hsmall
  · exact absurd hk List.not_mem_nil
  · simp only [List.mem_cons, List.not_mem_nil, or_false] at hk
    omega
  · obtain ⟨hla, hlb, hle, hla32⟩ := leadingZeros_of_large hb hlt hsmall
    have hlb64 := hlb.1
    dsimp only at hk
    split_ifs at hk <;>
    · simp only [List.mem_append, List.mem_cons, List.not_mem_nil, or_false] at hk
      omega

/-! ## Signed division -/

theorem udivdi3_eq (hb : b ≠ 0) : udivdi3 a b = a / b := by
  apply BitVec.eq_of_toNat_eq
  rw [udivdi3_spec hb, BitVec.toNat_udiv]

theorem slt_zero (v : BitVec 64) : v.slt 0 = v.msb := by
  rw [BitVec.slt_eq_decide, BitVec.msb_eq_toInt]
  rfl

/-- **`__divdi3` divides and truncates**, modulo `2^64`. -/
theorem divdi3_spec (hb : b ≠ 0) : divdi3 a b = BitVec.ofInt 64 (a.toInt.tdiv b.toInt) := by
  have hneg : -b ≠ 0 := by
    intro h
    apply hb
    rw [← BitVec.neg_neg (x := b), h]
    rfl
  have hsdiv : divdi3 a b = a.sdiv b := by
    unfold divdi3 BitVec.sdiv
    rw [slt_zero, slt_zero]
    cases a.msb <;> cases b.msb
    · exact udivdi3_eq hb
    · show -udivdi3 a (-b) = _
      rw [udivdi3_eq hneg]
      rfl
    · show -udivdi3 (-a) b = _
      rw [udivdi3_eq hb]
      rfl
    · show udivdi3 (-a) (-b) = _
      rw [udivdi3_eq hneg]
      rfl
  rw [hsdiv]
  apply BitVec.eq_of_toInt_eq
  rw [BitVec.toInt_sdiv, BitVec.toInt_ofInt]

/-- **`__umoddi3` leaves the remainder.** -/
theorem umoddi3_spec (hb : b ≠ 0) : (umoddi3 a b).toNat = a.toNat % b.toNat := by
  have hdiv : b.toNat * (a.toNat / b.toNat) + a.toNat % b.toNat = a.toNat := Nat.div_add_mod _ _
  have hmul : (udivdi3 a b * b).toNat = b.toNat * (a.toNat / b.toNat) := by
    rw [BitVec.toNat_mul, udivdi3_spec hb, Nat.mul_comm]
    exact Nat.mod_eq_of_lt (by omega)
  rw [umoddi3, BitVec.toNat_sub_of_le (BitVec.le_def.mpr (by omega)), hmul]
  omega

/-- **Software division is exact.** -/
theorem division_exact (a b : BitVec 64) (hb : b ≠ 0) :
    (udivdi3 a b).toNat = a.toNat / b.toNat ∧
    (∀ k ∈ shiftAmounts a b, 0 ≤ k ∧ k < 64) ∧
    divdi3 a b = BitVec.ofInt 64 (a.toInt.tdiv b.toInt) ∧
    ∀ v, v ≠ 0 → LeadingZeros v (cltz v) :=
  ⟨udivdi3_spec hb, shiftAmounts_spec hb, divdi3_spec hb, fun _ => cltz_spec⟩

/-- A division by the loop. -/
theorem division_exact_loop :
    (0xfedcba9876543210#64).toNat / (0x123456789#64).toNat =
      (udivdi3 0xfedcba9876543210#64 0x123456789#64).toNat :=
  (division_exact 0xfedcba9876543210#64 0x123456789#64 (by decide)).1.symm

end ZipStormMX.Zlib
