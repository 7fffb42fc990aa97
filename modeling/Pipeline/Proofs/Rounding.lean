import Mathlib.Algebra.Order.Field.Power
import Mathlib.Data.Rat.Cast.Order
import Mathlib.Tactic.FieldSimp
import Mathlib.Tactic.Linarith
import Mathlib.Tactic.NormNum
import Mathlib.Tactic.Positivity
import Pipeline.Expr.Token

/-!
# Rounding — the nearest number of the format

`Nearest negative q x` says that `x` is the number of the binary64 format, of the given sign, that
is nearest to the magnitude `q`, a tie going to the even mantissa.  An infinity takes part as the
number that would follow the largest one.

* `Binary64.nearest_round`: a ratio of whole numbers is rounded to the nearest number.
* `Binary64.nearest_ofDecimal`: so is a decimal number, whether or not its power is carried out.
* `Token.nearest_numberValue`: a numeral has the value that is nearest to the number it denotes.

All numbers of the format are multiples of one power of two, but for those too small to matter
(`InFormat.on_grid`); on these multiples, the nearest number is the nearest whole mantissa
(`nearest_on_grid`).
-/

namespace Pipeline

namespace Binary64

/-! ### The format -/

/-- The number belongs to the format. -/
def InFormat : Binary64 → Prop
  | .finite _ m e =>
    m < 2 ^ 53 ∧ leastExponent ≤ e ∧ e ≤ greatestExponent ∧ (m < 2 ^ 52 → e = leastExponent)
  | .infinite _ => True
  | .nan => False

/-- How large a number is.  An infinity counts as the number that would follow the largest one. -/
def magnitude : Binary64 → ℚ
  | .finite _ m e => m * 2 ^ e
  | .infinite _ => 2 ^ (1024 : ℤ)
  | .nan => 0

/-- The mantissa is even; an infinity follows an odd one. -/
def IsEven : Binary64 → Prop
  | .finite _ m _ => m % 2 = 0
  | .infinite _ => True
  | .nan => False

/-- The sign of a number. -/
def negative? : Binary64 → Option Bool
  | .finite s _ _ => some s
  | .infinite s => some s
  | .nan => none

/-- Of the numbers of a sign, the one whose magnitude is nearest to `q`; of two that are equally
near, the one with an even mantissa. -/
structure Nearest (negative : Bool) (q : ℚ) (x : Binary64) : Prop where
  sign : x.negative? = some negative
  inFormat : x.InFormat
  le : ∀ y : Binary64, y.InFormat → |x.magnitude - q| ≤ |y.magnitude - q|
  even : ∀ y : Binary64, y.InFormat → x.magnitude ≠ y.magnitude →
    |x.magnitude - q| = |y.magnitude - q| → x.IsEven

/-! ### Ratios -/

theorem scaleDown_ratio (num : Nat) {den : Nat} (hden : den ≠ 0) (e : Int) :
    (scaleDown num den e).2 ≠ 0 ∧
      ((scaleDown num den e).1 : ℚ) / (scaleDown num den e).2 = num / den / 2 ^ e := by
  have hpow : ∀ k : Nat, Nat.pow 2 k ≠ 0 := fun k => (Nat.two_pow_pos k).ne'
  unfold scaleDown
  split
  · next he =>
      obtain ⟨k, rfl⟩ := Int.eq_ofNat_of_zero_le he
      refine ⟨Nat.mul_ne_zero hden (hpow _), ?_⟩
      simp [div_div]
  · next he =>
      obtain ⟨k, rfl⟩ : ∃ k : Nat, e = -(k : Int) := ⟨(-e).toNat, by omega⟩
      refine ⟨hden, ?_⟩
      simp [mul_div_right_comm]

theorem scaleDown_lt_iff {num den : Nat} (hden : den ≠ 0) (e : Int) :
    (scaleDown num den e).1 < (scaleDown num den e).2 ↔ (num / den : ℚ) < 2 ^ e := by
  obtain ⟨hne, hratio⟩ := scaleDown_ratio num hden e
  have hpos : (0 : ℚ) < (scaleDown num den e).2 := by exact_mod_cast Nat.pos_of_ne_zero hne
  rw [← Nat.cast_lt (α := ℚ), ← div_lt_one hpos, hratio, div_lt_one (by positivity)]

theorem ratioLog2_spec {num den : Nat} (hnum : num ≠ 0) (hden : den ≠ 0) :
    (2 : ℚ) ^ ratioLog2 num den ≤ num / den ∧ (num / den : ℚ) < 2 ^ (ratioLog2 num den + 1) := by
  have hd : (0 : ℚ) < den := by exact_mod_cast Nat.pos_of_ne_zero hden
  have hnumLow : (2 : ℚ) ^ (num.log2 : ℤ) ≤ num := by exact_mod_cast Nat.log2_self_le hnum
  have hnumHigh : (num : ℚ) < 2 ^ ((num.log2 : ℤ) + 1) := by
    exact_mod_cast Nat.lt_log2_self (n := num)
  have hdenLow : (2 : ℚ) ^ (den.log2 : ℤ) ≤ den := by exact_mod_cast Nat.log2_self_le hden
  have hdenHigh : (den : ℚ) < 2 ^ ((den.log2 : ℤ) + 1) := by
    exact_mod_cast Nat.lt_log2_self (n := den)
  obtain ⟨k, hk⟩ : ∃ k : ℤ, k = (num.log2 : ℤ) - den.log2 := ⟨_, rfl⟩
  have hhigh : (num / den : ℚ) < 2 ^ (k + 1) := by
    rw [div_lt_iff₀ hd]
    calc (num : ℚ) < 2 ^ ((num.log2 : ℤ) + 1) := hnumHigh
      _ = 2 ^ (k + 1) * 2 ^ (den.log2 : ℤ) := by
          rw [← zpow_add₀ (by norm_num), hk]
          congr 1
          omega
      _ ≤ 2 ^ (k + 1) * den := by gcongr
  have hlow : (2 : ℚ) ^ (k - 1) ≤ num / den := by
    rw [le_div_iff₀ hd]
    calc (2 : ℚ) ^ (k - 1) * den ≤ 2 ^ (k - 1) * 2 ^ ((den.log2 : ℤ) + 1) := by gcongr
      _ = 2 ^ (num.log2 : ℤ) := by
          rw [← zpow_add₀ (by norm_num), hk]
          congr 1
          omega
      _ ≤ num := hnumLow
  unfold ratioLog2
  simp only [← hk, scaleDown_lt_iff hden]
  split
  · next hlt => exact ⟨hlow, by rwa [sub_add_cancel]⟩
  · next hge => exact ⟨not_lt.mp hge, hhigh⟩

theorem divNearest_spec (num : Nat) {den : Nat} (hden : den ≠ 0) :
    |(divNearest num den : ℚ) - num / den| ≤ 1 / 2 ∧
      (|(divNearest num den : ℚ) - num / den| = 1 / 2 → divNearest num den % 2 = 0) := by
  have hd : (0 : ℚ) < den := by exact_mod_cast Nat.pos_of_ne_zero hden
  obtain ⟨q, r, hq, hr⟩ : ∃ q r, num / den = q ∧ num % den = r := ⟨_, _, rfl, rfl⟩
  have hlt : r < den := hr ▸ Nat.mod_lt num (Nat.pos_of_ne_zero hden)
  have hratio : (num / den : ℚ) = q + r / den := by
    have hnum := Nat.div_add_mod num den
    rw [hq, hr] at hnum
    rw [← hnum]
    push_cast
    field_simp
  have hlow : (0 : ℚ) ≤ r / den := by positivity
  have hhigh : (r / den : ℚ) ≤ 1 := (div_le_one hd).mpr (by exact_mod_cast hlt.le)
  have hhalf : 2 * r ≤ den ↔ (r / den : ℚ) ≤ 1 / 2 := by
    rw [div_le_div_iff₀ hd two_pos, ← Nat.cast_le (α := ℚ)]
    push_cast
    constructor <;> intro h <;> linarith
  have htie : 2 * r = den ↔ (r / den : ℚ) = 1 / 2 := by
    rw [div_eq_div_iff hd.ne' two_ne_zero, ← Nat.cast_inj (R := ℚ)]
    push_cast
    constructor <;> intro h <;> linarith
  by_cases hup : 2 * r > den ∨ (2 * r = den ∧ q % 2 = 1)
  · have hdiv : divNearest num den = q + 1 := by
      simp only [divNearest, hq, hr]
      rw [if_pos (by simpa using hup)]
    have hge : (1 / 2 : ℚ) ≤ r / den := by
      rcases hup with hgt | ⟨heq, -⟩
      · exact (not_le.mp fun h => absurd (hhalf.mpr h) (by omega)).le
      · exact (htie.mp heq).ge
    rw [hdiv, hratio]
    push_cast
    rw [abs_of_nonneg (by linarith)]
    refine ⟨by linarith, fun h => ?_⟩
    have := htie.mpr (by linarith)
    omega
  · have hdiv : divNearest num den = q := by
      simp only [divNearest, hq, hr]
      rw [if_neg (by simpa using hup)]
    have hle : (r / den : ℚ) ≤ 1 / 2 := hhalf.mp (by omega)
    rw [hdiv, hratio, sub_add_cancel_left, abs_neg, abs_of_nonneg hlow]
    refine ⟨hle, fun h => ?_⟩
    have := htie.mpr h
    omega

/-! ### Numbers and multiples -/

/-- All other whole numbers are half a step away from `s` at least. -/
theorem le_of_half {m : ℕ} {s : ℚ} (h : |(m : ℚ) - s| ≤ 1 / 2) {k : ℕ} (hk : k ≠ m) :
    1 / 2 ≤ |(k : ℚ) - s| := by
  have hone : (1 : ℚ) ≤ |(k : ℚ) - m| := by
    have hint : (1 : ℤ) ≤ |(k : ℤ) - m| := Int.one_le_abs (by omega)
    exact_mod_cast hint
  have htriangle := abs_sub_le (k : ℚ) s m
  rw [abs_sub_comm s] at htriangle
  linarith

theorem abs_mul_sub {u : ℚ} (hu : 0 < u) (a q : ℚ) : |a * u - q| = |a - q / u| * u := by
  rw [← abs_of_pos hu, ← abs_mul, abs_of_pos hu, sub_mul, div_mul_cancel₀ q hu.ne']

/-- The numbers of the format are multiples of `2 ^ e`, or smaller than those with that exponent. -/
theorem InFormat.on_grid {y : Binary64} (hy : y.InFormat) {e : ℤ} (he : e ≤ greatestExponent) :
    (∃ k : ℕ, y.magnitude = k * 2 ^ e) ∨ (leastExponent < e ∧ y.magnitude < 2 ^ 52 * 2 ^ e) := by
  have htwo : (2 : ℚ) ≠ 0 := two_ne_zero
  cases y with
  | finite s m f =>
      obtain ⟨hm, hleast, -, -⟩ := hy
      by_cases hef : e ≤ f
      · obtain ⟨n, hn⟩ := Int.eq_ofNat_of_zero_le (sub_nonneg.mpr hef)
        refine .inl ⟨m * 2 ^ n, ?_⟩
        rw [magnitude, Nat.cast_mul, Nat.cast_pow, Nat.cast_ofNat, mul_assoc, ← zpow_natCast,
          ← zpow_add₀ htwo]
        congr 2
        omega
      · refine .inr ⟨by omega, ?_⟩
        have hm' : (m : ℚ) < 2 ^ 53 := by exact_mod_cast hm
        calc (m : ℚ) * 2 ^ f < 2 ^ 53 * 2 ^ f := by gcongr
          _ ≤ 2 ^ 53 * 2 ^ (e - 1) := by
              gcongr
              · norm_num
              · omega
          _ = 2 ^ 52 * 2 ^ e := by
              rw [zpow_sub_one₀ htwo]
              linarith
  | infinite s =>
      rw [greatestExponent] at he
      obtain ⟨n, hn⟩ := Int.eq_ofNat_of_zero_le (show 0 ≤ 1024 - e by omega)
      refine .inl ⟨2 ^ n, ?_⟩
      rw [magnitude, Nat.cast_pow, Nat.cast_ofNat, ← zpow_natCast, ← zpow_add₀ htwo]
      congr 1
      omega
  | nan => exact hy.elim

/-- **The nearest multiple is the nearest number**, if the exponent is the least one or the number
has fifty-three bits at it. -/
theorem nearest_on_grid {m : ℕ} {e : ℤ} {q : ℚ} (he : e ≤ greatestExponent)
    (hhalf : |(m : ℚ) - q / 2 ^ e| ≤ 1 / 2)
    (hnormal : leastExponent < e → 2 ^ 52 ≤ q / 2 ^ e) {y : Binary64} (hy : y.InFormat)
    (hne : m * 2 ^ e ≠ y.magnitude) :
    |m * 2 ^ e - q| ≤ |y.magnitude - q| ∧
      (|m * 2 ^ e - q| = |y.magnitude - q| → |(m : ℚ) - q / 2 ^ e| = 1 / 2) := by
  obtain ⟨u, hu⟩ : ∃ u : ℚ, u = 2 ^ e := ⟨_, rfl⟩
  have hpos : 0 < u := hu ▸ by positivity
  rw [← hu] at hhalf hnormal hne ⊢
  rw [abs_mul_sub hpos]
  rcases hy.on_grid he with ⟨k, hk⟩ | ⟨hleast, hsmall⟩
  · rw [← hu] at hk
    have hkm : k ≠ m := by
      rintro rfl
      exact hne hk.symm
    have hfar := le_of_half hhalf hkm
    rw [hk, abs_mul_sub hpos]
    refine ⟨mul_le_mul_of_nonneg_right (hhalf.trans hfar) hpos.le, fun h => ?_⟩
    have := mul_right_cancel₀ hpos.ne' h
    linarith
  · -- the smaller numbers lie behind the multiple with mantissa `2 ^ 52`
    rw [← hu] at hsmall
    have hs := hnormal hleast
    have hdistance : |((2 ^ 52 : ℕ) : ℚ) - q / u| = q / u - 2 ^ 52 := by
      rw [abs_sub_comm, abs_of_nonneg] <;> push_cast <;> linarith
    have hnear : |(m : ℚ) - q / u| ≤ q / u - 2 ^ 52 := by
      rw [← hdistance]
      by_cases hm : 2 ^ 52 = m
      · rw [hm]
      · exact hhalf.trans (le_of_half hhalf hm)
    have hlt : |(m : ℚ) - q / u| * u < |y.magnitude - q| := by
      calc |(m : ℚ) - q / u| * u ≤ (q / u - 2 ^ 52) * u := by gcongr
        _ = q - 2 ^ 52 * u := by rw [sub_mul, div_mul_cancel₀ q hpos.ne']
        _ < q - y.magnitude := by linarith
        _ ≤ |y.magnitude - q| := by rw [abs_sub_comm]; exact le_abs_self _
    exact ⟨hlt.le, fun h => absurd h hlt.ne⟩

/-! ### Rounding -/

theorem InFormat.magnitude_le {y : Binary64} (hy : y.InFormat) :
    y.magnitude ≤ 2 ^ (1024 : ℤ) := by
  cases y with
  | finite s m f =>
      obtain ⟨hm, -, hgreatest, -⟩ := hy
      have hm' : (m : ℚ) ≤ 2 ^ (53 : ℤ) := by exact_mod_cast hm.le
      calc (m : ℚ) * 2 ^ f ≤ 2 ^ (53 : ℤ) * 2 ^ greatestExponent := by
            gcongr
            norm_num
        _ = 2 ^ (1024 : ℤ) := by rw [← zpow_add₀ two_ne_zero]; rfl
  | infinite => exact le_refl _
  | nan => exact hy.elim

theorem nearest_infinite (negative : Bool) {q : ℚ} (h : 2 ^ (1024 : ℤ) ≤ q) :
    Nearest negative q (.infinite negative) where
  sign := rfl
  inFormat := trivial
  le y hy := by
    rw [magnitude, abs_sub_comm, abs_of_nonneg (sub_nonneg.mpr h), abs_sub_comm]
    exact (sub_le_sub_left hy.magnitude_le q).trans (le_abs_self _)
  even _ _ _ _ := trivial

theorem nearest_zero (negative : Bool) {q : ℚ} (hq : 0 ≤ q) (h : q ≤ 2 ^ (leastExponent - 1)) :
    Nearest negative q (zero negative) where
  sign := rfl
  inFormat := ⟨by decide, le_refl _, by decide, fun _ => rfl⟩
  le y hy := by
    have hzero : (zero negative).magnitude = 0 := by simp [zero, magnitude]
    rw [hzero, zero_sub, abs_neg, abs_of_nonneg hq]
    rcases hy.on_grid (show leastExponent ≤ greatestExponent by decide) with ⟨k, hk⟩ | ⟨hlt, -⟩
    · cases k with
      | zero => simp [hk, abs_of_nonneg hq]
      | succ k =>
          have hstep : (2 : ℚ) ^ leastExponent = 2 * 2 ^ (leastExponent - 1) := by
            rw [← zpow_one_add₀ two_ne_zero, add_sub_cancel]
          have hmagnitude : (2 : ℚ) ^ leastExponent ≤ y.magnitude := by
            rw [hk]
            exact le_mul_of_one_le_left (by positivity) (by simp)
          refine le_trans ?_ (le_abs_self _)
          linarith
    · exact absurd hlt (lt_irrefl _)
  even _ _ _ _ := rfl

theorem nearest_of_magnitude {negative : Bool} {q : ℚ} {x : Binary64} {m : ℕ} {e : ℤ}
    (hsign : x.negative? = some negative) (hx : x.InFormat) (hmagnitude : x.magnitude = m * 2 ^ e)
    (heven : m % 2 = 0 → x.IsEven) (he : e ≤ greatestExponent)
    (hhalf : |(m : ℚ) - q / 2 ^ e| ≤ 1 / 2) (htie : |(m : ℚ) - q / 2 ^ e| = 1 / 2 → m % 2 = 0)
    (hnormal : leastExponent < e → 2 ^ 52 ≤ q / 2 ^ e) : Nearest negative q x where
  sign := hsign
  inFormat := hx
  le y hy := by
    rw [hmagnitude]
    by_cases hne : m * 2 ^ e = y.magnitude
    · rw [hne]
    · exact (nearest_on_grid he hhalf hnormal hy hne).1
  even y hy hne heq := by
    rw [hmagnitude] at hne heq
    exact heven (htie ((nearest_on_grid he hhalf hnormal hy hne).2 heq))

/-- A mantissa of fifty-four bits goes to the next exponent, or out of the format. -/
theorem nearest_of_mantissa (negative : Bool) {q : ℚ} {m : ℕ} {e : ℤ} (hleast : leastExponent ≤ e)
    (hgreatest : e ≤ greatestExponent) (hfits : q / 2 ^ e < 2 ^ 53)
    (hnormal : leastExponent < e → 2 ^ 52 ≤ q / 2 ^ e)
    (hhalf : |(m : ℚ) - q / 2 ^ e| ≤ 1 / 2) (htie : |(m : ℚ) - q / 2 ^ e| = 1 / 2 → m % 2 = 0) :
    Nearest negative q
      (if m = 2 ^ 53 then
        if e + 1 > greatestExponent then .infinite negative else .finite negative (2 ^ 52) (e + 1)
      else .finite negative m e) := by
  obtain ⟨hdown, hup⟩ := abs_le.mp hhalf
  split
  · next htop =>
      subst htop
      have hcarry : ((2 ^ 53 : ℕ) : ℚ) * 2 ^ e = 2 ^ 52 * 2 ^ (e + 1) := by
        rw [zpow_add_one₀ two_ne_zero]
        push_cast
        linarith
      split
      · next hover =>
          obtain rfl : e = greatestExponent := by omega
          refine nearest_of_magnitude rfl trivial ?_ (fun _ => trivial) hgreatest hhalf htie hnormal
          rw [hcarry, magnitude, ← zpow_natCast, ← zpow_add₀ two_ne_zero]
          rfl
      · next hunder =>
          refine nearest_of_magnitude rfl ⟨by decide, by omega, not_lt.mp hunder, nofun⟩ ?_
            (fun _ => rfl) hgreatest hhalf htie hnormal
          rw [hcarry, magnitude]
          push_cast
          rfl
  · next htop =>
      refine nearest_of_magnitude rfl ⟨?_, hleast, hgreatest, ?_⟩ rfl id hgreatest hhalf htie
        hnormal
      · have hlt : (m : ℚ) < 2 ^ 53 + 1 := by linarith
        have : m < 2 ^ 53 + 1 := by exact_mod_cast hlt
        omega
      · intro hsmall
        by_contra hne
        have hs := hnormal (lt_of_le_of_ne hleast (Ne.symm hne))
        have hge : (2 : ℚ) ^ 52 < m + 1 := by linarith
        have : 2 ^ 52 < m + 1 := by exact_mod_cast hge
        omega

/-- **Rounding takes the nearest number.** -/
theorem nearest_round (negative : Bool) (num : Nat) {den : Nat} (hden : den ≠ 0) :
    Nearest negative (num / den) (round negative num den) := by
  by_cases hnum : num = 0
  · rw [round, if_pos hnum, hnum]
    exact nearest_zero negative (by simp) (by simp; positivity)
  obtain ⟨hlow, hhigh⟩ := ratioLog2_spec hnum hden
  obtain ⟨e, he⟩ : ∃ e, max (ratioLog2 num den - 52) leastExponent = e := ⟨_, rfl⟩
  have hpos : (0 : ℚ) < 2 ^ e := by positivity
  have hfits : (num / den : ℚ) / 2 ^ e < 2 ^ 53 := by
    rw [div_lt_iff₀ hpos]
    calc (num / den : ℚ) < 2 ^ (ratioLog2 num den + 1) := hhigh
      _ ≤ 2 ^ (53 + e) := zpow_le_zpow_right₀ one_le_two (by omega)
      _ = 2 ^ 53 * 2 ^ e := zpow_add₀ two_ne_zero 53 e
  have hnormal : leastExponent < e → 2 ^ 52 ≤ (num / den : ℚ) / 2 ^ e := by
    intro hlt
    rw [le_div_iff₀ hpos]
    calc (2 : ℚ) ^ 52 * 2 ^ e = 2 ^ (52 + e) := (zpow_add₀ two_ne_zero 52 e).symm
      _ = 2 ^ ratioLog2 num den := by
          congr 1
          omega
      _ ≤ num / den := hlow
  obtain ⟨hscaled, hratio⟩ := scaleDown_ratio num hden e
  obtain ⟨hhalf, htie⟩ := divNearest_spec (scaleDown num den e).1 hscaled
  rw [hratio] at hhalf htie
  have hleast : leastExponent ≤ e := he ▸ le_max_right _ _
  rw [round, if_neg hnum]
  simp only [he, Nat.pow_eq]
  by_cases hgreatest : e ≤ greatestExponent
  · have h := nearest_of_mantissa negative hleast hgreatest hfits hnormal hhalf htie
    split at h
    · next htop => simpa only [if_pos htop] using h
    · next htop => simpa only [if_neg htop, if_neg (not_lt.mpr hgreatest)] using h
  · rw [if_pos (by split <;> omega)]
    refine nearest_infinite negative ?_
    have hs := hnormal (by rw [leastExponent]; rw [greatestExponent] at hgreatest; omega)
    rw [le_div_iff₀ hpos] at hs
    calc (2 : ℚ) ^ (1024 : ℤ) ≤ 2 ^ (52 + e) :=
          zpow_le_zpow_right₀ one_le_two (by rw [greatestExponent] at hgreatest; omega)
      _ = 2 ^ 52 * 2 ^ e := zpow_add₀ two_ne_zero 52 e
      _ ≤ num / den := hs

/-! ### Decimal numbers -/

theorem ten_pow_le_two_pow (n : ℕ) : (10 : ℚ) ^ ((n * 3 / 10 : ℕ) : ℤ) ≤ 2 ^ (n : ℤ) := by
  have hpow : (10 ^ (n * 3 / 10)) ^ 10 ≤ (2 ^ n) ^ 10 := by
    calc (10 ^ (n * 3 / 10)) ^ 10 = 10 ^ (n * 3 / 10 * 10) := (Nat.pow_mul ..).symm
      _ ≤ 10 ^ (3 * n) := Nat.pow_le_pow_right (by decide) (by omega)
      _ = (10 ^ 3) ^ n := Nat.pow_mul ..
      _ ≤ (2 ^ 10) ^ n := Nat.pow_le_pow_left (by decide) n
      _ = (2 ^ n) ^ 10 := by rw [← Nat.pow_mul, ← Nat.pow_mul, Nat.mul_comm]
  exact_mod_cast (Nat.pow_le_pow_iff_left (by decide)).mp hpow

theorem two_pow_le_ten_pow (n : ℕ) : (2 : ℚ) ^ (n : ℤ) ≤ 10 ^ ((n * 302 / 1000 + 1 : ℕ) : ℤ) := by
  have hpow : (2 ^ n) ^ 93 ≤ (10 ^ (n * 302 / 1000 + 1)) ^ 93 := by
    calc (2 ^ n) ^ 93 = (2 ^ 93) ^ n := by rw [← Nat.pow_mul, ← Nat.pow_mul, Nat.mul_comm]
      _ ≤ (10 ^ 28) ^ n := Nat.pow_le_pow_left (by decide) n
      _ = 10 ^ (28 * n) := (Nat.pow_mul ..).symm
      _ ≤ 10 ^ ((n * 302 / 1000 + 1) * 93) := Nat.pow_le_pow_right (by decide) (by omega)
      _ = (10 ^ (n * 302 / 1000 + 1)) ^ 93 := Nat.pow_mul ..
  exact_mod_cast (Nat.pow_le_pow_iff_left (by decide)).mp hpow

section

variable {digits : Nat} {power : Int}

theorem ten_zpow_mono {m n : ℤ} (h : m ≤ n) : (10 : ℚ) ^ m ≤ 10 ^ n :=
  zpow_le_zpow_right₀ (by norm_num) h

theorem ten_zpow_add (m n : ℤ) : (10 : ℚ) ^ (m + n) = 10 ^ m * 10 ^ n :=
  zpow_add₀ (by norm_num) m n

/-- A number that leaves the format by its least value is too large for it. -/
theorem le_decimal_of_log2 (hdigits : digits ≠ 0)
    (h : ((digits.log2 * 3 / 10 : ℕ) : ℤ) + power > 310) :
    2 ^ (1024 : ℤ) ≤ (digits * 10 ^ power : ℚ) := by
  have hleast : (2 : ℚ) ^ (digits.log2 : ℤ) ≤ digits := by
    exact_mod_cast Nat.log2_self_le hdigits
  calc (2 : ℚ) ^ (1024 : ℤ) ≤ 10 ^ (310 : ℤ) := two_pow_le_ten_pow 1024
    _ ≤ 10 ^ (((digits.log2 * 3 / 10 : ℕ) : ℤ) + power) := ten_zpow_mono (by omega)
    _ = 10 ^ ((digits.log2 * 3 / 10 : ℕ) : ℤ) * 10 ^ power := ten_zpow_add ..
    _ ≤ digits * 10 ^ power := by
        gcongr
        exact (ten_pow_le_two_pow _).trans hleast

/-- A number that leaves the format by its greatest value is nearer to zero than to any other. -/
theorem decimal_le_of_log2
    (h : (((digits.log2 + 1) * 302 / 1000 + 1 : ℕ) : ℤ) + power < -330) :
    (digits * 10 ^ power : ℚ) ≤ 2 ^ (leastExponent - 1) := by
  have hgreatest : (digits : ℚ) ≤ 2 ^ ((digits.log2 + 1 : ℕ) : ℤ) := by
    exact_mod_cast Nat.lt_log2_self.le
  have hhalf : (2 : ℚ) ^ (1075 : ℤ) ≤ 10 ^ (325 : ℤ) := two_pow_le_ten_pow 1075
  calc digits * (10 : ℚ) ^ power
      ≤ 10 ^ (((digits.log2 + 1) * 302 / 1000 + 1 : ℕ) : ℤ) * 10 ^ power := by
        gcongr
        exact hgreatest.trans (two_pow_le_ten_pow _)
    _ = 10 ^ ((((digits.log2 + 1) * 302 / 1000 + 1 : ℕ) : ℤ) + power) := (ten_zpow_add ..).symm
    _ ≤ 10 ^ (-325 : ℤ) := ten_zpow_mono (by omega)
    _ ≤ 2 ^ (-1075 : ℤ) := by
        rw [zpow_neg, zpow_neg]
        gcongr
    _ = 2 ^ (leastExponent - 1) := rfl

end

/-- **A decimal number is read as the nearest number.** -/
theorem nearest_ofDecimal (negative : Bool) (digits : Nat) (power : Int) :
    Nearest negative (digits * 10 ^ power) (ofDecimal negative digits power) := by
  unfold ofDecimal
  split
  · next hzero =>
      subst hzero
      exact nearest_zero negative (by simp) (by simp; positivity)
  next hdigits =>
  dsimp only
  split
  · next hlarge => exact nearest_infinite negative (le_decimal_of_log2 hdigits hlarge)
  split
  · next hsmall => exact nearest_zero negative (by positivity) (decimal_le_of_log2 hsmall)
  split
  · next hpower =>
      obtain ⟨n, rfl⟩ := Int.eq_ofNat_of_zero_le hpower
      have h := nearest_round negative (digits * 10 ^ n) one_ne_zero
      simpa using h
  · next hpower =>
      obtain ⟨n, rfl⟩ : ∃ n : ℕ, power = -(n : Int) := ⟨(-power).toNat, by omega⟩
      have h := nearest_round negative digits (pow_ne_zero n (show (10 : ℕ) ≠ 0 by decide))
      simpa [zpow_neg, div_eq_mul_inv] using h

end Binary64

/-! ### Numerals -/

theorem Decimal.digitsValue_append (xs ys : List Char) :
    digitsValue (xs ++ ys) = digitsValue xs * 10 ^ ys.length + digitsValue ys := by
  have hfold : ∀ n, ys.foldl (fun n c => n * 10 + digit c) n =
      n * 10 ^ ys.length + ys.foldl (fun n c => n * 10 + digit c) 0 := by
    induction ys with
    | nil => simp
    | cons c ys ih =>
        intro n
        rw [List.foldl_cons, List.foldl_cons, ih, ih (0 * 10 + digit c), List.length_cons,
          Nat.pow_succ]
        lia
  rw [digitsValue_eq_foldl, digitsValue_eq_foldl, digitsValue_eq_foldl, List.foldl_append, hfold]

namespace Token

/-- The number that a numeral denotes: its whole digits and its fraction digits. -/
def denoted (whole fraction : List Char) : ℚ :=
  Decimal.digitsValue whole + Decimal.digitsValue fraction / 10 ^ fraction.length

/-- **A numeral has the value nearest to the number that it denotes.** -/
theorem nearest_numberValue (whole fraction : List Char) :
    Binary64.Nearest false (denoted whole fraction) (numberValue whole fraction) := by
  have h := Binary64.nearest_ofDecimal false (Decimal.digitsValue (whole ++ fraction))
    (-(fraction.length : Int))
  have hdenoted : (Decimal.digitsValue (whole ++ fraction) : ℚ) * 10 ^ (-(fraction.length : Int)) =
      denoted whole fraction := by
    rw [Decimal.digitsValue_append, denoted, zpow_neg, zpow_natCast]
    push_cast
    field_simp
  rwa [hdenoted] at h

end Token

end Pipeline
