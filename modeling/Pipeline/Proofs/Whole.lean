import Pipeline.Expr.Eval
import Pipeline.Proofs.Lexing

/-!
# Whole — whole numbers are exact

A whole number of at most fifty-three bits is a number of the binary64 format: it is rounded to
itself (`Binary64.exists_round`), with either sign, and so reading its digits, negating it and
taking it as a value again lose nothing (`Value.ofBinary_round`, `Value.ofBinary_neg_round`).

Its digits are a token (`Token.valid_wholeDigits`) that denotes it
(`Token.numberValue_wholeDigits`).
-/

namespace Pipeline

namespace Binary64

/-! ### Rounding -/

theorem scaleDown_neg (n k : Nat) : scaleDown n 1 (-(k : Int)) = (n * Nat.pow 2 k, 1) := by
  unfold scaleDown
  split
  · next h =>
      obtain rfl : k = 0 := by omega
      simp
  · simp

theorem divNearest_one (n : Nat) : divNearest n 1 = n := by
  simp [divNearest, Nat.mod_one]

theorem ratioLog2_one {n : Nat} (hn : n ≠ 0) : ratioLog2 n 1 = n.log2 := by
  have hle : ¬ n < 2 ^ n.log2 := Nat.not_lt.mpr (Nat.log2_self_le hn)
  have hone : Nat.log2 1 = 0 := by decide
  simp [ratioLog2, scaleDown, hone, hle]

/-- **A whole number of at most fifty-three bits is rounded to itself.** -/
theorem exists_round {n : Nat} (h : n ≤ Value.exactMax) :
    ∃ k : Nat, ∀ negative,
      round negative n 1 = .finite negative (n * Nat.pow 2 k) (-(k : Int)) := by
  by_cases hn : n = 0
  · subst hn
    obtain ⟨k, hk⟩ : ∃ k : Nat, leastExponent = -(k : Int) := ⟨1074, rfl⟩
    refine ⟨k, fun negative => ?_⟩
    rw [round, if_pos rfl, zero, hk, Nat.zero_mul]
  · have hlt : n < 2 ^ 53 := Nat.lt_of_le_pred (by decide) h
    have hlog : n.log2 ≤ 52 := Nat.le_of_lt_succ ((Nat.log2_lt hn).mpr hlt)
    refine ⟨52 - n.log2, fun negative => ?_⟩
    have hexponent : max ((n.log2 : Int) - 52) leastExponent = -((52 - n.log2 : Nat) : Int) := by
      rw [leastExponent]
      omega
    -- the mantissa has fifty-three bits, so that it is not rounded up to a power of two
    have hmantissa : n * Nat.pow 2 (52 - n.log2) ≠ Nat.pow 2 53 := by
      have hpow : 2 ^ (n.log2 + 1) * 2 ^ (52 - n.log2) = 2 ^ 53 := by
        rw [← Nat.pow_add]
        congr 1
        omega
      have hbits : n * 2 ^ (52 - n.log2) < 2 ^ (n.log2 + 1) * 2 ^ (52 - n.log2) :=
        Nat.mul_lt_mul_of_pos_right Nat.lt_log2_self (Nat.two_pow_pos _)
      rw [hpow] at hbits
      exact Nat.ne_of_lt hbits
    have hgreatest : ¬ (-((52 - n.log2 : Nat) : Int) > greatestExponent) := by
      rw [greatestExponent]
      omega
    simp only [round, if_neg hn, ratioLog2_one hn, hexponent, scaleDown_neg, divNearest_one,
      if_neg hmantissa, if_neg hgreatest]

/-- A ratio that is not below one is not rounded to zero. -/
theorem divNearest_ne_zero {num den : Nat} (hden : 0 < den) (h : den ≤ num) :
    divNearest num den ≠ 0 := by
  have hquotient : 0 < num / den := Nat.div_pos h hden
  rw [divNearest]
  split <;> omega

/-- A whole number other than zero is not rounded to zero. -/
theorem isZero_round (negative : Bool) {n : Nat} (hn : n ≠ 0) :
    (round negative n 1).isZero = false := by
  by_cases hle : n ≤ Value.exactMax
  · obtain ⟨k, hk⟩ := exists_round hle
    have hmantissa : n * Nat.pow 2 k ≠ 0 :=
      Nat.mul_ne_zero hn (Nat.ne_of_gt (Nat.two_pow_pos k))
    rw [hk negative]
    exact beq_false_of_ne hmantissa
  · -- the mantissa of a longer one is a quotient by a power of two that is not above it
    have hlog : 52 < n.log2 := by
      refine Nat.lt_of_not_le fun h => hle ?_
      exact Nat.le_of_lt_succ ((Nat.log2_lt hn).mp (Nat.lt_succ_of_le h))
    obtain ⟨k, hk⟩ : ∃ k, n.log2 = 52 + k := Nat.exists_eq_add_of_le (Nat.le_of_lt hlog)
    have hexponent : max ((n.log2 : Int) - 52) leastExponent = (k : Int) := by
      rw [leastExponent]
      omega
    have hscaled : scaleDown n 1 (k : Int) = (n, Nat.pow 2 k) := by simp [scaleDown]
    have hpow : Nat.pow 2 k ≤ n :=
      Nat.le_trans (Nat.pow_le_pow_right Nat.two_pos (by omega)) (Nat.log2_self_le hn)
    have hmantissa : divNearest n (Nat.pow 2 k) ≠ 0 := divNearest_ne_zero (Nat.two_pow_pos k) hpow
    have hcarry : Nat.pow 2 52 ≠ 0 := Nat.ne_of_gt (Nat.two_pow_pos 52)
    simp only [round, if_neg hn, ratioLog2_one hn, hexponent, hscaled]
    split
    all_goals
      split
      · rfl
      · exact beq_false_of_ne (by assumption)

theorem round_ne_nan (negative : Bool) (num den : Nat) : round negative num den ≠ .nan := by
  unfold round zero
  dsimp only
  split
  · exact nofun
  · split <;> split <;> exact nofun

theorem toInt?_scaled (negative : Bool) (n k : Nat) :
    (Binary64.finite negative (n * Nat.pow 2 k) (-(k : Int))).toInt? =
      some (if negative then -(n : Int) else n) := by
  by_cases hk : k = 0
  · subst hk
    simp [toInt?, signedAt]
  · have hneg : ¬ (-(k : Int) ≥ 0) := by omega
    have hunit : (- -(k : Int)).toNat = k := by omega
    have hpos : 0 < Nat.pow 2 k := Nat.two_pow_pos k
    simp only [toInt?, if_neg hneg, hunit, Nat.mul_mod_left, if_true, Nat.mul_div_cancel n hpos]
    simp [signedAt]

theorem ofDecimal_whole {n : Nat} (h : n ≤ Value.exactMax) :
    ofDecimal false n 0 = round false n 1 := by
  by_cases hn : n = 0
  · subst hn
    rfl
  · have hlt : n < 2 ^ 53 := Nat.lt_of_le_pred (by decide) h
    have hlog : n.log2 ≤ 52 := Nat.le_of_lt_succ ((Nat.log2_lt hn).mpr hlt)
    unfold ofDecimal
    rw [if_neg hn]
    dsimp only
    rw [if_neg (by omega), if_neg (by omega), if_pos (Int.le_refl 0)]
    simp

end Binary64

namespace Value

/-! ### Values -/

theorem ofBinary_scaled {n : Nat} (h : n ≤ exactMax) (negative : Bool) (k : Nat) :
    ofBinary (.finite negative (n * Nat.pow 2 k) (-(k : Int))) =
      .ok (.whole (if negative then -(n : Int) else n)) := by
  have habs : (if negative then -(n : Int) else n).natAbs ≤ exactMax := by
    cases negative <;> simpa using h
  simp only [ofBinary, Binary64.isFinite, if_true, Binary64.toInt?_scaled, if_pos habs]

/-- A whole number is taken as the value that it is. -/
theorem ofBinary_round {n : Nat} (h : n ≤ exactMax) :
    ofBinary (.round false n 1) = .ok (.whole n) := by
  obtain ⟨k, hround⟩ := Binary64.exists_round h
  rw [hround, ofBinary_scaled h]
  rfl

/-- **Negation is exact.** -/
theorem ofBinary_neg_round {n : Nat} (h : n ≤ exactMax) :
    ofBinary (Binary64.round false n 1).neg = .ok (.whole (-n)) := by
  obtain ⟨k, hround⟩ := Binary64.exists_round h
  rw [hround, Binary64.neg, ofBinary_scaled h]
  rfl

theorem toBinary_whole (n : Nat) : (Value.whole n).toBinary = .ok (.round false n 1) := by
  have hsign : decide ((n : Int) < 0) = false := decide_eq_false (by omega)
  rw [Value.whole, toBinary, Number.toBinary, Binary64.ofInt, hsign, Int.natAbs_natCast]

end Value

namespace Decimal

/-! ### Digits -/

theorem digitsValue_wholeDigits (n : Nat) : digitsValue (wholeDigits n) = n := by
  have h := Nat.ofDigitChars_ten_toDigits (n := n)
  rw [Nat.ofDigitChars_eq_foldl] at h
  simpa only [digitsValue_eq_foldl, wholeDigits, digit, Nat.mul_comm] using h

/-- No number but zero begins with a zero. -/
theorem head?_wholeDigits {n : Nat} (hn : n ≠ 0) : (wholeDigits n).head? ≠ some '0' := by
  induction n using Nat.strongRecOn with
  | ind n ih =>
      rw [wholeDigits]
      by_cases h : n < 10
      · rw [Nat.toDigits_of_lt_base h]
        intro hzero
        exact hn (Nat.digitChar_eq_zero.mp (Option.some.inj hzero))
      · -- the first digit is that of the number without its last digit
        rw [Nat.toDigits_of_base_le (by decide) (Nat.not_lt.mp h), List.head?_append,
          Option.or_of_isSome (List.isSome_head?.mpr Nat.toDigits_ne_nil)]
        exact ih (n / 10) (by omega) (by omega)

end Decimal

namespace Token

theorem numberValue_wholeDigits {n : Nat} (h : n ≤ Value.exactMax) :
    numberValue (Decimal.wholeDigits n) [] = .round false n 1 := by
  rw [numberValue, List.append_nil, Decimal.digitsValue_wholeDigits]
  exact Binary64.ofDecimal_whole h

theorem valid_wholeDigits (n : Nat) : (Token.number (Decimal.wholeDigits n) []).Valid := by
  have hdigits : ∀ c ∈ Decimal.wholeDigits n ++ [], c.isDigit = true := by
    rw [List.append_nil]
    intro c hc
    exact Nat.isDigit_of_mem_toDigits (by decide) (by decide) hc
  by_cases hn : n = 0
  · subst hn
    exact ⟨'0', [], rfl, hdigits, fun _ => rfl⟩
  · obtain ⟨d, ds, hd⟩ := List.exists_cons_of_ne_nil
      (show Decimal.wholeDigits n ≠ [] from Nat.toDigits_ne_nil)
    refine ⟨d, ds, hd, hdigits, ?_⟩
    rintro rfl
    exact absurd (by rw [hd]; rfl) (Decimal.head?_wholeDigits hn)

end Token

end Pipeline
