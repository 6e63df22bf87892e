import Mathlib.Data.List.TakeDrop
import Mathlib.Data.List.TakeWhile
import Mathlib.Tactic.Set
import Primer.Binary32.Decimal

/-!
# Numbers Written with a Point

What a text of digits with a point among them spells, and a text of that kind for every
number that has one.

Reading such a text is one rounding of the decimal that it spells. The limits that
guard against huge exponents have no effect here, since the exponent is never larger
than the text is long.

In the other direction a number is written in full. A unit of `2 ^ (-149)` has 149
places, so each finite number is written exactly, and the rounding has nothing to round.
That the index comes back is then the reading of `units` backwards: the size of the
number in units tells how often the step has doubled, and dividing by the step gives the
place among the magnitudes of that step.

## Main definitions

* `Binary32.spelling`: A number written in full, with a point.

## Theorems

* `Binary32.ofText?_point`, `Binary32.unsigned_of_ofText?_point`: What digits with a point
  spell.
* `Binary32.ofUnits_units`: A whole number of units is the magnitude with that worth.
* `Decimal.exists_point`: A decimal with places is written with a point.
* `Binary32.ofText?_spelling`: A number without a sign is read back from its spelling.
-/

namespace Primer

namespace Binary32

variable {whole fraction : List Char}

theorem takeWhile_isDigit_point (hwhole : ∀ c ∈ whole, c.isDigit) (rest : List Char) :
    (whole ++ '.' :: rest).takeWhile Char.isDigit = whole := by
  rw [List.takeWhile_append_of_pos hwhole, List.takeWhile_cons_of_neg (by decide),
    List.append_nil]

theorem dropWhile_isDigit_point (hwhole : ∀ c ∈ whole, c.isDigit) (rest : List Char) :
    (whole ++ '.' :: rest).dropWhile Char.isDigit = '.' :: rest := by
  rw [List.dropWhile_append_of_pos hwhole, List.dropWhile_cons_of_neg (by decide)]

theorem ofUnits_zero (negative : Bool) {den : Nat} (hden : 0 < den) :
    ofUnits negative 0 den = zero negative := by
  have hshift : (0 / den).log2 - 23 = 0 := by
    rw [Nat.zero_div]
    rfl
  have hround : roundDiv 0 (den * Nat.pow 2 0) = 0 := by
    unfold roundDiv
    simp only [Nat.zero_div, Nat.zero_mod, Nat.mul_zero]
    rw [if_pos]
    left
    simpa using hden
  unfold ofUnits
  simp only [hshift, hround]
  rfl

/-- Digits with a point spell the decimal of all the digits, with a place for each digit
    behind the point. -/
theorem ofText?_point (hwhole : ∀ c ∈ whole, c.isDigit) (hne : whole ≠ [])
    (hfraction : ∀ c ∈ fraction, c.isDigit) :
    ofText? (String.ofList (whole ++ '.' :: fraction)) =
      some (ofDecimal false ⟨Nat.ofDigitChars 10 (whole ++ fraction) 0, -fraction.length⟩) := by
  cases hw : whole with
  | nil => exact absurd hw hne
  | cons c tail =>
      rw [← hw]
      have hc : c.isDigit := hwhole c (by rw [hw]; exact List.mem_cons_self)
      -- The text has no sign in front of it.
      have hsign : ofText? (String.ofList (whole ++ '.' :: fraction))
          = magnitude? false (whole ++ '.' :: fraction) := by
        unfold ofText?
        rw [String.toList_ofList, hw]
        have hminus : c ≠ '-' := by rintro rfl; exact absurd hc (by decide)
        have hplus : c ≠ '+' := by rintro rfl; exact absurd hc (by decide)
        split
        · next heq => exact absurd (List.cons.inj heq).1 hminus
        · next heq => exact absurd (List.cons.inj heq).1 hplus
        · rfl
      -- Nor is it the name of a number, since names have no point.
      have hpoint : '.' ∈ (String.ofList ((whole ++ '.' :: fraction).map Char.toLower)).toList := by
        rw [String.toList_ofList]
        exact List.mem_map.mpr ⟨'.', List.mem_append_right _ List.mem_cons_self, rfl⟩
      have hname : magnitude? false (whole ++ '.' :: fraction)
          = unsigned? false (whole ++ '.' :: fraction) := by
        unfold magnitude?
        rw [if_neg, if_neg]
        · intro h
          rw [h] at hpoint
          exact absurd hpoint (by decide)
        · rintro (h | h) <;> rw [h] at hpoint <;> exact absurd hpoint (by decide)
      have hspan : (whole ++ '.' :: fraction).span Char.isDigit = (whole, '.' :: fraction) := by
        rw [List.span_eq_takeWhile_dropWhile, takeWhile_isDigit_point hwhole,
          dropWhile_isDigit_point hwhole]
      have hspan' : fraction.span Char.isDigit = (fraction, []) := by
        have htake : fraction.takeWhile Char.isDigit = fraction :=
          List.takeWhile_eq_self_iff.mpr hfraction
        have hdrop : fraction.dropWhile Char.isDigit = [] :=
          List.dropWhile_eq_nil_iff.mpr hfraction
        rw [List.span_eq_takeWhile_dropWhile, htake, hdrop]
      have hdigits : (whole ++ fraction).isEmpty = false := by rw [hw]; rfl
      have hread : unsigned? false (whole ++ '.' :: fraction)
          = some (ofScientific false (whole ++ fraction) (-fraction.length)) := by
        unfold unsigned?
        simp only [hspan, hspan', hdigits, Bool.false_eq_true, if_false]
      rw [hsign, hname, hread]
      -- The exponent is within the limits, and zero is rounded to zero.
      congr 1
      unfold ofScientific
      simp only
      have hlen : (whole ++ fraction).length = whole.length + fraction.length :=
        List.length_append
      by_cases hzero : Nat.ofDigitChars 10 (whole ++ fraction) 0 = 0
      · rw [if_pos hzero, hzero]
        unfold ofDecimal
        simp only [Nat.zero_mul]
        exact (ofUnits_zero false (Nat.pow_pos (by decide))).symm
      · rw [if_neg hzero, if_neg (by omega), if_neg (by rw [hlen]; omega)]

/-- Digits with a point spell a number without a sign. -/
theorem unsigned_of_ofText?_point {x : Binary32} (hwhole : ∀ c ∈ whole, c.isDigit)
    (hne : whole ≠ []) (hfraction : ∀ c ∈ fraction, c.isDigit)
    (h : ofText? (String.ofList (whole ++ '.' :: fraction)) = some x) :
    x = .infinite false ∨ ∃ i, x = .finite false i := by
  rw [ofText?_point hwhole hne hfraction] at h
  rcases Option.some.inj h with rfl
  unfold ofDecimal ofUnits
  simp only
  split
  · exact Or.inr ⟨_, rfl⟩
  · exact Or.inl rfl

/-- A whole number of units is the magnitude of that worth. -/
theorem ofUnits_units (negative : Bool) (i : Fin finiteCount) {den : Nat} (hden : 0 < den) :
    ofUnits negative (units i * den) den = .finite negative i := by
  have hquotient : units i * den / den = units i := Nat.mul_div_cancel _ hden
  -- The number of doublings, and the worth as a multiple of the step.
  have hworth : ∃ shift part, (units i).log2 - 23 = shift ∧ units i = part * 2 ^ shift ∧
      shift * span + part = i.val := by
    unfold units
    by_cases hsmall : i.val < span
    · rw [if_pos hsmall]
      refine ⟨0, i.val, ?_, by rw [Nat.pow_zero, Nat.mul_one], by omega⟩
      by_cases hzero : i.val = 0
      · rw [hzero]
        rfl
      · have hlog : i.val.log2 < 23 := (Nat.log2_lt hzero).mpr hsmall
        omega
    · rw [if_neg hsmall]
      have hpos : 0 < i.val / span := Nat.div_pos (by omega) (by decide)
      have hrem : i.val % span < span := Nat.mod_lt _ (by decide)
      have hlog : ((span + i.val % span) * Nat.pow 2 (i.val / span - 1)).log2
          = 23 + (i.val / span - 1) := by
        have hstep : 0 < 2 ^ (i.val / span - 1) := Nat.pow_pos (by decide)
        have hne : (span + i.val % span) * Nat.pow 2 (i.val / span - 1) ≠ 0 :=
          Nat.mul_ne_zero (by omega) (Nat.ne_of_gt hstep)
        rw [Nat.log2_eq_iff hne]
        constructor
        · rw [Nat.pow_add]
          exact Nat.mul_le_mul_right _ (Nat.le_add_right span _)
        · have hpow : 2 ^ (23 + (i.val / span - 1) + 1) = 2 * span * 2 ^ (i.val / span - 1) := by
            rw [show 23 + (i.val / span - 1) + 1 = 24 + (i.val / span - 1) by omega, Nat.pow_add]
            rfl
          rw [hpow]
          exact Nat.mul_lt_mul_of_pos_right (by omega) hstep
      refine ⟨i.val / span - 1, span + i.val % span, by rw [hlog]; omega, rfl, ?_⟩
      have hdiv := Nat.div_add_mod i.val span
      have hmul : (i.val / span - 1) * span + span = span * (i.val / span) := by
        rw [Nat.mul_comm span, ← Nat.succ_mul]
        congr 1
        omega
      omega
  rcases hworth with ⟨shift, part, hshift, hpart, hindex⟩
  have hround : roundDiv (units i * den) (den * Nat.pow 2 shift) = part := by
    have hstep : 0 < den * 2 ^ shift := Nat.mul_pos hden (Nat.pow_pos (by decide))
    have hprod : units i * den = part * (den * 2 ^ shift) := by
      rw [hpart, Nat.mul_assoc, Nat.mul_comm (2 ^ shift) den]
    unfold roundDiv
    simp only [Nat.pow_eq]
    rw [hprod, Nat.mul_div_cancel _ hstep, Nat.mul_mod_left, Nat.mul_zero, if_pos (Or.inl hstep)]
  unfold ofUnits
  simp only [hquotient, hshift, hround, hindex]
  rw [dif_pos i.isLt]

end Binary32

namespace Decimal

/-- A decimal with places is written with a point, and each of its places has a digit. -/
theorem exists_point (n places : Nat) (hplaces : 0 < places) (rest : String) :
    ∃ whole fraction : List Char,
      (Decimal.mk n (-places)).positional rest = String.ofList (whole ++ '.' :: fraction) ∧
        (∀ c ∈ whole, c.isDigit) ∧ whole ≠ [] ∧ (∀ c ∈ fraction, c.isDigit) ∧
        fraction.length = places ∧ Nat.ofDigitChars 10 (whole ++ fraction) 0 = n := by
  have hdigit : ∀ c ∈ Nat.toDigits 10 n, c.isDigit = true := fun c hc =>
    Nat.isDigit_of_mem_toDigits (by decide) (by decide) hc
  have hlen : 0 < (Nat.toDigits 10 n).length := Nat.length_toDigits_pos
  unfold positional
  rw [if_neg (by simp only; omega)]
  by_cases hwhole : 0 < (Decimal.mk n (-places)).wholePlaces
  · rw [if_pos hwhole]
    simp only [wholePlaces, digitChars] at hwhole ⊢
    set k := (((Nat.toDigits 10 n).length : Int) + -(places : Int)).toNat with hk
    refine ⟨(Nat.toDigits 10 n).take k, (Nat.toDigits 10 n).drop k, ?_, ?_, ?_, ?_, ?_, ?_⟩
    · rw [show "." = String.ofList ['.'] by rfl, ← String.ofList_append, ← String.ofList_append,
        List.append_assoc]
      rfl
    · exact fun c hc => hdigit c (List.mem_of_mem_take hc)
    · intro hnil
      have := congrArg List.length hnil
      rw [List.length_take, List.length_nil] at this
      omega
    · exact fun c hc => hdigit c (List.mem_of_mem_drop hc)
    · rw [List.length_drop]
      omega
    · rw [List.take_append_drop]
      exact Nat.ofDigitChars_ten_toDigits
  · rw [if_neg hwhole]
    simp only [wholePlaces, digitChars] at hwhole ⊢
    set k := (-(((Nat.toDigits 10 n).length : Int) + -(places : Int))).toNat with hk
    refine ⟨['0'], List.replicate k '0' ++ Nat.toDigits 10 n, ?_, ?_, ?_, ?_, ?_, ?_⟩
    · rw [show "0." = String.ofList ['0', '.'] by rfl, ← String.ofList_append]
      rfl
    · exact List.forall_mem_singleton.mpr rfl
    · exact List.cons_ne_nil _ _
    · intro c hc
      rcases List.mem_append.mp hc with hc | hc
      · rw [(List.mem_replicate.mp hc).2]
        rfl
      · exact hdigit c hc
    · rw [List.length_append, List.length_replicate]
      omega
    · -- Zeros in front do not count.
      rw [Nat.ofDigitChars_append, Nat.ofDigitChars_append, Nat.ofDigitChars_replicate_zero]
      exact Nat.ofDigitChars_ten_toDigits

end Decimal

namespace Binary32

/-- A number written in full, with a point and without its sign. What is infinite is
    written as a number too large for any other. -/
def spelling : Binary32 → String
  | .nan => ""
  | .infinite _ => (Decimal.mk 1 39).positional ".0"
  | .finite _ i => (Decimal.mk (exactDigits i) (-149)).positional ""

/-- A number without a sign is read back from its spelling, which is a text of digits
    with a point. -/
theorem ofText?_spelling {x : Binary32} (hx : x = .infinite false ∨ ∃ i, x = .finite false i) :
    ∃ whole fraction : List Char, x.spelling = String.ofList (whole ++ '.' :: fraction) ∧
      (∀ c ∈ whole, c.isDigit) ∧ whole ≠ [] ∧ (∀ c ∈ fraction, c.isDigit) ∧ fraction ≠ [] ∧
      ofText? x.spelling = some x := by
  rcases hx with rfl | ⟨i, rfl⟩
  · refine ⟨'1' :: List.replicate 39 '0', ['0'], ?_, ?_, ?_, ?_, ?_, ?_⟩
    · decide +kernel
    · exact List.all_eq_true.mp (by decide)
    · exact List.cons_ne_nil _ _
    · exact List.forall_mem_singleton.mpr rfl
    · exact List.cons_ne_nil _ _
    · decide +kernel
  · rcases Decimal.exists_point (exactDigits i) 149 (by decide) "" with
      ⟨whole, fraction, htext, hwhole, hne, hfraction, hlength, hvalue⟩
    refine ⟨whole, fraction, htext, hwhole, hne, hfraction, ?_, ?_⟩
    · rintro rfl
      exact absurd hlength (by decide)
    · have hspell : (finite false i).spelling = String.ofList (whole ++ '.' :: fraction) := htext
      rw [hspell, ofText?_point hwhole hne hfraction, hvalue, hlength]
      congr 1
      unfold ofDecimal exactDigits
      -- A unit is `5 ^ 149` times `10 ^ (-149)`, so the two scales cancel.
      have hten : Nat.pow 5 149 * oneUnits = Nat.pow 10 149 := by decide +kernel
      have hscale : units i * Nat.pow 5 149 * Nat.pow 10 (-((149 : Nat) : Int)).toNat * oneUnits
          = units i * Nat.pow 10 149 := by
        rw [show Nat.pow 10 (-((149 : Nat) : Int)).toNat = 1 by rfl, Nat.mul_one, Nat.mul_assoc,
          hten]
      have hden : Nat.pow 10 (- -((149 : Nat) : Int)).toNat = Nat.pow 10 149 := rfl
      simp only [hscale, hden]
      exact ofUnits_units false i (Nat.pow_pos (by decide))

end Binary32

end Primer
