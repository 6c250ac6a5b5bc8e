import ScopeLisp.Binary32.Decimal

/-!
# Numerals

## Reading digits

A numeral is worth the number that its digits spell, with the point moved past
the digits behind the dot.  A decimal that is written out in full reads as the
decimal itself.

## Rounding fixes what it can represent

The number nearest to the exact size of a finite number is that number.  The
search for the shortest decimal therefore ends at the latest on the grid that
holds all sizes exactly, and what it finds reads back.
-/

namespace ScopeLisp
namespace Decimal

/-!
# Digits and a dot

A numeral is its digits up to the dot and the digits behind it.
-/

theorem ne_dot_of_isDigit {c : Char} (hc : c.isDigit = true) : (c != '.') = true := by
  rw [bne_iff_ne]
  intro hdot
  subst hdot
  revert hc
  decide

section Digits

variable {whole : List Char} (hwhole : ∀ c ∈ whole, c.isDigit = true)
include hwhole

theorem takeWhile_whole : whole.takeWhile (· != '.') = whole := by
  simpa using @List.takeWhile_append_of_pos _ _ whole [] fun c hc => ne_dot_of_isDigit (hwhole c hc)

theorem dropWhile_whole : whole.dropWhile (· != '.') = [] := by
  simpa using @List.dropWhile_append_of_pos _ _ whole [] fun c hc => ne_dot_of_isDigit (hwhole c hc)

theorem takeWhile_dotted (fraction : List Char) :
    (whole ++ '.' :: fraction).takeWhile (· != '.') = whole := by
  rw [List.takeWhile_append_of_pos fun c hc => ne_dot_of_isDigit (hwhole c hc)]
  simp

theorem dropWhile_dotted (fraction : List Char) :
    (whole ++ '.' :: fraction).dropWhile (· != '.') = '.' :: fraction := by
  rw [List.dropWhile_append_of_pos fun c hc => ne_dot_of_isDigit (hwhole c hc)]
  simp

theorem ofNumeral?_whole (hne : whole ≠ []) :
    ofNumeral? whole = some ⟨Nat.ofDigitChars 10 whole 0, 0⟩ := by
  have hall : whole.all Char.isDigit = true := List.all_eq_true.mpr hwhole
  simp [ofNumeral?, takeWhile_whole hwhole, dropWhile_whole hwhole, hall, hne]

theorem ofNumeral?_dotted (fraction : List Char) :
    ofNumeral? (whole ++ '.' :: fraction) =
      if (whole ++ fraction).all Char.isDigit && !(whole ++ fraction).isEmpty then
        some ⟨Nat.ofDigitChars 10 (whole ++ fraction) 0, -(fraction.length : Int)⟩
      else none := by
  simp only [ofNumeral?, takeWhile_dotted hwhole, dropWhile_dotted hwhole, List.drop_succ_cons,
    List.drop_zero]

end Digits

/-!
# Decimals written out in full

A decimal that is written out in full reads as the number nearest to it.
-/

theorem isDigit_of_mem_paddedDigits {c : Char} (width n : Nat)
    (hc : c ∈ paddedDigits width n) : c.isDigit = true := by
  induction width generalizing n with
  | zero =>
      cases hc
  | succ width ih =>
      rcases List.mem_append.mp hc with hfront | hlast
      · exact ih (n / 10) hfront
      · cases List.mem_singleton.mp hlast
        rw [Nat.isDigit_digitChar]
        exact decide_eq_true (Nat.mod_lt n (by decide))

theorem ofDigitChars_paddedDigits (width n init : Nat) :
    Nat.ofDigitChars 10 (paddedDigits width n) init =
      tenPow width * init + n % tenPow width := by
  induction width generalizing n with
  | zero =>
      simp [paddedDigits, tenPow, Nat.mod_one]
  | succ width ih =>
      have hdigit : (Nat.digitChar (n % 10)).toNat - '0'.toNat = n % 10 := by
        rw [Nat.toNat_digitChar_of_lt_ten (Nat.mod_lt n (by decide))]
        exact Nat.add_sub_cancel_left ..
      have hpower : tenPow (width + 1) = 10 * tenPow width :=
        Nat.pow_succ'
      have hmod : n % tenPow (width + 1) = n % 10 + 10 * (n / 10 % tenPow width) := by
        rw [hpower, Nat.mod_mul]
      rw [paddedDigits, Nat.ofDigitChars_append, ih, Nat.ofDigitChars_cons, hdigit, hmod, hpower,
        Nat.mul_add, Nat.mul_assoc, Nat.add_assoc, Nat.add_comm (n % 10)]
      rfl

theorem mem_positional {d : Decimal} {c : Char} (hc : c ∈ d.positional) :
    c.isDigit = true ∨ c = '.' := by
  simp only [positional] at hc
  split at hc
  · exact .inl (Nat.isDigit_of_mem_toDigits (by decide) (by decide) hc)
  · rcases List.mem_append.mp hc with hwhole | hfraction
    · exact .inl (Nat.isDigit_of_mem_toDigits (by decide) (by decide) hwhole)
    · rcases List.mem_cons.mp hfraction with hdot | hdigit
      · exact .inr hdot
      · exact .inl (isDigit_of_mem_paddedDigits _ _ hdigit)

theorem positional_ne_nil (d : Decimal) : d.positional ≠ [] := by
  simp only [positional]
  split
  · exact Nat.toDigits_ne_nil
  · simp

end Decimal

namespace Binary32

theorem ofNumeral?_positional (d : Decimal) : ofNumeral? d.positional = some (ofDecimal d) := by
  have hdigits (n : Nat) : ∀ c ∈ Nat.toDigits 10 n, c.isDigit = true :=
    fun c hc => Nat.isDigit_of_mem_toDigits (by decide) (by decide) hc
  rcases d with ⟨coefficient, exponent⟩
  by_cases hplaces : (-exponent).toNat = 0
  · have hread := Decimal.ofNumeral?_whole
      (hdigits (coefficient * Decimal.tenPow exponent.toNat)) Nat.toDigits_ne_nil
    simp only [Decimal.positional, hplaces, if_true, ofNumeral?, hread, Option.map_some,
      Nat.ofDigitChars_ten_toDigits]
    simp [ofDecimal, hplaces, Decimal.tenPow]
  · have hread := Decimal.ofNumeral?_dotted
      (hdigits (coefficient / Decimal.tenPow (-exponent).toNat))
      (Decimal.paddedDigits (-exponent).toNat (coefficient % Decimal.tenPow (-exponent).toNat))
    have hall : (Nat.toDigits 10 (coefficient / Decimal.tenPow (-exponent).toNat) ++
        Decimal.paddedDigits (-exponent).toNat
          (coefficient % Decimal.tenPow (-exponent).toNat)).all Char.isDigit = true := by
      rw [List.all_eq_true]
      intro c hc
      rcases List.mem_append.mp hc with hwhole | hfraction
      · exact hdigits _ c hwhole
      · exact Decimal.isDigit_of_mem_paddedDigits _ _ hfraction
    have hexponent : -((-exponent).toNat : Int) = exponent := by
      omega
    have hvalue : Decimal.tenPow (-exponent).toNat *
          (coefficient / Decimal.tenPow (-exponent).toNat) +
        coefficient % Decimal.tenPow (-exponent).toNat % Decimal.tenPow (-exponent).toNat =
        coefficient := by
      rw [Nat.mod_mod, Nat.div_add_mod]
    simp only [Decimal.positional, hplaces, if_false, ofNumeral?, hread, hall, Bool.true_and,
      Nat.ofDigitChars_append, Nat.ofDigitChars_ten_toDigits, Decimal.ofDigitChars_paddedDigits,
      hvalue, Decimal.length_paddedDigits, hexponent]
    simp [Nat.toDigits_ne_nil]

/-!
# Exact sizes

The size of a number is its significand, counted in the spacing of its binade.
Above the lowest binade the leading bit of a significand is set.
-/

theorem twoPow_pos (n : Nat) : 0 < twoPow n :=
  Nat.pow_pos (by decide)

theorem twoPow_add (m n : Nat) : twoPow (m + n) = twoPow m * twoPow n :=
  Nat.pow_add 2 m n

/-- How often the spacing of the lowest binade is doubled at the size of a number. -/
def scale (x : Binary32) : Nat :=
  x.magnitude / binadeSize - 1

def significand (x : Binary32) : Nat :=
  x.magnitude - x.scale * binadeSize

theorem scale_add_significand (x : Binary32) :
    x.scale * binadeSize + x.significand = x.magnitude := by
  have hle : x.scale * binadeSize ≤ x.magnitude :=
    Nat.le_trans (Nat.mul_le_mul_right _ (Nat.sub_le ..)) (Nat.div_mul_le_self ..)
  exact Nat.add_sub_cancel' hle

theorem significand_eq {x : Binary32} (hx : binadeSize ≤ x.magnitude) :
    x.significand = binadeSize + x.magnitude % binadeSize := by
  have hbinade : 1 ≤ x.magnitude / binadeSize := Nat.div_pos hx (by decide)
  have hsplit := Nat.div_add_mod x.magnitude binadeSize
  simp only [significand, scale, binadeSize] at hbinade hsplit ⊢
  omega

theorem units_eq (x : Binary32) : x.units = x.significand * twoPow x.scale := by
  unfold units
  split
  · rename_i hlow
    simp [significand, scale, Nat.div_eq_of_lt hlow, twoPow]
  · rename_i hhigh
    rw [significand_eq (Nat.le_of_not_lt hhigh), scale]

theorem log2_units {x : Binary32} (hx : binadeSize ≤ x.magnitude) :
    x.units ≠ 0 ∧ x.units.log2 = 23 + x.scale := by
  have hfraction := Nat.mod_lt x.magnitude (show 0 < binadeSize by decide)
  have hlower : twoPow 23 ≤ x.significand := by
    rw [significand_eq hx]
    exact Nat.le_add_right ..
  have hupper : x.significand < twoPow 24 := by
    rw [significand_eq hx]
    exact Nat.add_lt_add_left hfraction binadeSize
  have hlow : twoPow (23 + x.scale) ≤ x.units := by
    rw [units_eq, twoPow_add]
    exact Nat.mul_le_mul_right _ hlower
  have hhigh : x.units < twoPow (23 + x.scale + 1) := by
    rw [units_eq, Nat.add_right_comm, twoPow_add]
    exact Nat.mul_lt_mul_of_pos_right hupper (twoPow_pos _)
  have hne : x.units ≠ 0 := Nat.ne_of_gt (Nat.lt_of_lt_of_le (twoPow_pos _) hlow)
  exact ⟨hne, (Nat.log2_eq_iff hne).mpr ⟨hlow, hhigh⟩⟩

theorem excessBits_units (x : Binary32) {k : Nat} (hk : 0 < k) :
    excessBits (x.units * k) k = x.scale := by
  unfold excessBits
  rw [Nat.mul_div_cancel _ hk]
  by_cases hlow : x.magnitude < binadeSize
  · have hunits : x.units = x.magnitude := if_pos hlow
    rw [hunits, scale, Nat.div_eq_of_lt hlow]
    split
    · rfl
    · rename_i hne
      have hlog : x.magnitude.log2 < 23 := (Nat.log2_lt hne).mpr hlow
      omega
  · rcases log2_units (Nat.le_of_not_lt hlow) with ⟨hne, hlog⟩
    rw [if_neg hne, hlog]
    omega

/-- The number nearest to an exact size has that size. -/
theorem nearestMagnitude_units {x : Binary32} (hx : x.isFinite = true) {k : Nat} (hk : 0 < k) :
    nearestMagnitude (x.units * k) k = x.magnitude := by
  have hscale : 0 < k * twoPow x.scale := Nat.mul_pos hk (twoPow_pos _)
  have hunits : x.units * k = x.significand * (k * twoPow x.scale) := by
    rw [units_eq, Nat.mul_assoc, Nat.mul_comm k]
  simp only [nearestMagnitude, excessBits_units x hk]
  rw [hunits, roundHalfEven_mul _ _ hscale, scale_add_significand]
  exact Nat.min_eq_left (Nat.le_of_lt (of_decide_eq_true hx))

/-!
# The shortest decimal

A grid is decided by readings, and on the finest grid every size is a decimal.
-/

theorem ofDecimal_of_decimalOnGrid {x : Binary32} {exponent : Int} {d : Decimal}
    (h : decimalOnGrid x exponent = some d) : ofDecimal d = x.abs := by
  simp only [decimalOnGrid] at h
  split at h
  · rename_i hbelow
    split at h
    · rename_i habove
      cases h
      exact habove.1
    · cases h
      exact hbelow
  · split at h
    · rename_i habove
      cases h
      exact habove
    · cases h

theorem isSome_decimalOnGrid {x : Binary32} {exponent : Int}
    (h : ofDecimal ⟨x.units * Decimal.tenPow (-exponent).toNat /
      (unitsPerOne * Decimal.tenPow exponent.toNat), exponent⟩ = x.abs) :
    (decimalOnGrid x exponent).isSome = true := by
  simp only [decimalOnGrid, h, if_true]
  split <;> rfl

/-- On the finest grid every size is a decimal. -/
theorem ofDecimal_finest {x : Binary32} (hx : x.isFinite = true) :
    ofDecimal ⟨x.units * Decimal.tenPow 149 / (unitsPerOne * Decimal.tenPow 0), -149⟩ = x.abs := by
  -- A unit is a multiple of the grid, since a power of two divides the same power of ten.
  have hpower : Decimal.tenPow 149 = Nat.pow 5 149 * unitsPerOne := Nat.mul_pow 5 2 149
  have hone : 0 < unitsPerOne := twoPow_pos 149
  have hexact : x.units * Decimal.tenPow 149 / (unitsPerOne * Decimal.tenPow 0) *
      Decimal.tenPow 0 * unitsPerOne = x.units * Decimal.tenPow 149 := by
    rw [show Decimal.tenPow 0 = 1 from rfl, Nat.mul_one, Nat.mul_one, hpower, ← Nat.mul_assoc,
      Nat.mul_div_cancel _ hone]
  have hpositive : 0 < Decimal.tenPow 149 := Nat.pow_pos (by decide)
  show nearest false (_ * Decimal.tenPow 0 * unitsPerOne) (Decimal.tenPow 149) = _
  rw [hexact, nearest, nearestMagnitude_units hx hpositive]
  rfl

theorem exists_shortestDecimal {x : Binary32} (hx : x.isFinite = true) :
    ∃ d, shortestDecimal x = some d ∧ ofDecimal d = x.abs := by
  have hfinest : (decimalOnGrid x (-149)).isSome = true :=
    isSome_decimalOnGrid (ofDecimal_finest hx)
  have hsome : (shortestDecimal x).isSome = true :=
    List.findSome?_isSome_iff.mpr ⟨-149, List.mem_map.mpr ⟨187, by decide, rfl⟩, hfinest⟩
  rcases Option.isSome_iff_exists.mp hsome with ⟨d, hd⟩
  rcases List.exists_of_findSome?_eq_some hd with ⟨exponent, _, hgrid⟩
  exact ⟨d, hd, ofDecimal_of_decimalOnGrid hgrid⟩

/-!
# The text of a number

A finite number with the sign bit clear is written as a decimal that reads
back.
-/

theorem magnitudeChars_of_shortestDecimal {x : Binary32} (hx : x.isFinite = true) {d : Decimal}
    (hd : shortestDecimal x = some d) : x.magnitudeChars = d.positional := by
  have hinfinite : x.isInfinite = false :=
    decide_eq_false (Nat.ne_of_lt (of_decide_eq_true hx))
  simp [magnitudeChars, hinfinite, hd]

theorem isNaN_of_isFinite {x : Binary32} (hx : x.isFinite = true) : x.isNaN = false :=
  decide_eq_false (Nat.lt_asymm (of_decide_eq_true hx))

theorem abs_of_isNegative {x : Binary32} (hsign : x.isNegative = false) : x.abs = x := by
  rw [abs, ← hsign]
  exact ofMagnitude_isNegative_magnitude x

theorem chars_of_shortestDecimal {x : Binary32} (hx : x.isFinite = true)
    (hsign : x.isNegative = false) {d : Decimal} (hd : shortestDecimal x = some d) :
    x.chars = d.positional := by
  rw [← magnitudeChars_of_shortestDecimal hx hd]
  simp [chars, isNaN_of_isFinite hx, hsign]

theorem exists_chars_eq_positional {x : Binary32} (hx : x.isFinite = true)
    (hsign : x.isNegative = false) : ∃ d : Decimal, x.chars = d.positional ∧ ofDecimal d = x := by
  rcases exists_shortestDecimal hx with ⟨d, hd, hread⟩
  exact ⟨d, chars_of_shortestDecimal hx hsign hd, hread.trans (abs_of_isNegative hsign)⟩

end Binary32
end ScopeLisp
