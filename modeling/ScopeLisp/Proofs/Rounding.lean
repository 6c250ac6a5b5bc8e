import ScopeLisp.Proofs.Numerals

/-!
# Nearest numbers

## Whole numbers

Rounding a quotient gives a whole number that is nearest to it.  It depends on
the quotient only, and a larger quotient is never rounded to a smaller number.

## Binades

A quotient is rounded to a multiple of the spacing of its binade.  Numbers of
lower binades are no nearer, since a binade starts with a number of its own, and
those of higher binades are multiples of the spacing as well.
-/

namespace ScopeLisp
namespace Binary32

/-!
# Whole numbers

A quotient is rounded to the nearest whole number, whatever its terms are, and
the order of quotients is kept.
-/

theorem roundHalfEven_scale (n d : Nat) {k : Nat} (hk : 0 < k) :
    roundHalfEven (n * k) (d * k) = roundHalfEven n d := by
  have hbelow : 2 * (n % d * k) < d * k ↔ 2 * (n % d) < d := by
    rw [← Nat.mul_assoc, Nat.mul_lt_mul_right hk]
  have habove : d * k < 2 * (n % d * k) ↔ d < 2 * (n % d) := by
    rw [← Nat.mul_assoc, Nat.mul_lt_mul_right hk]
  simp only [roundHalfEven, Nat.mul_div_mul_right _ _ hk, Nat.mul_mod_mul_right, hbelow, habove]

theorem roundHalfEven_mono {n n' : Nat} (d : Nat) (h : n ≤ n') :
    roundHalfEven n d ≤ roundHalfEven n' d := by
  have hquotient : n / d ≤ n' / d := Nat.div_le_div_right h
  have hsplit := Nat.div_add_mod n d
  have hsplit' := Nat.div_add_mod n' d
  unfold roundHalfEven
  rcases Nat.lt_or_eq_of_le hquotient with hlt | heq
  · dsimp only
    repeat' split
    all_goals omega
  · rw [heq] at hsplit ⊢
    dsimp only
    repeat' split
    all_goals omega

theorem le_roundHalfEven {n d m : Nat} (hd : 0 < d) (h : m * d ≤ n) : m ≤ roundHalfEven n d := by
  rw [← roundHalfEven_mul m d hd]
  exact roundHalfEven_mono d h

theorem roundHalfEven_le {n d m : Nat} (hd : 0 < d) (h : n ≤ m * d) : roundHalfEven n d ≤ m := by
  rw [← roundHalfEven_mul m d hd]
  exact roundHalfEven_mono d h

/-- No multiple of the divisor is nearer than the one that is rounded to. -/
theorem roundHalfEven_nearest (n : Nat) {d : Nat} (hd : 0 < d) (m : Nat) :
    ((roundHalfEven n d * d : Nat) - (n : Int)).natAbs ≤ ((m * d : Nat) - (n : Int)).natAbs := by
  have hsplit := Nat.div_add_mod' n d
  have hremainder := Nat.mod_lt n hd
  have hnext : (n / d + 1) * d = n / d * d + d := Nat.succ_mul ..
  have hother : m * d ≤ n / d * d ∨ n / d * d + d ≤ m * d := by
    rcases Nat.lt_or_ge (n / d) m with hlt | hle
    · rw [← hnext]
      exact .inr (Nat.mul_le_mul_right d hlt)
    · exact .inl (Nat.mul_le_mul_right d hle)
  have hrounded : roundHalfEven n d * d = n / d * d ∧ 2 * (n % d) ≤ d ∨
      roundHalfEven n d * d = n / d * d + d ∧ d ≤ 2 * (n % d) := by
    unfold roundHalfEven
    dsimp only
    split
    · exact .inl ⟨rfl, by omega⟩
    · split
      · exact .inr ⟨hnext, by omega⟩
      · rcases Nat.mod_two_eq_zero_or_one (n / d) with heven | hodd
        · rw [heven]
          exact .inl ⟨rfl, by omega⟩
        · rw [hodd]
          exact .inr ⟨hnext, by omega⟩
  omega

/-!
# Binades

A binade ends where the next one starts, and larger quotients are in the same
or in higher binades.
-/

/-- A quotient whose spacing is the lowest spacing, doubled a number of times. -/
structure InBinade (n d t : Nat) : Prop where
  lt : n < 2 * binadeSize * (d * twoPow t)
  le : t = 0 ∨ binadeSize * (d * twoPow t) ≤ n

theorem inBinade_excessBits (n : Nat) {d : Nat} (hd : 0 < d) : InBinade n d (excessBits n d) := by
  have hunit : binadeSize = twoPow 23 := rfl
  have htwice : 2 * binadeSize = twoPow 24 := rfl
  have hspread (k t : Nat) : twoPow k * (d * twoPow t) = twoPow (k + t) * d := by
    rw [twoPow_add, Nat.mul_left_comm, Nat.mul_comm]
  constructor
  · rw [htwice, hspread, ← Nat.div_lt_iff_lt_mul hd]
    unfold excessBits
    split
    · rename_i hzero
      rw [hzero]
      exact twoPow_pos _
    · refine Nat.lt_of_lt_of_le Nat.lt_log2_self (Nat.pow_le_pow_right (by decide) ?_)
      omega
  · rw [hunit, hspread, ← Nat.le_div_iff_mul_le hd]
    unfold excessBits
    split
    · exact .inl rfl
    · rename_i hne
      rcases Nat.lt_or_ge ((n / d).log2) 24 with hlow | hhigh
      · left
        omega
      · right
        have hlog : 23 + ((n / d).log2 + 1 - 24) = (n / d).log2 := by
          omega
        rw [hlog]
        exact Nat.log2_self_le hne

namespace InBinade

variable {n d t : Nat} (h : InBinade n d t) (hd : 0 < d)
include h hd

theorem roundHalfEven_le : roundHalfEven n (d * twoPow t) ≤ 2 * binadeSize :=
  Binary32.roundHalfEven_le (Nat.mul_pos hd (twoPow_pos t)) (Nat.le_of_lt h.lt)

theorem le_roundHalfEven : t = 0 ∨ binadeSize ≤ roundHalfEven n (d * twoPow t) := by
  rcases h.le with hzero | hle
  · exact .inl hzero
  · exact .inr (Binary32.le_roundHalfEven (Nat.mul_pos hd (twoPow_pos t)) hle)

end InBinade

theorem binade_end_le {t t' : Nat} (h : t' < t) (d : Nat) :
    2 * binadeSize * (d * twoPow t') ≤ binadeSize * (d * twoPow t) := by
  have hstep : twoPow (t' + 1) ≤ twoPow t := Nat.pow_le_pow_right (by decide) h
  calc 2 * binadeSize * (d * twoPow t') = binadeSize * (d * twoPow (t' + 1)) := by
        rw [twoPow_add, Nat.mul_comm 2, Nat.mul_assoc, Nat.mul_left_comm 2, Nat.mul_comm 2]
        rfl
    _ ≤ binadeSize * (d * twoPow t) := Nat.mul_le_mul_left _ (Nat.mul_le_mul_left _ hstep)

theorem InBinade.le_of_le {n n' d t t' : Nat} (h : InBinade n d t) (h' : InBinade n' d t')
    (hle : n ≤ n') : t ≤ t' := by
  apply Nat.le_of_not_lt
  intro hlt
  have hstart : binadeSize * (d * twoPow t) ≤ n :=
    h.le.resolve_left (Nat.ne_of_gt (Nat.zero_lt_of_lt hlt))
  have hend := binade_end_le hlt d
  have hlast := h'.lt
  omega

/-!
# Order

The order of quotients is kept, whatever their denominators are.
-/

theorem nearestMagnitude_scale (n d : Nat) {k : Nat} (hk : 0 < k) :
    nearestMagnitude (n * k) (d * k) = nearestMagnitude n d := by
  have hexcess : excessBits (n * k) (d * k) = excessBits n d := by
    rw [excessBits, excessBits, Nat.mul_div_mul_right _ _ hk]
  simp only [nearestMagnitude, hexcess]
  rw [Nat.mul_right_comm, roundHalfEven_scale _ _ hk]

theorem nearestMagnitude_mono {n n' d : Nat} (hd : 0 < d) (h : n ≤ n') :
    nearestMagnitude n d ≤ nearestMagnitude n' d := by
  have hbinade := inBinade_excessBits n hd
  have hbinade' := inBinade_excessBits n' hd
  simp only [nearestMagnitude]
  generalize excessBits n d = t at hbinade
  generalize excessBits n' d = t' at hbinade'
  refine Nat.le_min.mpr ⟨Nat.le_trans (Nat.min_le_left ..) ?_, Nat.min_le_right ..⟩
  rcases Nat.lt_or_eq_of_le (hbinade.le_of_le hbinade' h) with hlt | rfl
  · have hupper := hbinade.roundHalfEven_le hd
    have hlower : binadeSize ≤ roundHalfEven n' (d * twoPow t') :=
      (hbinade'.le_roundHalfEven hd).resolve_left (Nat.ne_of_gt (Nat.zero_lt_of_lt hlt))
    have hnext := Nat.mul_le_mul_right binadeSize hlt
    rw [Nat.succ_mul] at hnext
    omega
  · exact Nat.add_le_add_left (roundHalfEven_mono _ h) _

theorem nearestMagnitude_le {n d n' d' : Nat} (hd : 0 < d) (hd' : 0 < d')
    (h : n * d' ≤ n' * d) : nearestMagnitude n d ≤ nearestMagnitude n' d' := by
  rw [← nearestMagnitude_scale n d hd', ← nearestMagnitude_scale n' d' hd, Nat.mul_comm d' d]
  exact nearestMagnitude_mono (Nat.mul_pos hd hd') h

/-!
# Distance

The nearest number has a size that is a multiple of the spacing of its binade.
Its significand may have been rounded up to the next binade.
-/

theorem units_eq_of_magnitude {x : Binary32} {t m : Nat} (hx : x.magnitude = t * binadeSize + m)
    (hle : m ≤ 2 * binadeSize) (hge : t = 0 ∨ binadeSize ≤ m) : x.units = m * twoPow t := by
  rw [units_eq]
  rcases Nat.lt_or_eq_of_le hle with hlt | heq
  · have hscale : x.scale = t := by
      simp only [scale, binadeSize] at *
      omega
    have hsignificand : x.significand = m := by
      rw [significand, hscale, hx, Nat.add_sub_cancel_left]
    rw [hscale, hsignificand]
  · have hscale : x.scale = t + 1 := by
      simp only [scale, binadeSize] at *
      omega
    have hsignificand : x.significand = binadeSize := by
      simp only [significand, hscale, hx, heq, binadeSize]
      omega
    rw [hscale, hsignificand, heq, twoPow_add, Nat.mul_comm 2, Nat.mul_assoc, Nat.mul_comm 2]
    rfl

theorem significand_lt (x : Binary32) : x.significand < 2 * binadeSize := by
  simp only [significand, scale, binadeSize]
  omega

theorem magnitude_nearest (n d : Nat) : (nearest false n d).magnitude = nearestMagnitude n d :=
  magnitude_ofMagnitude false (Nat.lt_of_le_of_lt (Nat.min_le_right ..) (by decide))

theorem units_nearest {n d : Nat} (hd : 0 < d) (hfinite : (nearest false n d).isFinite = true) :
    (nearest false n d).units =
      roundHalfEven n (d * twoPow (excessBits n d)) * twoPow (excessBits n d) := by
  have hbinade := inBinade_excessBits n hd
  have hlt := of_decide_eq_true hfinite
  rw [magnitude_nearest] at hlt
  apply units_eq_of_magnitude _ (hbinade.roundHalfEven_le hd) (hbinade.le_roundHalfEven hd)
  rw [magnitude_nearest]
  simp only [nearestMagnitude] at hlt ⊢
  omega

/-- No finite number is nearer to a quotient than the nearest number, if that is finite. -/
theorem nearest_nearest {n d : Nat} (hd : 0 < d) (hfinite : (nearest false n d).isFinite = true)
    (y : Binary32) :
    (((nearest false n d).units * d : Nat) - (n : Int)).natAbs ≤
      ((y.units * d : Nat) - (n : Int)).natAbs := by
  have hbinade := inBinade_excessBits n hd
  rw [units_nearest hd hfinite, units_eq y]
  generalize excessBits n d = t at hbinade ⊢
  have hspacing : 0 < d * twoPow t := Nat.mul_pos hd (twoPow_pos t)
  have hround := roundHalfEven_nearest n hspacing
  have hmultiple (m : Nat) : m * twoPow t * d = m * (d * twoPow t) := by
    rw [Nat.mul_assoc, Nat.mul_comm (twoPow t)]
  rw [hmultiple]
  rcases Nat.lt_or_ge y.scale t with hlow | hhigh
  · -- The binade of the quotient starts with a number between the quotient and the other number.
    have hstart : binadeSize * (d * twoPow t) ≤ n :=
      hbinade.le.resolve_left (Nat.ne_of_gt (Nat.zero_lt_of_lt hlow))
    have hsize : y.significand * twoPow y.scale * d ≤ 2 * binadeSize * (d * twoPow y.scale) := by
      rw [Nat.mul_assoc, Nat.mul_comm _ d]
      exact Nat.mul_le_mul_right _ (Nat.le_of_lt y.significand_lt)
    have hend := binade_end_le hlow d
    have hbetween := hround binadeSize
    omega
  · have hother : y.significand * twoPow y.scale * d =
        y.significand * twoPow (y.scale - t) * (d * twoPow t) := by
      rw [← hmultiple, Nat.mul_assoc _ (twoPow (y.scale - t)), ← twoPow_add,
        Nat.sub_add_cancel hhigh]
    rw [hother]
    exact hround _

end Binary32
end ScopeLisp
