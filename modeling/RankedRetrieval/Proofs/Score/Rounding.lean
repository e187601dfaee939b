import RankedRetrieval.Proofs.Score.Order

set_option autoImplicit false

namespace RankedRetrieval

section Double

open Float.Model UnpackedFloat

/-- The multiple of a power of two that is nearest to a magnitude, the even one of two. -/
def nearestMultiple (v n : Nat) : Nat :=
  if 2 * (v % 2 ^ n) < 2 ^ n then v / 2 ^ n
  else if 2 * (v % 2 ^ n) = 2 ^ n then v / 2 ^ n + v / 2 ^ n % 2
  else v / 2 ^ n + 1

theorem nearestMultiple_bounds (v n : Nat) :
    v / 2 ^ n ≤ nearestMultiple v n ∧ nearestMultiple v n ≤ v / 2 ^ n + 1 := by
  unfold nearestMultiple
  split
  · omega
  · split <;> omega

theorem nearestMultiple_mono {v v' : Nat} (le : v ≤ v') (n : Nat) :
    nearestMultiple v n ≤ nearestMultiple v' n := by
  have quotients : v / 2 ^ n ≤ v' / 2 ^ n := Nat.div_le_div_right le
  rcases Nat.lt_or_eq_of_le quotients with lt | same
  · have := (nearestMultiple_bounds v n).2
    have := (nearestMultiple_bounds v' n).1
    omega
  · have parts := Nat.div_add_mod v (2 ^ n)
    have parts' := Nat.div_add_mod v' (2 ^ n)
    rw [← same] at parts'
    have remainders : v % 2 ^ n ≤ v' % 2 ^ n := by omega
    unfold nearestMultiple
    rw [← same]
    by_cases down : 2 * (v' % 2 ^ n) < 2 ^ n
    · refine Nat.le_of_eq ?_
      rw [if_pos down, if_pos (by omega)]
    · rw [if_neg down]
      by_cases tie : 2 * (v' % 2 ^ n) = 2 ^ n
      · rw [if_pos tie]
        split
        · omega
        · refine Nat.le_of_eq ?_
          rw [if_pos (by omega)]
      · rw [if_neg tie]
        split
        · omega
        · split <;> omega

theorem nearestMultiple_mul_two_pow (v n k : Nat) :
    nearestMultiple (v * 2 ^ k) (n + k) = nearestMultiple v n := by
  have some : 0 < 2 ^ k := Nat.two_pow_pos k
  have less (a : Nat) : 2 * (a * 2 ^ k) < 2 ^ n * 2 ^ k ↔ 2 * a < 2 ^ n := by
    rw [← Nat.mul_assoc, Nat.mul_lt_mul_right some]
  have same (a : Nat) : 2 * (a * 2 ^ k) = 2 ^ n * 2 ^ k ↔ 2 * a = 2 ^ n := by
    rw [← Nat.mul_assoc, Nat.mul_right_cancel_iff some]
  unfold nearestMultiple
  rw [Nat.pow_add, Nat.mul_mod_mul_right, Nat.mul_div_mul_right _ _ some]
  simp only [less, same]

theorem nearestMultiple_zero (v : Nat) : nearestMultiple v 0 = v := by
  rw [nearestMultiple, Nat.pow_zero, Nat.mod_one, if_pos (by decide), Nat.div_one]

/-- The exponent to which a magnitude is rounded: 53 digits are kept, and none below the least
exponent. -/
def unit (low v : Nat) : Nat := max (v.log2 - 52) low

def roundedPlace (low v : Nat) : Nat := (unit low v - low) * 2 ^ 52 + nearestMultiple v (unit low v)

theorem div_unit_lt (low v : Nat) : v / 2 ^ unit low v < 2 ^ 53 := by
  rw [Nat.div_lt_iff_lt_mul (Nat.two_pow_pos _), ← Nat.pow_add]
  refine Nat.lt_of_lt_of_le Nat.lt_log2_self (Nat.pow_le_pow_right (by decide) ?_)
  unfold unit
  omega

theorem le_div_unit {low v : Nat} (h : low < unit low v) : 2 ^ 52 ≤ v / 2 ^ unit low v := by
  have digits : 52 + unit low v = v.log2 := by
    unfold unit at h ⊢
    omega
  have some : v ≠ 0 := by
    rintro rfl
    rw [Nat.log2_zero] at digits
    omega
  rw [Nat.le_div_iff_mul_le (Nat.two_pow_pos _), ← Nat.pow_add, digits]
  exact Nat.log2_self_le some

theorem unit_mono (low : Nat) {v v' : Nat} (le : v ≤ v') : unit low v ≤ unit low v' := by
  have digits : v.log2 ≤ v'.log2 := by
    by_cases none : v = 0
    · rw [none, Nat.log2_zero]
      exact Nat.zero_le _
    · rw [Nat.le_log2 (by omega)]
      exact Nat.le_trans (Nat.log2_self_le none) le
  unfold unit
  omega

/-- Rounding is monotone, also where the larger magnitude is rounded to a larger exponent. -/
theorem roundedPlace_mono (low : Nat) {v v' : Nat} (le : v ≤ v') :
    roundedPlace low v ≤ roundedPlace low v' := by
  have units := unit_mono low le
  have above : low ≤ unit low v := Nat.le_max_right _ _
  unfold roundedPlace
  rcases Nat.lt_or_eq_of_le units with lt | same
  -- the larger unit is above the least one, so the larger magnitude keeps all its digits
  · have top := (nearestMultiple_bounds v (unit low v)).2
    have bottom := (nearestMultiple_bounds v' (unit low v')).1
    have narrow := div_unit_lt low v
    have wide := le_div_unit (Nat.lt_of_le_of_lt above lt)
    omega
  · rw [← same]
    exact Nat.add_le_add_left (nearestMultiple_mono le _) _

/-- What the two residual bits say about the digits below the last one that is kept. -/
structure Residue (m n : Nat) (em : ExtendedMantissa) : Prop where
  mantissa : em.mantissa = m / 2 ^ n
  half : em.roundBit = true ↔ 2 ^ n ≤ 2 * (m % 2 ^ n)
  rest : em.stickyBit = false ↔ m % 2 ^ n = 0 ∨ 2 * (m % 2 ^ n) = 2 ^ n

theorem Residue.shiftRightOne {m n : Nat} {em : ExtendedMantissa} (h : Residue m n em) :
    Residue m (n + 1) em.shiftRightOne := by
  have some : 0 < 2 ^ n := Nat.two_pow_pos n
  have bound : m % 2 ^ n < 2 ^ n := Nat.mod_lt _ some
  have digit : m / 2 ^ n % 2 = 0 ∨ m / 2 ^ n % 2 = 1 := Nat.mod_two_eq_zero_or_one _
  have power : 2 ^ (n + 1) = 2 ^ n * 2 := Nat.pow_succ ..
  have residue : m % 2 ^ (n + 1) = m % 2 ^ n + 2 ^ n * (m / 2 ^ n % 2) := by
    rw [power, Nat.mod_mul]
  have half := h.half
  have rest := h.rest
  refine ⟨?_, ?_, ?_⟩
  · change em.mantissa / 2 = _
    rw [h.mantissa, Nat.div_div_eq_div_mul, power]
  · change (em.mantissa % 2 != 0) = true ↔ _
    rw [h.mantissa, residue, power]
    rcases digit with zero | one
    · rw [zero]
      simp
      omega
    · rw [one]
      simp
      omega
  · change (em.roundBit || em.stickyBit) = false ↔ _
    rw [residue, power, Bool.or_eq_false_iff, ← Bool.not_eq_true, half, rest]
    rcases digit with zero | one
    · rw [zero]
      omega
    · rw [one]
      omega

theorem residue_shiftRight (m n : Nat) :
    Residue m n (ExtendedMantissa.ofMantissaAndAccuracy m .exact >>> n) := by
  induction n with
  | zero =>
    refine ⟨?_, ?_, ?_⟩
    · exact (Nat.div_one m).symm
    · change false = true ↔ 1 ≤ 2 * (m % 1)
      rw [Nat.mod_one]
      decide
    · change false = false ↔ m % 1 = 0 ∨ 2 * (m % 1) = 1
      rw [Nat.mod_one]
      decide
  | succ n ih => exact ih.shiftRightOne

theorem Residue.rounded {m n : Nat} {em : ExtendedMantissa} (h : Residue m n em) :
    em.roundedMantissa = nearestMultiple m n := by
  obtain ⟨mantissa, round, sticky⟩ := em
  obtain ⟨whole, half, rest⟩ := h
  dsimp only at whole half rest
  have some : 0 < 2 ^ n := Nat.two_pow_pos n
  unfold nearestMultiple
  rw [← whole]
  cases round with
  | false =>
    have below : 2 * (m % 2 ^ n) < 2 ^ n := Nat.lt_of_not_le fun le => Bool.noConfusion (half.2 le)
    rw [if_pos below]
    cases sticky <;> rfl
  | true =>
    have above := half.1 rfl
    rw [if_neg (by omega)]
    cases sticky with
    | false =>
      rw [if_pos (by rcases rest.1 rfl with none | tie <;> omega)]
      rfl
    | true =>
      have apart : ¬2 * (m % 2 ^ n) = 2 ^ n := fun tie => Bool.noConfusion (rest.2 (.inr tie))
      rw [if_neg apart]
      rfl

theorem log2_mul_two_pow {m : Nat} (nonzero : m ≠ 0) (j : Nat) : (m * 2 ^ j).log2 = m.log2 + j := by
  have power : 0 < 2 ^ j := Nat.two_pow_pos j
  rw [Nat.log2_eq_iff (Nat.mul_ne_zero nonzero (Nat.ne_of_gt power))]
  constructor
  · rw [Nat.pow_add]
    exact Nat.mul_le_mul_right _ (Nat.log2_self_le nonzero)
  · rw [Nat.add_right_comm, Nat.pow_add]
    exact Nat.mul_lt_mul_of_pos_right Nat.lt_log2_self power

theorem targetExponent_eq (m : Nat) (e : Int) :
    Format.binary64.targetExponent (totalExponent m e) = max (m.log2 + 1 + e - 53) (-1074) := by
  have least : Format.binary64.minExponent = -1074 := rfl
  have digits : (Format.binary64.mantissaBits : Int) = 53 := rfl
  rw [Format.targetExponent, totalExponent, least, digits]

theorem targetExponent_unit {m : Nat} (nonzero : m ≠ 0) (low j : Nat) :
    Format.binary64.targetExponent (totalExponent m (j - (low + 1074))) =
      unit low (m * 2 ^ j) - (low + 1074) := by
  rw [targetExponent_eq, unit, log2_mul_two_pow nonzero]
  omega

/-- A mantissa that was rounded up to one digit too many loses its last digit, which is zero. -/
theorem shift_carried {r : Nat} {e : Int} (bound : r ≤ 2 ^ 53) (least : -1074 ≤ e)
    (wide : r < 2 ^ 52 → e = -1074) :
    let carried := shiftToTargetExponent Format.binary64 r e .exact
    Representable carried.1.mantissa carried.2 ∧
      (carried.2 + 1074) * 2 ^ 52 + carried.1.mantissa = (e + 1074) * 2 ^ 52 + r := by
  unfold shiftToTargetExponent shiftToExponent
  rw [targetExponent_eq]
  dsimp only
  rcases Nat.lt_or_eq_of_le bound with less | rfl
  -- nothing was carried and nothing is shifted
  · have digits : r.log2 < 53 := by
      by_cases none : r = 0
      · rw [none, Nat.log2_zero]
        decide
      · exact (Nat.log2_lt none).2 less
    have stays : (max (r.log2 + 1 + e - 53) (-1074) - e).toNat = 0 := by omega
    rw [stays, (residue_shiftRight r 0).mantissa, Nat.pow_zero, Nat.div_one]
    refine ⟨⟨by omega, less, fun narrow => ?_⟩, by omega⟩
    have := wide narrow
    omega
  · have digits : Nat.log2 (2 ^ 53) = 53 := Nat.log2_two_pow
    have moves : (max ((Nat.log2 (2 ^ 53) : Int) + 1 + e - 53) (-1074) - e).toNat = 1 := by
      rw [digits]
      omega
    rw [moves, (residue_shiftRight _ 1).mantissa]
    exact ⟨⟨by omega, by decide, fun narrow => absurd narrow (by decide)⟩, by omega⟩

/-- The first shift brings the last digit that is kept to the unit. -/
theorem shift_to_unit {m : Nat} (nonzero : m ≠ 0) {low j v : Nat} (value : m * 2 ^ j = v)
    (coarse : j ≤ unit low v) :
    shiftToTargetExponent Format.binary64 m (j - (low + 1074)) .exact =
      (ExtendedMantissa.ofMantissaAndAccuracy m .exact >>> (unit low v - j),
        (unit low v : Int) - (low + 1074)) := by
  have shift : ((unit low v : Int) - (low + 1074) - (j - (low + 1074))).toNat =
      unit low v - j := by omega
  have exponent : (j : Int) - (low + 1074) + (unit low v - j : Nat) =
      unit low v - (low + 1074) := by omega
  unfold shiftToTargetExponent shiftToExponent
  rw [targetExponent_unit nonzero, value]
  dsimp only
  rw [shift, exponent]

theorem nearestMultiple_carried (low v : Nat) :
    let carried := shiftToTargetExponent Format.binary64 (nearestMultiple v (unit low v))
      ((unit low v : Int) - (low + 1074)) .exact
    Representable carried.1.mantissa carried.2 ∧
      (carried.2 + 1074) * 2 ^ 52 + carried.1.mantissa = roundedPlace low v := by
  have above : low ≤ unit low v := Nat.le_max_right _ _
  have narrow := div_unit_lt low v
  have bounds := nearestMultiple_bounds v (unit low v)
  have wide : nearestMultiple v (unit low v) < 2 ^ 52 →
      (unit low v : Int) - (low + 1074) = -1074 := by
    intro less
    rcases Nat.lt_or_eq_of_le above with lt | same
    · have := le_div_unit lt
      omega
    · omega
  have same : ((unit low v : Int) - (low + 1074) + 1074) * 2 ^ 52 +
      nearestMultiple v (unit low v) = roundedPlace low v := by
    unfold roundedPlace
    omega
  rw [← same]
  exact shift_carried (by omega) (by omega) wide

theorem roundWithAccuracy_eq {m : Nat} (nonzero : m ≠ 0) (s : Sign) {low j v : Nat}
    (value : m * 2 ^ j = v) (coarse : j ≤ unit low v) :
    let f := roundWithAccuracy Format.binary64 s m (j - (low + 1074)) .exact
    Rounded f ∧ place? f = some (s.apply (roundedPlace low v)) := by
  have scaled := nearestMultiple_mul_two_pow m (unit low v - j) j
  rw [value, Nat.sub_add_cancel coarse] at scaled
  obtain ⟨representable, place⟩ := nearestMultiple_carried low v
  unfold roundWithAccuracy
  rw [shift_to_unit nonzero value coarse]
  dsimp only
  rw [(residue_shiftRight m (unit low v - j)).rounded, ← scaled]
  split
  · rename_i none
    rw [none] at place representable
    have zero : (roundedPlace low v : Int) = 0 := by
      rw [← place, representable.subnormal (by decide)]
      rfl
    refine ⟨trivial, ?_⟩
    rw [zero]
    cases s <;> rfl
  · exact ⟨representable, by rw [place?, place]⟩

theorem round_eq {m : Nat} (nonzero : m ≠ 0) (s : Sign) {low j v : Nat} (value : m * 2 ^ j = v) :
    let f := UnpackedFloat.round Format.binary64 s m (j - (low + 1074))
    Rounded f ∧ place? f = some (s.apply (roundedPlace low v)) := by
  unfold UnpackedFloat.round decreaseExponent
  rw [targetExponent_unit nonzero, value]
  dsimp only
  rcases Nat.le_total j (unit low v) with coarse | fine
  · have stays : ((j : Int) - (low + 1074) - (unit low v - (low + 1074))).toNat = 0 := by omega
    rw [stays, Nat.shiftLeft_zero, Int.natCast_zero, Int.sub_zero]
    exact roundWithAccuracy_eq nonzero s value coarse
  · have shift : ((j : Int) - (low + 1074) - (unit low v - (low + 1074))).toNat =
        j - unit low v := by omega
    have exponent : (j : Int) - (low + 1074) - (j - unit low v : Nat) =
        unit low v - (low + 1074) := by omega
    have power : 0 < 2 ^ (j - unit low v) := Nat.two_pow_pos _
    rw [shift, exponent, Nat.shiftLeft_eq]
    refine roundWithAccuracy_eq (Nat.mul_ne_zero nonzero (Nat.ne_of_gt power)) s ?_
      (Nat.le_refl _)
    rw [Nat.mul_assoc, ← Nat.pow_add, Nat.sub_add_cancel fine, value]

def clamp (i : Int) : Int := max (-(2047 * 2 ^ 52)) (min (2047 * 2 ^ 52) i)

theorem clamp_mono {i j : Int} (le : i ≤ j) : clamp i ≤ clamp j := by
  unfold clamp
  omega

theorem toNat_append (m n : Nat) (b : BitVec m) (b' : BitVec n) :
    (b ++ b').toNat = b.toNat * 2 ^ n + b'.toNat := by
  rw [BitVec.toNat_append, ← Nat.shiftLeft_add_eq_or_of_lt b'.isLt, Nat.shiftLeft_eq]

theorem toNat_packComponents (s : Sign) (e : BitVec 11) (m : BitVec 52) :
    (packComponents Format.binary64 s e m).toNat =
      (s.toBitVec.toNat * 2 ^ 11 + e.toNat) * 2 ^ 52 + m.toNat := by
  unfold packComponents
  rw [toNat_append, toNat_append]

theorem place_packComponents (s : Sign) (e : BitVec 11) (m : BitVec 52)
    (number : e.toNat * 2 ^ 52 + m.toNat ≤ 2047 * 2 ^ 52) :
    place? (UnpackedFloat.unpack Format.binary64 (packComponents Format.binary64 s e m)) =
      some (s.apply (e.toNat * 2 ^ 52 + m.toNat : Nat)) := by
  have bits := toNat_packComponents s e m
  rw [(unpack_eq _).2, bits]
  cases s with
  | positive =>
    have sign : Sign.positive.toBitVec.toNat = 0 := rfl
    rw [sign, if_neg (by omega), if_pos (by omega), Sign.apply]
    refine congrArg _ ?_
    omega
  | negative =>
    have sign : Sign.negative.toBitVec.toNat = 1 := rfl
    rw [sign, if_neg (by omega), if_neg (by omega), Sign.apply]
    refine congrArg _ ?_
    omega

theorem place_packedInfinity (s : Sign) :
    place? (UnpackedFloat.unpack Format.binary64 (packedInfinity Format.binary64 s)) =
      some (s.apply (2047 * 2 ^ 52)) := by
  unfold packedInfinity
  rw [place_packComponents s _ _ (by decide)]
  rfl

theorem place_pack {f : UnpackedFloat} (rounded : Rounded f) {i : Int} (there : place? f = some i) :
    place? (Float.Model.pack f).unpack = some (clamp i) := by
  change place? (UnpackedFloat.unpack Format.binary64 (UnpackedFloat.pack Format.binary64 f)) = _
  cases f with
  | notANumber => cases there
  | infinity s =>
    cases there
    rw [UnpackedFloat.pack, place_packedInfinity]
    cases s <;> decide
  | zero s =>
    cases there
    rw [UnpackedFloat.pack, packedZero, place_packComponents s _ _ (by decide)]
    cases s <;> decide
  | finite s m e pos =>
    cases there
    obtain ⟨least, fits, subnormal⟩ := rounded
    have bias : (Format.binary64.exponentBias : Int) = 1023 := rfl
    have digits : Format.binary64.mantissaBits = 53 := rfl
    have nonzero : m ≠ 0 := Nat.ne_of_gt pos
    rw [UnpackedFloat.pack]
    simp only [bias, digits]
    by_cases large : 2 ^ 11 ≤ (e + 1023 + (52 : Nat)).toNat + 1
    · rw [if_pos large, place_packedInfinity]
      cases s <;> simp only [Sign.apply, clamp] <;> refine congrArg _ ?_ <;> omega
    · rw [if_neg large]
      by_cases normal : m.log2 + 1 = 53
      · -- the leading bit is left out, and the exponent stands for it
        have wide := Nat.log2_self_le nonzero
        rw [Nat.succ.inj normal] at wide
        have exponent : (BitVec.ofNat 11 (e + 1023 + (52 : Nat)).toNat).toNat =
            (e + 1023 + (52 : Nat)).toNat := by
          rw [BitVec.toNat_ofNat, Nat.mod_eq_of_lt (by omega)]
        have mantissa : (BitVec.ofNat 52 m).toNat = m - 2 ^ 52 := by
          rw [BitVec.toNat_ofNat]
          omega
        rw [if_pos normal, place_packComponents _ _ _ (by omega), exponent, mantissa]
        cases s <;> simp only [Sign.apply, clamp] <;> refine congrArg _ ?_ <;> omega
      · have narrow : m < 2 ^ 52 := by
          have digits := (Nat.log2_lt nonzero).2 fits
          exact (Nat.log2_lt nonzero).1 (by omega)
        have exponent : (0#11).toNat = 0 := rfl
        have mantissa : (BitVec.ofNat 52 m).toNat = m := by
          rw [BitVec.toNat_ofNat, Nat.mod_eq_of_lt narrow]
        have lowest := subnormal narrow
        rw [if_neg normal, place_packComponents _ _ _ (by omega), exponent, mantissa]
        cases s <;> simp only [Sign.apply, clamp] <;> refine congrArg _ ?_ <;> omega

end Double

end RankedRetrieval
