import RankedRetrieval.Proofs.Score.Rounding

set_option autoImplicit false

namespace RankedRetrieval

open Arithmetic

section Double

open Float.Model UnpackedFloat

def units : UnpackedFloat → Int
  | .finite s m e _ => s.apply (m * 2 ^ (e + 1074).toNat : Nat)
  | _ => 0

theorem units_zero (s : Sign) : units (.zero s) = 0 := rfl

def roundedCount (low : Nat) (v : Int) : Int :=
  if 0 ≤ v then roundedPlace low v.toNat else -roundedPlace low (-v).toNat

theorem roundedCount_mono (low : Nat) {v v' : Int} (le : v ≤ v') :
    roundedCount low v ≤ roundedCount low v' := by
  unfold roundedCount
  split
  · rw [if_pos (by omega)]
    have := roundedPlace_mono low (Int.toNat_le_toNat le)
    omega
  · split
    · omega
    · have := roundedPlace_mono low (Int.toNat_le_toNat (Int.neg_le_neg le))
      omega

theorem roundedPlace_zero (low : Nat) : roundedPlace low 0 = 0 := by
  have least : unit low 0 = low := by
    unfold unit
    rw [Nat.log2_zero]
    omega
  have none : nearestMultiple 0 low = 0 := by
    unfold nearestMultiple
    rw [Nat.zero_mod, Nat.zero_div, if_pos (Nat.two_pow_pos low)]
  rw [roundedPlace, least, none]
  omega

theorem roundedCount_natCast (low v : Nat) : roundedCount low v = roundedPlace low v := by
  rw [roundedCount, if_pos (Int.natCast_nonneg v), Int.toNat_natCast]

theorem roundedCount_zero (low : Nat) : roundedCount low 0 = 0 :=
  (roundedCount_natCast low 0).trans (congrArg Int.ofNat (roundedPlace_zero low))

theorem roundedCount_neg (low v : Nat) : roundedCount low (-v) = -roundedPlace low v := by
  by_cases none : v = 0
  · rw [none, roundedPlace_zero]
    exact roundedCount_zero low
  · rw [roundedCount, if_neg (by omega), Int.neg_neg, Int.toNat_natCast]

theorem roundedCount_apply (low : Nat) (s : Sign) (v : Nat) :
    roundedCount low (s.apply v) = s.apply (roundedPlace low v) := by
  cases s with
  | negative => exact roundedCount_neg low v
  | positive => exact roundedCount_natCast low v

theorem roundedPlace_representable {m : Nat} {e : Int} (pos : 0 < m) (h : Representable m e) :
    roundedPlace 0 (m * 2 ^ (e + 1074).toNat) = (e + 1074) * 2 ^ 52 + m := by
  obtain ⟨least, fits, subnormal⟩ := h
  have nonzero : m ≠ 0 := Nat.ne_of_gt pos
  have digits := (Nat.log2_lt nonzero).2 fits
  have scaled := nearestMultiple_mul_two_pow m 0 (e + 1074).toNat
  rw [Nat.zero_add, nearestMultiple_zero] at scaled
  have same : unit 0 (m * 2 ^ (e + 1074).toNat) = (e + 1074).toNat := by
    unfold unit
    rw [log2_mul_two_pow nonzero]
    by_cases narrow : m < 2 ^ 52
    · have := subnormal narrow
      omega
    · have := (Nat.le_log2 nonzero).2 (Nat.le_of_not_lt narrow)
      omega
  rw [roundedPlace, same, scaled]
  omega

theorem place_eq_roundedCount {x : UnpackedFloat} (canonical : Canonical x)
    (finite : x.isFinite = true) : place? x = some (roundedCount 0 (units x)) := by
  cases x with
  | notANumber => cases finite
  | infinity s => cases finite
  | zero s => exact congrArg some (roundedCount_zero 0).symm
  | finite s m e pos =>
    rw [place?, units, roundedCount_apply, roundedPlace_representable pos canonical.1]

theorem count_mono {m m' : Nat} {e e' : Int} (h : Representable m e) (h' : Representable m' e')
    (le : (e + 1074) * 2 ^ 52 + m ≤ (e' + 1074) * 2 ^ 52 + m') :
    m * 2 ^ (e + 1074).toNat ≤ m' * 2 ^ (e' + 1074).toNat := by
  obtain ⟨least, fits, _⟩ := h
  obtain ⟨least', fits', subnormal'⟩ := h'
  rcases Int.lt_trichotomy e e' with lt | rfl | gt
  · have wide : 2 ^ 52 ≤ m' := by omega
    have exponent : (e + 1074).toNat + 1 ≤ (e' + 1074).toNat := by omega
    calc m * 2 ^ (e + 1074).toNat
        ≤ 2 ^ 53 * 2 ^ (e + 1074).toNat := Nat.mul_le_mul_right _ (Nat.le_of_lt fits)
      _ = 2 ^ 52 * 2 ^ ((e + 1074).toNat + 1) := by rw [Nat.pow_succ]; omega
      _ ≤ m' * 2 ^ (e' + 1074).toNat :=
        Nat.mul_le_mul wide (Nat.pow_le_pow_right (by decide) exponent)
  · exact Nat.mul_le_mul_right _ (by omega)
  · omega

theorem units_mono {x y : UnpackedFloat} (hx : Canonical x) (hy : Canonical y)
    (finite : x.isFinite = true) (finite' : y.isFinite = true) {i j : Int}
    (px : place? x = some i) (py : place? y = some j) (le : i ≤ j) : units x ≤ units y := by
  cases x with
  | notANumber => cases finite
  | infinity s => cases finite
  | zero s =>
    cases px
    cases y with
    | notANumber => cases finite'
    | infinity s' => cases finite'
    | zero s' => exact Int.le_refl 0
    | finite s' m' e' pos' =>
      cases py
      have least' := hy.1.least
      cases s' with
      | negative =>
        simp only [Sign.apply] at le
        omega
      | positive => exact Int.natCast_nonneg _
  | finite s m e pos =>
    cases px
    have least := hx.1.least
    cases y with
    | notANumber => cases finite'
    | infinity s' => cases finite'
    | zero s' =>
      cases py
      cases s with
      | negative => exact Int.neg_nonpos_of_nonneg (Int.natCast_nonneg _)
      | positive =>
        simp only [Sign.apply] at le
        omega
    | finite s' m' e' pos' =>
      cases py
      have least' := hy.1.least
      cases s <;> cases s' <;> simp only [units, Sign.apply] at le ⊢
      · exact Int.neg_le_neg (Int.ofNat_le.2 (count_mono hy.1 hx.1 (by omega)))
      · exact Int.le_trans (Int.neg_nonpos_of_nonneg (Int.natCast_nonneg _)) (Int.natCast_nonneg _)
      · omega
      · exact Int.ofNat_le.2 (count_mono hx.1 hy.1 le)

theorem apply_mul (s : Sign) (v w : Int) : s.apply v * w = s.apply (v * w) := by
  cases s with
  | negative => exact Int.neg_mul v w
  | positive => rfl

theorem apply_mul_apply (s s' : Sign) (v w : Int) :
    s.apply v * s'.apply w = (s * s').apply (v * w) := by
  cases s <;> cases s'
  · exact Int.neg_mul_neg v w
  · exact Int.neg_mul v w
  · exact Int.mul_neg v w
  · rfl

theorem normalize_eq (low j : Nat) (m : Int) {v : Int} (value : m * 2 ^ j = v) :
    let f := UnpackedFloat.normalize Format.binary64 m (j - (low + 1074)) .positive
    Rounded f ∧ place? f = some (roundedCount low v) := by
  subst value
  unfold UnpackedFloat.normalize
  rcases Int.lt_trichotomy m 0 with below | rfl | above
  · obtain ⟨k, rfl⟩ : ∃ k : Nat, m = -k := ⟨(-m).toNat, by omega⟩
    have count : -(k : Int) * 2 ^ j = -((k * 2 ^ j : Nat) : Int) := by
      rw [Int.neg_mul, Int.natCast_mul, Int.natCast_pow]
      rfl
    rw [Int.compare_eq_lt.2 below, count, roundedCount_neg, Int.neg_neg, Int.toNat_natCast]
    exact round_eq (by omega) .negative rfl
  · rw [Int.compare_eq_eq.2 rfl, Int.zero_mul, roundedCount_zero]
    exact ⟨trivial, rfl⟩
  · obtain ⟨k, rfl⟩ : ∃ k : Nat, m = k := ⟨m.toNat, by omega⟩
    have count : (k : Int) * 2 ^ j = (k * 2 ^ j : Nat) := by
      rw [Int.natCast_mul, Int.natCast_pow]
      rfl
    rw [Int.compare_eq_gt.2 above, count, roundedCount_natCast, Int.toNat_natCast]
    exact round_eq (by omega) .positive rfl

theorem units_shifted (s : Sign) {m : Nat} {e : Int} (pos : 0 < m) {k : Int} (least : -1074 ≤ k)
    (le : k ≤ e) :
    s.apply (m <<< (e - k).toNat : Nat) * 2 ^ (k + 1074).toNat = units (.finite s m e pos) := by
  have exponent : (e - k).toNat + (k + 1074).toNat = (e + 1074).toNat := by omega
  have count : m <<< (e - k).toNat * 2 ^ (k + 1074).toNat = m * 2 ^ (e + 1074).toNat := by
    rw [Nat.shiftLeft_eq, Nat.mul_assoc, ← Nat.pow_add, exponent]
  rw [apply_mul, units, ← count, Int.natCast_mul, Int.natCast_pow]
  rfl

/-- The sum of finite doubles is their rounded count. -/
theorem add_eq {x y : UnpackedFloat} (hx : Canonical x) (hy : Canonical y)
    (finite : x.isFinite = true) (finite' : y.isFinite = true) :
    let f := UnpackedFloat.add Format.binary64 x y
    Rounded f ∧ place? f = some (roundedCount 0 (units x + units y)) := by
  cases x with
  | notANumber => cases finite
  | infinity s => cases finite
  | zero s =>
    cases y with
    | notANumber => cases finite'
    | infinity s' => cases finite'
    | zero s' =>
      have zero := congrArg some (roundedCount_zero 0)
      cases s <;> cases s' <;> exact ⟨trivial, zero.symm⟩
    | finite s' m' e' pos' =>
      rw [units_zero, Int.zero_add]
      exact ⟨hy.rounded, place_eq_roundedCount hy finite'⟩
  | finite s m e pos =>
    cases y with
    | notANumber => cases finite'
    | infinity s' => cases finite'
    | zero s' =>
      rw [units_zero, Int.add_zero]
      exact ⟨hx.rounded, place_eq_roundedCount hx finite⟩
    | finite s' m' e' pos' =>
      have least : -1074 ≤ min e e' := Int.le_min.2 ⟨hx.1.least, hy.1.least⟩
      have count := units_shifted s pos least (Int.min_le_left e e')
      have count' := units_shifted s' pos' least (Int.min_le_right e e')
      have exponent : ((min e e' + 1074).toNat : Int) - ((0 : Nat) + 1074) = min e e' := by omega
      have sum := normalize_eq 0 (min e e' + 1074).toNat
        (s.apply (m <<< (e - min e e').toNat : Nat) +
          s'.apply (m' <<< (e' - min e e').toNat : Nat)) rfl
      rw [Int.add_mul, count, count', exponent] at sum
      exact sum

/-- A product of few digits is one of subnormal numbers, far below the least exponent. -/
theorem le_unit_mul {m m' : Nat} {e e' : Int} (pos : 0 < m) (pos' : 0 < m')
    (h : Representable m e) (h' : Representable m' e') :
    (e + 1074).toNat + (e' + 1074).toNat ≤
      unit 1074 (m * m' * 2 ^ ((e + 1074).toNat + (e' + 1074).toNat)) := by
  obtain ⟨least, _, subnormal⟩ := h
  obtain ⟨least', _, subnormal'⟩ := h'
  have nonzero : m * m' ≠ 0 := Nat.ne_of_gt (Nat.mul_pos pos pos')
  rw [unit, log2_mul_two_pow nonzero]
  by_cases narrow : m * m' < 2 ^ 52
  · have small : m < 2 ^ 52 := Nat.lt_of_le_of_lt (Nat.le_mul_of_pos_right m pos') narrow
    have small' : m' < 2 ^ 52 := Nat.lt_of_le_of_lt (Nat.le_mul_of_pos_left m' pos) narrow
    have := subnormal small
    have := subnormal' small'
    omega
  · have := (Nat.le_log2 nonzero).2 (Nat.le_of_not_lt narrow)
    omega

/-- The product of finite doubles is their rounded count, in smaller units. -/
theorem mul_eq {x y : UnpackedFloat} (hx : Canonical x) (hy : Canonical y)
    (finite : x.isFinite = true) (finite' : y.isFinite = true) :
    let f := UnpackedFloat.mul Format.binary64 x y
    Rounded f ∧ place? f = some (roundedCount 1074 (units x * units y)) := by
  cases x with
  | notANumber => cases finite
  | infinity s => cases finite
  | zero s =>
    rw [units_zero, Int.zero_mul, roundedCount_zero]
    cases y with
    | notANumber => cases finite'
    | infinity s' => cases finite'
    | zero s' => exact ⟨trivial, rfl⟩
    | finite s' m' e' pos' => exact ⟨trivial, rfl⟩
  | finite s m e pos =>
    cases y with
    | notANumber => cases finite'
    | infinity s' => cases finite'
    | zero s' =>
      rw [units_zero, Int.mul_zero, roundedCount_zero]
      exact ⟨trivial, rfl⟩
    | finite s' m' e' pos' =>
      have nonzero : m * m' ≠ 0 := Nat.ne_of_gt (Nat.mul_pos pos pos')
      have least := hx.1.least
      have least' := hy.1.least
      have exponent : (((e + 1074).toNat + (e' + 1074).toNat : Nat) : Int) -
          ((1074 : Nat) + 1074) = e + e' := by omega
      have count : m * m' * 2 ^ ((e + 1074).toNat + (e' + 1074).toNat) =
          m * 2 ^ (e + 1074).toNat * (m' * 2 ^ (e' + 1074).toNat) := by
        rw [Nat.pow_add, Nat.mul_mul_mul_comm]
      have coarse := le_unit_mul pos pos' hx.1 hy.1
      rw [count] at coarse
      have product := roundWithAccuracy_eq nonzero (s * s') count coarse
      rw [exponent] at product
      rw [units, units, apply_mul_apply, ← Int.natCast_mul, roundedCount_apply]
      exact product

theorem place_of_isFinite {x : UnpackedFloat} (h : Canonical x) (finite : x.isFinite = true)
    {i : Int} (there : place? x = some i) : -(2047 * 2 ^ 52) < i ∧ i < 2047 * 2 ^ 52 := by
  cases x with
  | notANumber => cases finite
  | infinity s => cases finite
  | zero s => cases there; decide
  | finite s m e pos =>
    cases there
    obtain ⟨⟨least, fits, _⟩, most⟩ := h
    cases s <;> simp only [Sign.apply] <;> omega

theorem place_bounds {x : UnpackedFloat} (h : Canonical x) {i : Int} (there : place? x = some i) :
    -(2047 * 2 ^ 52) ≤ i ∧ i ≤ 2047 * 2 ^ 52 := by
  by_cases finite : x.isFinite = true
  · have := place_of_isFinite h finite there
    omega
  · cases x with
    | notANumber => cases there
    | infinity s => cases there; cases s <;> decide
    | zero s => exact absurd rfl finite
    | finite s m e pos => exact absurd rfl finite

theorem isFinite_of_le {x y : UnpackedFloat} (hx : Canonical x) (hy : Canonical y) {i j : Int}
    (px : place? x = some i) (py : place? y = some j) (le : i ≤ j)
    (bottom : x ≠ .infinity .negative) (top : y ≠ .infinity .positive) :
    x.isFinite = true ∧ y.isFinite = true := by
  have finite : x.isFinite = true := by
    cases x with
    | notANumber => cases px
    | infinity s =>
      cases s with
      | negative => exact absurd rfl bottom
      | positive =>
        cases px
        cases y with
        | notANumber => cases py
        | infinity s' =>
          cases s' with
          | negative => cases py; exact absurd le (by decide)
          | positive => exact absurd rfl top
        | _ =>
          have := (place_of_isFinite hy rfl py).2
          simp only [Sign.apply] at le
          omega
    | _ => rfl
  refine ⟨finite, ?_⟩
  cases y with
  | notANumber => cases py
  | infinity s' =>
    cases s' with
    | negative =>
      cases py
      have := (place_of_isFinite hx finite px).1
      simp only [Sign.apply] at le
      omega
    | positive => exact absurd rfl top
  | _ => rfl

def packed (f : UnpackedFloat) : Option Int := place? (Float.Model.pack f).unpack

theorem packed_eq {f : UnpackedFloat} {i : Int} (h : Rounded f ∧ place? f = some i) :
    packed f = some (clamp i) := place_pack h.1 h.2

theorem packed_infinity (s : Sign) : packed (.infinity s) = some (s.apply (2047 * 2 ^ 52)) := by
  have rounded : Rounded (.infinity s) := trivial
  rw [packed_eq ⟨rounded, rfl⟩]
  cases s <;> decide

theorem packed_notANumber : packed .notANumber = none := by decide +kernel

theorem packed_bounds {f : UnpackedFloat} {i : Int} (there : packed f = some i) :
    -(2047 * 2 ^ 52) ≤ i ∧ i ≤ 2047 * 2 ^ 52 := place_bounds (unpack_eq _).1 there

theorem eq_of_infinite (s : Sign) {f : UnpackedFloat}
    (infinite : f = .infinity s ∨ f = .notANumber) {i : Int} (there : packed f = some i) :
    i = s.apply (2047 * 2 ^ 52) := by
  rcases infinite with rfl | rfl
  · rw [packed_infinity] at there
    exact (Option.some.inj there).symm
  · rw [packed_notANumber] at there
    cases there

theorem infinity_add (s : Sign) (x : UnpackedFloat) :
    UnpackedFloat.add Format.binary64 (.infinity s) x = .infinity s ∨
      UnpackedFloat.add Format.binary64 (.infinity s) x = .notANumber := by
  cases x with
  | notANumber => exact .inr rfl
  | infinity s' =>
    cases s <;> cases s'
    · exact .inl rfl
    · exact .inr rfl
    · exact .inr rfl
    · exact .inl rfl
  | _ => exact .inl rfl

theorem add_infinity (s : Sign) (x : UnpackedFloat) :
    UnpackedFloat.add Format.binary64 x (.infinity s) = .infinity s ∨
      UnpackedFloat.add Format.binary64 x (.infinity s) = .notANumber := by
  cases x with
  | notANumber => exact .inr rfl
  | infinity s' =>
    cases s <;> cases s'
    · exact .inl rfl
    · exact .inr rfl
    · exact .inr rfl
    · exact .inl rfl
  | _ => exact .inl rfl

theorem add_mono {a b c d : UnpackedFloat} (ha : Canonical a) (hb : Canonical b)
    (hc : Canonical c) (hd : Canonical d) {i j k l : Int} (pa : place? a = some i)
    (pb : place? b = some j) (pc : place? c = some k) (pd : place? d = some l) (le : i ≤ j)
    (le' : k ≤ l) {p q : Int} (sum : packed (UnpackedFloat.add Format.binary64 a c) = some p)
    (sum' : packed (UnpackedFloat.add Format.binary64 b d) = some q) : p ≤ q := by
  have bounds := packed_bounds sum
  have bounds' := packed_bounds sum'
  -- unless the smaller sum is the least or the larger the greatest, no addend is infinite
  by_cases bottom : p = -(2047 * 2 ^ 52)
  · omega
  by_cases top : q = 2047 * 2 ^ 52
  · omega
  have a_above : a ≠ .infinity .negative := by
    rintro rfl
    exact bottom (eq_of_infinite .negative (infinity_add .negative c) sum)
  have b_below : b ≠ .infinity .positive := by
    rintro rfl
    exact top (eq_of_infinite .positive (infinity_add .positive d) sum')
  have c_above : c ≠ .infinity .negative := by
    rintro rfl
    exact bottom (eq_of_infinite .negative (add_infinity .negative a) sum)
  have d_below : d ≠ .infinity .positive := by
    rintro rfl
    exact top (eq_of_infinite .positive (add_infinity .positive b) sum')
  have finite := isFinite_of_le ha hb pa pb le a_above b_below
  have finite' := isFinite_of_le hc hd pc pd le' c_above d_below
  rw [packed_eq (add_eq ha hc finite.1 finite'.1)] at sum
  rw [packed_eq (add_eq hb hd finite.2 finite'.2)] at sum'
  cases sum
  cases sum'
  exact clamp_mono (roundedCount_mono 0 (Int.add_le_add
    (units_mono ha hb finite.1 finite.2 pa pb le)
    (units_mono hc hd finite'.1 finite'.2 pc pd le')))

theorem mul_infinity {w : UnpackedFloat} (hw : Canonical w) {j : Int} (pw : place? w = some j)
    (sign : 0 ≤ j) (s : Sign) :
    UnpackedFloat.mul Format.binary64 w (.infinity s) = .infinity s ∨
      UnpackedFloat.mul Format.binary64 w (.infinity s) = .notANumber := by
  cases w with
  | notANumber => exact .inr rfl
  | zero s' => exact .inr rfl
  | infinity s' =>
    cases pw
    cases s' with
    | negative => exact absurd sign (by decide)
    | positive => cases s <;> exact .inl rfl
  | finite s' m e pos =>
    cases pw
    have least := hw.1.least
    cases s' with
    | negative =>
      simp only [Sign.apply] at sign
      omega
    | positive => cases s <;> exact .inl rfl

theorem infinity_mul {x : UnpackedFloat} (hx : Canonical x) {j : Int} (px : place? x = some j)
    {i : Int}
    (there : packed (UnpackedFloat.mul Format.binary64 (.infinity .positive) x) = some i) :
    (0 < j ∧ i = 2047 * 2 ^ 52) ∨ (j < 0 ∧ i = -(2047 * 2 ^ 52)) := by
  cases x with
  | notANumber => cases px
  | zero s => exact absurd (packed_notANumber.symm.trans there) nofun
  | infinity s =>
    cases px
    cases s with
    | negative => exact .inr ⟨by decide, eq_of_infinite .negative (.inl rfl) there⟩
    | positive => exact .inl ⟨by decide, eq_of_infinite .positive (.inl rfl) there⟩
  | finite s m e pos =>
    cases px
    have least := hx.1.least
    cases s with
    | negative =>
      refine .inr ⟨?_, eq_of_infinite .negative (.inl rfl) there⟩
      simp only [Sign.apply]
      omega
    | positive =>
      refine .inl ⟨?_, eq_of_infinite .positive (.inl rfl) there⟩
      simp only [Sign.apply]
      omega

theorem units_nonneg {w : UnpackedFloat} (hw : Canonical w) (finite : w.isFinite = true) {j : Int}
    (pw : place? w = some j) (sign : 0 ≤ j) : 0 ≤ units w :=
  units_mono (x := .zero .positive) trivial hw rfl finite rfl pw sign

theorem mul_mono {w a b : UnpackedFloat} (hw : Canonical w) (ha : Canonical a) (hb : Canonical b)
    {h i j : Int} (pw : place? w = some h) (pa : place? a = some i) (pb : place? b = some j)
    (sign : 0 ≤ h) (le : i ≤ j) {p q : Int}
    (product : packed (UnpackedFloat.mul Format.binary64 w a) = some p)
    (product' : packed (UnpackedFloat.mul Format.binary64 w b) = some q) : p ≤ q := by
  have bounds := packed_bounds product
  have bounds' := packed_bounds product'
  by_cases infinite : w = .infinity .positive
  · subst infinite
    rcases infinity_mul ha pa product with ⟨_, rfl⟩ | ⟨_, rfl⟩
    · rcases infinity_mul hb pb product' with ⟨_, rfl⟩ | ⟨_, rfl⟩ <;> omega
    · omega
  have weight := isFinite_of_le (x := .zero .positive) trivial hw rfl pw sign
    (fun same => UnpackedFloat.noConfusion same) infinite
  by_cases bottom : p = -(2047 * 2 ^ 52)
  · omega
  by_cases top : q = 2047 * 2 ^ 52
  · omega
  have a_above : a ≠ .infinity .negative := by
    rintro rfl
    exact bottom (eq_of_infinite .negative (mul_infinity hw pw sign .negative) product)
  have b_below : b ≠ .infinity .positive := by
    rintro rfl
    exact top (eq_of_infinite .positive (mul_infinity hw pw sign .positive) product')
  have finite := isFinite_of_le ha hb pa pb le a_above b_below
  rw [packed_eq (mul_eq hw ha weight.2 finite.1)] at product
  rw [packed_eq (mul_eq hw hb weight.2 finite.2)] at product'
  cases product
  cases product'
  exact clamp_mono (roundedCount_mono 1074 (Int.mul_le_mul_of_nonneg_left
    (units_mono ha hb finite.1 finite.2 pa pb le) (units_nonneg hw weight.2 pw sign)))

/-- The arithmetic of doubles is monotone, what is rounded or infinite included. -/
theorem monotone_float : MonotoneArithmetic Float where
  add := by
    intro a b c d le le' number number'
    obtain ⟨i, j, pa, pb, low⟩ := atMost_iff.1 le
    obtain ⟨k, l, pc, pd, low'⟩ := atMost_iff.1 le'
    obtain ⟨p, sum⟩ := isNumber_iff.1 number
    obtain ⟨q, sum'⟩ := isNumber_iff.1 number'
    exact atMost_iff.2 ⟨p, q, sum, sum', add_mono (unpack_eq _).1 (unpack_eq _).1 (unpack_eq _).1
      (unpack_eq _).1 pa pb pc pd low low' sum sum'⟩
  mul := by
    intro w a b positive le number number'
    obtain ⟨_, h, zero, pw, sign⟩ := atMost_iff.1 positive
    obtain rfl := Option.some.inj (placeOf_zero.symm.trans zero)
    obtain ⟨i, j, pa, pb, low⟩ := atMost_iff.1 le
    obtain ⟨p, product⟩ := isNumber_iff.1 number
    obtain ⟨q, product'⟩ := isNumber_iff.1 number'
    exact atMost_iff.2 ⟨p, q, product, product', mul_mono (unpack_eq _).1 (unpack_eq _).1
      (unpack_eq _).1 pw pa pb sign low product product'⟩

end Double

end RankedRetrieval
