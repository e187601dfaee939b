import RankedRetrieval.Proofs.Score.Likelihood

set_option autoImplicit false

namespace RankedRetrieval.Bm25

structure Regular (m : Bm25 ℝ) : Prop where
  k1_nonneg : 0 ≤ m.k1
  b_nonneg : 0 ≤ m.b
  b_le_one : m.b ≤ 1

variable {m : Bm25 ℝ} {count count' length length' : Nat}

section Numerals

theorem one_real : (1.0 : ℝ) = 1 := by norm_num

theorem half_real : (0.5 : ℝ) = 1 / 2 := by norm_num

theorem smallest_pos : (0 : ℝ) < 2.2250738585072014e-308 := by
  have place : (0 : ℚ) < Rat.ofScientific 22250738585072014 true 324 := by decide +kernel
  exact Rat.cast_pos.2 place

end Numerals

section Gain

theorem idf_eq (m : Bm25 ℝ) :
    m.idf = Real.log ((m.field.documentCount + 1) / (m.term.documentFrequency + 1 / 2)) := by
  have positive : (m.term.documentFrequency : ℝ) + 1 / 2 ≠ 0 := by positivity
  have same : (1.0 : ℝ) + (m.field.documentCount - m.term.documentFrequency + 0.5) /
      (m.term.documentFrequency + 0.5) =
        (m.field.documentCount + 1) / (m.term.documentFrequency + 1 / 2) := by
    rw [one_real, half_real]
    field_simp
    ring
  exact congrArg Real.log same

/-- The gain is negative where the term occurs in more documents than are listed. -/
theorem idf_nonneg_iff : 0 ≤ m.idf ↔ m.term.documentFrequency ≤ m.field.documentCount := by
  have positive : (0 : ℝ) < m.term.documentFrequency + 1 / 2 := by positivity
  rw [idf_eq, Real.log_nonneg_iff (by positivity), one_le_div₀ positive]
  constructor
  · intro le
    by_contra more
    have more : (m.field.documentCount : ℝ) + 1 ≤ m.term.documentFrequency := by
      exact_mod_cast Nat.lt_of_not_le more
    linarith
  · intro le
    have le : (m.term.documentFrequency : ℝ) ≤ m.field.documentCount := by exact_mod_cast le
    linarith

end Gain

section Saturation

theorem averageLength_pos (m : Bm25 ℝ) : 0 < m.averageLength := by
  unfold averageLength
  split
  · exact lt_max_of_lt_right smallest_pos
  · norm_num

/-- What a count is held against: the more, the longer the document. -/
noncomputable def norm (m : Bm25 ℝ) (length : Nat) : ℝ :=
  m.k1 * (1 - m.b + m.b * length / m.averageLength)

noncomputable def saturation (m : Bm25 ℝ) (count length : Nat) : ℝ :=
  count / (count + m.norm length)

theorem score_eq (m : Bm25 ℝ) (count length : Nat) :
    m.score count length = m.idf * (m.k1 + 1) * m.saturation count length := by
  unfold score
  split
  · rename_i absent
    rw [absent, saturation, Nat.cast_zero, zero_div, mul_zero]
    norm_num
  · change m.idf * count * (m.k1 + 1.0) /
      (count + m.k1 * (1.0 - m.b + m.b * length / m.averageLength)) = _
    rw [one_real, saturation, norm]
    ring

theorem norm_nonneg (regular : m.Regular) : 0 ≤ m.norm length := by
  have share : 0 ≤ m.b * length / m.averageLength :=
    div_nonneg (mul_nonneg regular.b_nonneg (Nat.cast_nonneg _)) m.averageLength_pos.le
  have rest := regular.b_le_one
  refine mul_nonneg regular.k1_nonneg ?_
  linarith

theorem norm_mono (regular : m.Regular) (longer : length ≤ length') :
    m.norm length ≤ m.norm length' := by
  have longer : (length : ℝ) ≤ length' := by exact_mod_cast longer
  refine mul_le_mul_of_nonneg_left (add_le_add_right ?_ _) regular.k1_nonneg
  exact div_le_div_of_nonneg_right (mul_le_mul_of_nonneg_left longer regular.b_nonneg)
    m.averageLength_pos.le

theorem saturation_nonneg (regular : m.Regular) : 0 ≤ m.saturation count length :=
  div_nonneg (Nat.cast_nonneg _) (add_nonneg (Nat.cast_nonneg _) (norm_nonneg regular))

theorem saturation_pos (regular : m.Regular) (occurs : 0 < count) :
    0 < m.saturation count length := by
  have occurs : (0 : ℝ) < count := by exact_mod_cast occurs
  exact div_pos occurs (add_pos_of_pos_of_nonneg occurs (norm_nonneg regular))

theorem saturation_le_iff (regular : m.Regular) (occurs : 0 < count) (occurs' : 0 < count') :
    m.saturation count length ≤ m.saturation count' length' ↔
      count * m.norm length' ≤ count' * m.norm length := by
  have occurs : (0 : ℝ) < count := by exact_mod_cast occurs
  have occurs' : (0 : ℝ) < count' := by exact_mod_cast occurs'
  rw [saturation, saturation,
    div_le_div_iff₀ (add_pos_of_pos_of_nonneg occurs (norm_nonneg regular))
      (add_pos_of_pos_of_nonneg occurs' (norm_nonneg regular))]
  rw [mul_add, mul_add, mul_comm (count' : ℝ) count, add_le_add_iff_left]

theorem saturation_zero (m : Bm25 ℝ) (length : Nat) : m.saturation 0 length = 0 := by
  rw [saturation, Nat.cast_zero, zero_div]

theorem saturation_mono (regular : m.Regular) (more : count ≤ count') (shorter : length' ≤ length) :
    m.saturation count length ≤ m.saturation count' length' := by
  rcases Nat.eq_zero_or_pos count with rfl | occurs
  · rw [saturation_zero]
    exact saturation_nonneg regular
  · rw [saturation_le_iff regular occurs (Nat.lt_of_lt_of_le occurs more)]
    exact mul_le_mul (by exact_mod_cast more) (norm_mono regular shorter) (norm_nonneg regular)
      (Nat.cast_nonneg _)

/-- What is added to a document counts for more than it adds to the norm. -/
theorem saturation_le_add (regular : m.Regular) (room : count ≤ length) (added : Nat) :
    m.saturation count length ≤ m.saturation (count + added) (length + added) := by
  rcases Nat.eq_zero_or_pos count with rfl | occurs
  · rw [saturation_zero]
    exact saturation_nonneg regular
  rw [saturation_le_iff regular occurs (Nat.add_pos_left occurs added)]
  have grown : m.norm (length + added) = m.norm length + m.k1 * m.b * added / m.averageLength := by
    unfold norm
    push_cast
    ring
  have part : count * (m.k1 * m.b * added / m.averageLength) ≤ added * m.norm length := by
    have room : (count : ℝ) ≤ length := by exact_mod_cast room
    have least : m.k1 * m.b * length / m.averageLength ≤ m.norm length := by
      have rest : 0 ≤ m.k1 * (1 - m.b) :=
        mul_nonneg regular.k1_nonneg (sub_nonneg.2 regular.b_le_one)
      have split : m.norm length =
          m.k1 * (1 - m.b) + m.k1 * m.b * length / m.averageLength := by
        unfold norm
        ring
      linarith
    calc count * (m.k1 * m.b * added / m.averageLength)
        = added * (m.k1 * m.b * count / m.averageLength) := by ring
      _ ≤ added * (m.k1 * m.b * length / m.averageLength) := by
          refine mul_le_mul_of_nonneg_left ?_ (Nat.cast_nonneg _)
          refine div_le_div_of_nonneg_right ?_ m.averageLength_pos.le
          exact mul_le_mul_of_nonneg_left room (mul_nonneg regular.k1_nonneg regular.b_nonneg)
      _ ≤ added * m.norm length := mul_le_mul_of_nonneg_left least (Nat.cast_nonneg _)
  rw [grown, mul_add]
  push_cast
  linarith

theorem rewards_saturation (regular : m.Regular) : Rewards m.saturation :=
  ⟨saturation_mono regular, saturation_le_add regular⟩

end Saturation

section Bounds

theorem scale_pos (regular : m.Regular) : 0 < m.k1 + 1 :=
  add_pos_of_nonneg_of_pos regular.k1_nonneg one_pos

theorem score_nonneg_iff (regular : m.Regular) :
    0 ≤ m.score count length ↔
      m.term.documentFrequency ≤ m.field.documentCount ∨ count = 0 := by
  rw [← idf_nonneg_iff, score_eq]
  rcases Nat.eq_zero_or_pos count with rfl | occurs
  · rw [saturation_zero, mul_zero]
    exact ⟨fun _ => .inr rfl, fun _ => le_refl 0⟩
  · rw [mul_nonneg_iff_of_pos_right (saturation_pos regular occurs),
      mul_nonneg_iff_of_pos_right (scale_pos regular)]
    exact ⟨.inl, fun h => h.resolve_right (Nat.ne_of_gt occurs)⟩

theorem lower_le_score_iff (regular : m.Regular) :
    m.bounds.lower ≤ m.score count length ↔
      m.term.documentFrequency ≤ m.field.documentCount ∨ count = 0 := by
  have lower : m.bounds.lower = 0 := by norm_num [bounds]
  rw [lower, score_nonneg_iff regular]

theorem score_le_upper (regular : m.Regular) (h : m.lengths.Fits m.term count length) :
    m.score count length ≤ m.bounds.upper := by
  have upper : m.bounds.upper =
      max (m.score m.term.maxCount (m.lengths.best m.term.maxCount)) 0.0 := rfl
  rw [upper]
  rcases Nat.eq_zero_or_pos count with rfl | occurs
  · exact (if_pos rfl : m.score 0 length = 0.0).le.trans (le_max_right _ _)
  by_cases gain : 0 ≤ m.idf
  · refine le_max_of_le_left ?_
    rw [score_eq, score_eq]
    exact mul_le_mul_of_nonneg_left ((rewards_saturation regular).le_best h (h.listed occurs))
      (mul_nonneg gain (scale_pos regular).le)
  · refine le_max_of_le_right ?_
    have share : 0 ≤ m.saturation count length := saturation_nonneg regular
    have loss : m.idf * (m.k1 + 1) ≤ 0 :=
      mul_nonpos_of_nonpos_of_nonneg (le_of_not_ge gain) (scale_pos regular).le
    rw [score_eq]
    exact (mul_nonpos_of_nonpos_of_nonneg loss share).trans (by norm_num)

end Bounds

end RankedRetrieval.Bm25
