import RankedRetrieval.Proofs.Score.Regrouped
import RankedRetrieval.Score.Model

set_option autoImplicit false

namespace RankedRetrieval

/-- A count and a length that are read together are as the statistics and the bounds say. -/
structure LengthBounds.Fits (b : LengthBounds) (term : TermStatistics) (count length : Nat) :
    Prop where
  most : count ≤ term.maxCount
  listed : 0 < count → b.shortest ≤ length
  room : b.countsWithinLength = true → count ≤ length

structure LengthBounds.Matched (b : LengthBounds) (term : TermStatistics)
    (field : FieldStatistics) : Prop where
  unseen : term.collectionFrequency = 0 → term.maxCount = 0
  share : term.collectionFrequency * b.shortest ≤ term.maxCount * field.collectionLength

/-- What grows with the count, falls with the length, and grows when occurrences are added to a
document. -/
structure Rewards (f : Nat → Nat → ℝ) : Prop where
  mono : ∀ {count count' length length' : Nat}, count ≤ count' → length' ≤ length →
    f count length ≤ f count' length'
  add : ∀ {count length : Nat}, count ≤ length → ∀ added : Nat,
    f count length ≤ f (count + added) (length + added)

namespace Rewards

variable {f : Nat → Nat → ℝ} {count count' length : Nat}

theorem le_max (h : Rewards f) (shortest : Nat) (more : count ≤ count') :
    f count (max count shortest) ≤ f count' (max count' shortest) := by
  rcases Nat.le_total count' (max count shortest) with inside | beyond
  · exact h.mono more (Nat.max_le.2 ⟨inside, Nat.le_max_right _ _⟩)
  · have longest : max count' shortest = count' :=
      Nat.max_eq_left ((Nat.le_max_right count shortest).trans beyond)
    calc f count (max count shortest)
        ≤ f (count + (count' - max count shortest))
            (max count shortest + (count' - max count shortest)) :=
          h.add (Nat.le_max_left count shortest) _
      _ ≤ f count' (max count' shortest) := by
          refine h.mono ?_ ?_
          · omega
          · omega

/-- No count beside a length is better than the largest beside the least length it can have. -/
theorem le_best (h : Rewards f) {b : LengthBounds} {term : TermStatistics}
    (fits : b.Fits term count length) (long : b.shortest ≤ length) :
    f count length ≤ f term.maxCount (b.best term.maxCount) := by
  unfold LengthBounds.best
  split
  · rename_i within
    calc f count length
        ≤ f count (max count b.shortest) :=
          h.mono (Nat.le_refl count) (Nat.max_le.2 ⟨fits.room within, long⟩)
      _ ≤ f term.maxCount (max term.maxCount b.shortest) := h.le_max _ fits.most
  · exact h.mono fits.most long

end Rewards

namespace Dirichlet

variable {m : Dirichlet ℝ} {count count' length length' : Nat}

section Background

theorem background_seen (seen : 0 < m.term.collectionFrequency) :
    m.background = min ((m.term.collectionFrequency : ℝ) / (max m.field.collectionLength 1 : ℕ))
      1.0 :=
  if_pos seen

theorem background_unseen (unseen : ¬0 < m.term.collectionFrequency) :
    m.background = 0.5 / (max m.field.collectionLength 1 : ℕ) :=
  if_neg unseen

theorem tokens_pos (m : Dirichlet ℝ) : (1 : ℝ) ≤ (max m.field.collectionLength 1 : ℕ) := by
  exact_mod_cast Nat.le_max_right _ _

theorem background_pos (m : Dirichlet ℝ) : 0 < m.background := by
  have tokens := lt_of_lt_of_le one_pos m.tokens_pos
  by_cases seen : 0 < m.term.collectionFrequency
  · have frequency : (0 : ℝ) < m.term.collectionFrequency := by exact_mod_cast seen
    rw [background_seen seen]
    exact lt_min (div_pos frequency tokens) (by norm_num)
  · rw [background_unseen seen]
    exact div_pos (by norm_num) tokens

theorem background_le_one (m : Dirichlet ℝ) : m.background ≤ 1 := by
  by_cases seen : 0 < m.term.collectionFrequency
  · rw [background_seen seen]
    exact (min_le_right _ _).trans (by norm_num)
  · rw [background_unseen seen]
    exact (div_le_self (by norm_num) m.tokens_pos).trans (by norm_num)

end Background

section Likelihood

theorem likelihood_eq (m : Dirichlet ℝ) (count length : Nat) :
    m.likelihood count length = (count + m.mu * m.background) / (length + m.mu) :=
  rfl

theorem weight_pos (positive : 0 < m.mu) (count : Nat) : 0 < count + m.mu * m.background :=
  add_pos_of_nonneg_of_pos (Nat.cast_nonneg count) (mul_pos positive m.background_pos)

theorem size_pos (positive : 0 < m.mu) (length : Nat) : 0 < length + m.mu :=
  add_pos_of_nonneg_of_pos (Nat.cast_nonneg length) positive

theorem likelihood_pos (positive : 0 < m.mu) : 0 < m.likelihood count length :=
  div_pos (weight_pos positive count) (size_pos positive length)

theorem likelihood_mono (positive : 0 < m.mu) (more : count ≤ count') (shorter : length' ≤ length) :
    m.likelihood count length ≤ m.likelihood count' length' := by
  have more : (count : ℝ) ≤ count' := by exact_mod_cast more
  have shorter : (length' : ℝ) ≤ length := by exact_mod_cast shorter
  refine div_le_div₀ (weight_pos positive count').le ?_ (size_pos positive length') ?_
  · exact add_le_add_left more _
  · exact add_le_add_left shorter _

theorem likelihood_le_iff (positive : 0 < m.mu) :
    m.likelihood count length ≤ m.likelihood count length' ↔ length' ≤ length := by
  rw [likelihood_eq, likelihood_eq, div_le_div_iff_of_pos_left (weight_pos positive count)
    (size_pos positive length) (size_pos positive length'), add_le_add_iff_right, Nat.cast_le]

/-- More occurrences of the term make a document likelier, though they make it longer. -/
theorem likelihood_le_add (positive : 0 < m.mu) (room : count ≤ length) (added : Nat) :
    m.likelihood count length ≤ m.likelihood (count + added) (length + added) := by
  have room : (count : ℝ) ≤ length := by exact_mod_cast room
  have part : m.mu * m.background ≤ m.mu := mul_le_of_le_one_right positive.le m.background_le_one
  have less : (count + m.mu * m.background) * added ≤ (length + m.mu) * added :=
    mul_le_mul_of_nonneg_right (add_le_add room part) (Nat.cast_nonneg added)
  rw [likelihood_eq, likelihood_eq,
    div_le_div_iff₀ (size_pos positive length) (size_pos positive (length + added))]
  push_cast
  linarith

theorem rewards_likelihood (positive : 0 < m.mu) : Rewards m.likelihood :=
  ⟨likelihood_mono positive, likelihood_le_add positive⟩

end Likelihood

section Bounds

/-- A document without any token is no likelier than the best one, if the term occurs at all. -/
theorem background_le_best (positive : 0 < m.mu) (matched : m.lengths.Matched m.term m.field)
    (seen : 0 < m.term.collectionFrequency) :
    m.likelihood 0 0 ≤ m.likelihood m.term.maxCount (m.lengths.best m.term.maxCount) := by
  have share : m.background * m.lengths.shortest ≤ m.term.maxCount := by
    have matched : (m.term.collectionFrequency * m.lengths.shortest : ℝ) ≤
        m.term.maxCount * (max m.field.collectionLength 1 : ℕ) := by
      exact_mod_cast matched.share.trans (Nat.mul_le_mul_left _ (Nat.le_max_left _ _))
    calc m.background * m.lengths.shortest
        ≤ m.term.collectionFrequency / (max m.field.collectionLength 1 : ℕ) * m.lengths.shortest :=
          mul_le_mul_of_nonneg_right (background_seen seen ▸ min_le_left _ _) (Nat.cast_nonneg _)
      _ ≤ m.term.maxCount := by
          rw [div_mul_eq_mul_div, div_le_iff₀ (lt_of_lt_of_le one_pos m.tokens_pos)]
          exact matched
  have best : m.background * m.lengths.best m.term.maxCount ≤ m.term.maxCount := by
    unfold LengthBounds.best
    split
    · rcases le_total m.term.maxCount m.lengths.shortest with more | fewer
      · rw [Nat.max_eq_right more]
        exact share
      · rw [Nat.max_eq_left fewer]
        exact mul_le_of_le_one_left (Nat.cast_nonneg _) m.background_le_one
    · exact share
  rw [likelihood_eq, likelihood_eq, div_le_div_iff₀ (size_pos positive 0) (size_pos positive _)]
  have scaled := mul_le_mul_of_nonneg_left best positive.le
  push_cast
  linarith

theorem score_le_score (positive : 0 < m.mu) :
    m.score count length ≤ m.score count' length' ↔
      m.likelihood count length ≤ m.likelihood count' length' :=
  Real.log_le_log_iff (likelihood_pos positive) (likelihood_pos positive)

theorem lower_le_score (positive : 0 < m.mu) (longest : length ≤ m.field.maxLength) :
    m.bounds.lower ≤ m.score count length :=
  (score_le_score positive).2 (likelihood_mono positive (Nat.zero_le count) longest)

/-- The upper bound of a term that occurs always holds. That of a term that does not occur is for
documents that are not shorter than the shortest. -/
theorem score_le_upper_iff (positive : 0 < m.mu) (matched : m.lengths.Matched m.term m.field)
    (h : m.lengths.Fits m.term count length) :
    m.score count length ≤ m.bounds.upper ↔
      (m.term.collectionFrequency = 0 → m.lengths.shortest ≤ length) := by
  have upper : m.bounds.upper = m.score m.term.maxCount (m.lengths.best m.term.maxCount) := rfl
  rw [upper, score_le_score positive]
  by_cases unseen : m.term.collectionFrequency = 0
  · have none := matched.unseen unseen
    have absent : count = 0 := Nat.le_zero.1 (none ▸ h.most)
    have best : m.lengths.best 0 = m.lengths.shortest := by
      unfold LengthBounds.best
      split
      · exact Nat.zero_max _
      · rfl
    rw [none, best, absent, likelihood_le_iff positive]
    exact ⟨fun long _ => long, fun long => long unseen⟩
  · refine ⟨fun _ none => absurd none unseen, fun _ => ?_⟩
    by_cases long : m.lengths.shortest ≤ length
    · exact (rewards_likelihood positive).le_best h long
    · have absent : count = 0 := Nat.eq_zero_of_not_pos fun some => long (h.listed some)
      rw [absent]
      exact (likelihood_mono positive (Nat.le_refl 0) (Nat.zero_le length)).trans
        (background_le_best positive matched (Nat.pos_of_ne_zero unseen))

end Bounds

end Dirichlet

end RankedRetrieval
