import CampusQuery.Proofs.Query.Mean

namespace CampusQuery

def Binary64.decimal (x : Binary64) : ℚ := x.displayed?.getD 0

theorem decimal_finite (s : Bool) (m : Magnitude) :
    (Binary64.finite s m).decimal =
      if s then -(m.shortest .away).value else (m.shortest .away).value := by
  rw [Binary64.decimal, displayed?_finite, Option.getD_some]

theorem Binary64.displayed?_eq_some {x : Binary64} (h : x.isFinite = true) :
    x.displayed? = some x.decimal := by
  cases x with
  | finite s m => rw [decimal_finite, displayed?_finite]
  | infinite s => cases h
  | quietNaN s p => cases h

namespace Aggregate

/-- Finite numbers with at most `k` places, whose sizes add up to fewer than `2 ^ 96` units of the
last place. -/
structure Fits (xs : List Binary64) (k : ℕ) : Prop where
  finite : ∀ x ∈ xs, x.isFinite = true
  places : ∀ x ∈ xs, x.displayPlaces ≤ k
  places_le : k ≤ 28
  size : (xs.map fun x => |x.decimal|).sum * 10 ^ k < 2 ^ 96

variable {xs ys : List Binary64} {k : ℕ}

theorem Fits.displayed (h : Fits xs k) : Displayed xs (xs.map Binary64.decimal) k := by
  refine ⟨?_, h.places, h.places_le, ?_⟩
  · rw [List.forall₂_map_right_iff, List.forall₂_same]
    exact fun x hx => Binary64.displayed?_eq_some (h.finite x hx)
  · rw [List.map_map]
    exact h.size

theorem Fits.perm (h : Fits xs k) (hperm : ys.Perm xs) : Fits ys k := by
  refine ⟨fun x hx => h.finite x (hperm.mem_iff.mp hx),
    fun x hx => h.places x (hperm.mem_iff.mp hx), h.places_le, ?_⟩
  rw [(hperm.map fun x => |x.decimal|).sum_eq]
  exact h.size

/-- A sum is rounded once, from the exact total, and a sum in doubles is not needed. -/
theorem Fits.exists_roundedSum? (h : Fits xs k) :
    ∃ total, roundedSum? xs = some total ∧ sum xs = total.toBinary64 ∧
      total.value = Tie.away.roundTo 2 (xs.map Binary64.decimal).sum := by
  obtain ⟨total, htotal, hvalue, -⟩ := h.displayed.exactSum?_eq
  have hrounded : roundedSum? xs = some (total.roundPlaces Aggregate.places) := by
    rw [roundedSum?, htotal]
    rfl
  refine ⟨_, hrounded, by rw [sum, hrounded], ?_⟩
  rw [FixedPoint.value_roundPlaces, hvalue]
  rfl

/-- The value of a sum is the exact one rounded once, half away from zero, and the same in every
order of the terms. Its double need not be: the total in one order may carry more places than in
another, and the conversion goes by them. -/
theorem roundedSum?_exact (h : Fits xs k) :
    ∃ total, roundedSum? xs = some total ∧ sum xs = total.toBinary64 ∧
      total.value = Tie.away.roundTo 2 (xs.map Binary64.decimal).sum ∧
      ∀ ys, ys.Perm xs → ∃ total', roundedSum? ys = some total' ∧ sum ys = total'.toBinary64 ∧
        total'.value = total.value := by
  obtain ⟨total, htotal, hsum, hvalue⟩ := h.exists_roundedSum?
  refine ⟨total, htotal, hsum, hvalue, ?_⟩
  intro ys hperm
  -- The bound on the sizes does not see the order, so every order has an exact total.
  obtain ⟨total', htotal', hsum', hvalue'⟩ := (h.perm hperm).exists_roundedSum?
  exact ⟨total', htotal', hsum', by rw [hvalue', hvalue, (hperm.map Binary64.decimal).sum_eq]⟩

/-- A tenth, and a decimal that takes the sum to the middle between two hundredths below zero. -/
def belowZero : List Binary64 := [.ofDecimal false 1 (-1), .ofDecimal true 225 (-3)]

theorem fits_belowZero : Fits belowZero 3 :=
  ⟨by decide +kernel, by decide +kernel, by decide, by decide +kernel⟩

theorem roundedSum?_exact_belowZero : Fits belowZero 3 ∧
    ∃ total, roundedSum? belowZero = some total ∧ sum belowZero = total.toBinary64 ∧
      total.value = Tie.away.roundTo 2 (-1 / 8) ∧
      ∃ total', roundedSum? belowZero.reverse = some total' ∧ total'.value = total.value := by
  obtain ⟨total, htotal, hsum, hvalue, hperm⟩ := roundedSum?_exact fits_belowZero
  obtain ⟨total', htotal', -, hvalue'⟩ := hperm _ belowZero.reverse_perm
  have hdecimals : (belowZero.map Binary64.decimal).sum = -1 / 8 := by decide +kernel
  exact ⟨fits_belowZero, total, htotal, hsum, hdecimals ▸ hvalue, total', htotal', hvalue'⟩

/-- Two hundredths that cancel out, before and behind terms with a sum of one place. -/
theorem exists_sum_ne_of_perm : ∃ xs ys k, Fits xs k ∧ ys.Perm xs ∧ sum ys ≠ sum xs := by
  let cents : List Binary64 := [.ofDecimal false 1 (-2), .ofDecimal true 1 (-2)]
  let terms : List Binary64 := [.ofNat (2 ^ 45), .ofDecimal false 2 (-1)]
  have hfits : Fits (cents ++ terms) 2 :=
    ⟨by decide +kernel, by decide +kernel, by decide, by decide +kernel⟩
  have hsum : sum (terms ++ cents) ≠ sum (cents ++ terms) := by decide +kernel
  exact ⟨_, _, _, hfits, List.perm_append_comm, hsum⟩

end Aggregate

end CampusQuery
