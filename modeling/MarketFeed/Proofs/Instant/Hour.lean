import Mathlib.Algebra.Order.Group.Unbundled.Int
import MarketFeed.Instant.Hour

/-!
# The wait for the next hour

Outside leap seconds an instant is its number of nanoseconds since 1970, before that year a negative
one, and the full hours are the multiples of an hour. The start of the hour is the multiple below,
since the remainder that is taken off is never negative, and the wait is what is missing to the
multiple above.

## Main definitions

* `Instant.IsFullHour`: minutes, seconds and nanoseconds are zero
* `Instant.LeadsToHour t r`: the next full hour is `r` nanoseconds away

## Main results

* `Instant.isFullHour_ofNanos`: the full hours are the multiples of an hour
* `Instant.untilNextHour_eq`: the wait is what is missing to the multiple above
* `Instant.exists_untilNextHour`: the wait ends on the next full hour
-/

namespace MarketFeed.Instant

variable {t u : Instant} {n d : ℤ}

theorem hourNanos_eq : hourNanos = 3600000000000 := rfl

/-! ## Instants outside leap seconds -/

theorem totalNanos_ofNanos (n : ℤ) : (ofNanos n).totalNanos = n := by
  simp only [totalNanos, ofNanos, nanosPerSecond]
  omega

theorem not_inLeapSecond_ofNanos (n : ℤ) : ¬ (ofNanos n).InLeapSecond := by
  simp only [InLeapSecond, ofNanos, nanosPerSecond]
  omega

/-- Outside leap seconds a shift is a sum. -/
theorem shift_of_not_inLeapSecond (h : ¬ t.InLeapSecond) (d : ℤ) :
    t.shift d = ofNanos (t.totalNanos + d) := if_neg h

/-- Outside leap seconds the time between two instants is a difference. -/
theorem since_of_not_inLeapSecond (ht : ¬ t.InLeapSecond) (hu : ¬ u.InLeapSecond) :
    t.since u = t.totalNanos - u.totalNanos := by
  simp [since, ht, hu]

/-- Nanoseconds that fit 64 bits are years away from both ends of the calendar, and a day more does
not change that. -/
theorem inRange_ofNanos (hlow : -2 ^ 63 - 86400000000000 ≤ n)
    (hhigh : n < 2 ^ 63 + 86400000000000) : (ofNanos n).InRange := by
  have hfirst : firstSecond = -8334601228800 := rfl
  have hend : endSecond = 8210266876800 := rfl
  simp only [InRange, hfirst, hend, ofNanos, nanosPerSecond]
  omega

/-! ## Full hours -/

/-- An instant at which an hour begins. -/
def IsFullHour (t : Instant) : Prop := t.nanos = 0 ∧ t.seconds % secondsPerHour = 0

instance (t : Instant) : Decidable t.IsFullHour := inferInstanceAs (Decidable (_ ∧ _))

theorem IsFullHour.totalNanos_emod (h : t.IsFullHour) : t.totalNanos % hourNanos = 0 := by
  obtain ⟨hnanos, hseconds⟩ := h
  simp only [secondsPerHour] at hseconds
  simp only [totalNanos, hnanos, nanosPerSecond, hourNanos_eq]
  omega

/-- **The full hours are the multiples of an hour.** -/
theorem isFullHour_ofNanos (h : n % hourNanos = 0) : (ofNanos n).IsFullHour := by
  rw [hourNanos_eq] at h
  simp only [IsFullHour, ofNanos, nanosPerSecond, secondsPerHour]
  omega

/-- Between two neighbouring multiples of an hour there is no full hour. -/
theorem IsFullHour.not_between (h : u.IsFullHour) (k : ℤ) :
    ¬ (k * hourNanos < u.totalNanos ∧ u.totalNanos < (k + 1) * hourNanos) := by
  have hmultiple := h.totalNanos_emod
  rw [hourNanos_eq] at hmultiple ⊢
  omega

/-! ## The wait -/

/-- The next full hour is `r` nanoseconds away, and `r` is an hour at most. -/
structure LeadsToHour (t : Instant) (r : ℕ) : Prop where
  pos : 0 < r
  le_hour : r ≤ secondsPerHour * nanosPerSecond
  isFullHour : (t.shift r).IsFullHour
  none_between (u : Instant) (hu : u.IsFullHour) :
    ¬ (t.totalNanos < u.totalNanos ∧ u.totalNanos < (t.shift r).totalNanos)

/-- The start of the hour is the multiple of an hour below, also before 1970. -/
theorem truncateHour?_eq (hleap : ¬ t.InLeapSecond) (hlow : -2 ^ 63 ≤ t.totalNanos)
    (hhigh : t.totalNanos < 2 ^ 63) :
    truncateHour? t = some (ofNanos (t.totalNanos - t.totalNanos % hourNanos)) := by
  rw [truncateHour?, if_pos ⟨hlow, hhigh⟩, shift_of_not_inLeapSecond hleap, ← sub_eq_add_neg]

/-- **The wait is what is missing to the multiple of an hour above.** -/
theorem untilNextHour_eq (hleap : ¬ t.InLeapSecond) (hlow : -2 ^ 63 ≤ t.totalNanos)
    (hhigh : t.totalNanos < 2 ^ 63) :
    t.untilNextHour = some (hourNanos - t.totalNanos % hourNanos).toNat := by
  have hnext : (ofNanos (t.totalNanos - t.totalNanos % hourNanos)).shift hourNanos =
      ofNanos (t.totalNanos - t.totalNanos % hourNanos + hourNanos) := by
    rw [shift_of_not_inLeapSecond (not_inLeapSecond_ofNanos _), totalNanos_ofNanos]
  have hrange : (ofNanos (t.totalNanos - t.totalNanos % hourNanos + hourNanos)).InRange := by
    refine inRange_ofNanos ?_ ?_
    all_goals
      rw [hourNanos_eq]
      omega
  have hwait : (ofNanos (t.totalNanos - t.totalNanos % hourNanos + hourNanos)).since t =
      hourNanos - t.totalNanos % hourNanos := by
    rw [since_of_not_inLeapSecond (not_inLeapSecond_ofNanos _) hleap, totalNanos_ofNanos]
    omega
  rw [untilNextHour, truncateHour?_eq hleap hlow hhigh, Option.getD_some, hnext]
  simp only [hrange, if_true, hwait]

/-- **The wait for the next hour ends on the next full hour**, whenever the nanoseconds since 1970
fit 64 bits. -/
theorem exists_untilNextHour (hleap : ¬ t.InLeapSecond) (hlow : -2 ^ 63 ≤ t.totalNanos)
    (hhigh : t.totalNanos < 2 ^ 63) : ∃ r, t.untilNextHour = some r ∧ t.LeadsToHour r := by
  have hbelow : 0 ≤ t.totalNanos % hourNanos ∧ t.totalNanos % hourNanos < hourNanos := by
    rw [hourNanos_eq]
    omega
  obtain ⟨r, hr⟩ : ∃ r : ℕ, (r : ℤ) = hourNanos - t.totalNanos % hourNanos :=
    ⟨_, Int.toNat_of_nonneg (by omega)⟩
  have hend : t.totalNanos + r = (t.totalNanos / hourNanos + 1) * hourNanos := by
    rw [hr, hourNanos_eq]
    omega
  have hshift : t.shift r = ofNanos (t.totalNanos + r) := shift_of_not_inLeapSecond hleap r
  refine ⟨r, ?_, ?_, ?_, ?_, fun u hu hbetween => ?_⟩
  · rw [untilNextHour_eq hleap hlow hhigh, ← hr, Int.toNat_natCast]
  · omega
  · show r ≤ 3600000000000
    rw [hourNanos_eq] at hr
    omega
  · rw [hshift, hend]
    exact isFullHour_ofNanos (Int.mul_emod_left _ _)
  · rw [hshift, totalNanos_ofNanos, hend] at hbetween
    refine hu.not_between (t.totalNanos / hourNanos) ⟨?_, hbetween.2⟩
    have hstart : t.totalNanos / hourNanos * hourNanos ≤ t.totalNanos := by
      rw [hourNanos_eq]
      omega
    exact lt_of_le_of_lt hstart hbetween.1

/-- The first and the last instant whose nanoseconds fit 64 bits, the last nanosecond before 1970
and a full hour before it. -/
theorem exists_untilNextHour_samples :
    (untilNextHour ⟨-9223372037, 145224192⟩ = some 2836854775808 ∧
      LeadsToHour ⟨-9223372037, 145224192⟩ 2836854775808) ∧
    (untilNextHour ⟨9223372036, 854775807⟩ = some 763145224193 ∧
      LeadsToHour ⟨9223372036, 854775807⟩ 763145224193) ∧
    (untilNextHour ⟨-1, 999999999⟩ = some 1 ∧ LeadsToHour ⟨-1, 999999999⟩ 1) ∧
    (untilNextHour ⟨-7200, 0⟩ = some 3600000000000 ∧ LeadsToHour ⟨-7200, 0⟩ 3600000000000) := by
  have hsample (t : Instant) (r : ℕ) (hleap : ¬ t.InLeapSecond) (hlow : -2 ^ 63 ≤ t.totalNanos)
      (hhigh : t.totalNanos < 2 ^ 63) (hr : t.untilNextHour = some r) :
      t.untilNextHour = some r ∧ t.LeadsToHour r := by
    obtain ⟨r', hr', hleads⟩ := exists_untilNextHour hleap hlow hhigh
    obtain rfl := Option.some.inj (hr'.symm.trans hr)
    exact ⟨hr, hleads⟩
  exact ⟨hsample _ _ (by decide) (by decide) (by decide) (by decide),
    hsample _ _ (by decide) (by decide) (by decide) (by decide),
    hsample _ _ (by decide) (by decide) (by decide) (by decide),
    hsample _ _ (by decide) (by decide) (by decide) (by decide)⟩

end MarketFeed.Instant
