import Packrat.Expr.Build

/-!
# Ranges and their counts

A repetition is given a range of words and turns it into a count once. Where a range has a word, it
is accepted, and its count allows the words of the range and no others. Where it has none, it is
refused (`Expr.repeated?_exact`).

There is one kind of range for which this fails. An excluded lower end is stepped over, but the
largest word cannot be; the count then begins there instead of behind it. Such a range has no words,
and it is refused like any other if its upper end stops before the largest word. Otherwise it is
accepted, and its count allows the very word that the lower end excludes.
-/

namespace Packrat

namespace Bound

/-- Whether a bound, as a lower end, lets a word pass. -/
def AdmitsFrom (n : UInt64) : Bound → Prop
  | .included m => m ≤ n
  | .excluded m => m < n
  | .unbounded => True

/-- Whether a bound, as an upper end, lets a word pass. -/
def AdmitsTo (n : UInt64) : Bound → Prop
  | .included m => n ≤ m
  | .excluded m => n < m
  | .unbounded => True

instance (n : UInt64) : (low : Bound) → Decidable (low.AdmitsFrom n)
  | .included m => inferInstanceAs (Decidable (m ≤ n))
  | .excluded m => inferInstanceAs (Decidable (m < n))
  | .unbounded => inferInstanceAs (Decidable True)

instance (n : UInt64) : (high : Bound) → Decidable (high.AdmitsTo n)
  | .included m => inferInstanceAs (Decidable (n ≤ m))
  | .excluded m => inferInstanceAs (Decidable (n < m))
  | .unbounded => inferInstanceAs (Decidable True)

/-- Whether a word lies in the range from `low` to `high`. -/
def Encloses (low high : Bound) (n : UInt64) : Prop := low.AdmitsFrom n ∧ high.AdmitsTo n

/-- Whether a lower end excludes the largest word, behind which there is none. -/
def Stalls (low : Bound) : Prop := ∃ m, low = .excluded m ∧ m.toNat = Count.ceiling

/-- Whether a range excludes the largest word by its lower end, but not by its upper one. -/
def Overreaches (low high : Bound) : Prop :=
  ∃ m, low = .excluded m ∧ m.toNat = Count.ceiling ∧ high.AdmitsTo m

/-- Two numbers are words, and neither is on the wrong side of the excluded end that it stands for,
where it would be if its computation had wrapped around. -/
structure Unwrapped (low high : Bound) (least : Nat) (most : Option Nat) : Prop where
  least_le : least ≤ Count.ceiling
  most_le : ∀ m ∈ most, m ≤ Count.ceiling
  excluded_le_least : ∀ n, low = .excluded n → n.toNat ≤ least
  most_le_excluded : ∀ n, high = .excluded n → ∀ m ∈ most, m ≤ n.toNat

end Bound

namespace Count

/-- Whether a count allows `n` matches. -/
def Allows (c : Count) (n : Nat) : Prop := c.least ≤ n ∧ ∀ m ∈ c.most, n ≤ m

section

variable {low high : Bound} {c : Count} {d : Defect}

/-! ## Words -/

theorem toNat_le_ceiling (n : UInt64) : n.toNat ≤ ceiling := by
  have := n.toNat_lt
  unfold ceiling
  omega

theorem exists_toNat_eq {k : Nat} (h : k ≤ ceiling) : ∃ n : UInt64, n.toNat = k := by
  have hlt : k < UInt64.size := Nat.lt_of_le_of_lt h (by decide)
  exact ⟨UInt64.ofNat k, UInt64.toNat_ofNat_of_lt' hlt⟩

/-! ## The lower end -/

theorem lowest_le_ceiling (low : Bound) : lowest low ≤ ceiling := by
  cases low with
  | included m => exact toNat_le_ceiling m
  | excluded m => exact Nat.min_le_right _ _
  | unbounded => exact Nat.zero_le _

theorem toNat_le_lowest {m : UInt64} (h : low = .excluded m) : m.toNat ≤ lowest low := by
  subst h
  have := toNat_le_ceiling m
  simp only [lowest]
  omega

theorem lowest_le_of_admitsFrom {n : UInt64} (h : low.AdmitsFrom n) : lowest low ≤ n.toNat := by
  cases low with
  | included m => exact UInt64.le_iff_toNat_le.mp h
  | excluded m =>
    have hlt : m.toNat < n.toNat := UInt64.lt_iff_toNat_lt.mp h
    simp only [lowest]
    omega
  | unbounded => exact Nat.zero_le _

/-- Unless it stalls, a lower end lets pass just the words from the lowest number on. -/
theorem admitsFrom_iff {n : UInt64} (h : ¬ low.Stalls) :
    low.AdmitsFrom n ↔ lowest low ≤ n.toNat := by
  refine ⟨lowest_le_of_admitsFrom, fun hle => ?_⟩
  cases low with
  | included m => exact UInt64.le_iff_toNat_le.mpr hle
  | excluded m =>
    have hm : m.toNat ≠ ceiling := fun hm => h ⟨m, rfl, hm⟩
    have := toNat_le_ceiling m
    simp only [lowest] at hle
    exact UInt64.lt_iff_toNat_lt.mpr (by omega)
  | unbounded => trivial

/-- An end that stalls counts from the ceiling itself. -/
theorem lowest_of_stalls (h : low.Stalls) : lowest low = ceiling := by
  obtain ⟨m, rfl, hm⟩ := h
  simp only [lowest]
  omega

/-- An end that stalls lets no word pass. -/
theorem not_admitsFrom_of_stalls (h : low.Stalls) (n : UInt64) : ¬ low.AdmitsFrom n := by
  obtain ⟨m, rfl, hm⟩ := h
  intro hlt
  have hlt' : m.toNat < n.toNat := UInt64.lt_iff_toNat_lt.mp hlt
  have := toNat_le_ceiling n
  omega

/-! ## The count of a range -/

/-- An upper number is taken if it is not below the least one, and refused otherwise. -/
theorem atMost_cases (least most : Nat) :
    (∃ c : Count, ofBounds.atMost least most = .ok c ∧ c.least = least ∧ c.most = some most) ∨
      ofBounds.atMost least most = .error (.emptyRange least most) ∧ most < least := by
  unfold ofBounds.atMost
  by_cases h : least ≤ most
  · exact .inl ⟨_, dif_pos h, rfl, rfl⟩
  · exact .inr ⟨dif_neg h, Nat.not_le.mp h⟩

/-- An upper end leads to a largest number, from which the count is made or refused, unless it is
open or has nothing below it. -/
theorem ofBounds_cases (low high : Bound) :
    (∃ c, ofBounds low high = .ok c ∧ c.least = lowest low ∧ high = .unbounded ∧ c.most = none) ∨
    (ofBounds low high = .error (.emptyRange (lowest low) 0) ∧ high = .excluded 0) ∨
    ∃ most, ofBounds low high = ofBounds.atMost (lowest low) most ∧ most ≤ ceiling ∧
      (∀ n : UInt64, high.AdmitsTo n ↔ n.toNat ≤ most) ∧
      ∀ m, high = .excluded m → most ≤ m.toNat := by
  cases high with
  | unbounded => exact .inl ⟨_, rfl, rfl, rfl, rfl⟩
  | included m =>
    exact .inr (.inr ⟨m.toNat, rfl, toNat_le_ceiling m, fun n => UInt64.le_iff_toNat_le, nofun⟩)
  | excluded m =>
    by_cases hm : m = 0
    · subst hm
      exact .inr (.inl ⟨rfl, rfl⟩)
    · have hpos : 0 < m.toNat := Nat.pos_of_ne_zero fun h => hm (UInt64.toNat_inj.mp h)
      have := toNat_le_ceiling m
      refine .inr (.inr ⟨m.toNat - 1, if_neg hm, by omega, fun n => ?_, ?_⟩)
      · rw [Bound.AdmitsTo, UInt64.lt_iff_toNat_lt]
        omega
      · rintro _ ⟨⟩
        omega

/-- A count that was made of a range begins where the lower end leads and stops where the upper end
does. -/
theorem of_ofBounds_ok (h : ofBounds low high = .ok c) :
    c.least = lowest low ∧ (∀ n : UInt64, high.AdmitsTo n ↔ ∀ m ∈ c.most, n.toNat ≤ m) ∧
      low.Unwrapped high c.least c.most := by
  rcases ofBounds_cases low high with
    ⟨c', hc, hleast, rfl, hmost⟩ | ⟨hd, -⟩ | ⟨most, heq, hle, hto, hexcluded⟩
  · rw [h] at hc
    cases hc
    refine ⟨hleast, fun n => ?_, ?_, ?_, ?_, nofun⟩
    · simp [Bound.AdmitsTo, hmost]
    · exact hleast ▸ lowest_le_ceiling low
    · simp [hmost]
    · exact fun n hn => hleast ▸ toNat_le_lowest hn
  · rw [h] at hd
    cases hd
  · rw [heq] at h
    rcases atMost_cases (lowest low) most with ⟨c', hc, hleast, hmost⟩ | ⟨hd, -⟩
    · rw [h] at hc
      cases hc
      refine ⟨hleast, fun n => ?_, ?_, ?_, ?_, ?_⟩
      · simp [hmost, hto]
      · exact hleast ▸ lowest_le_ceiling low
      · simpa [hmost] using hle
      · exact fun n hn => hleast ▸ toNat_le_lowest hn
      · simpa [hmost] using hexcluded
    · rw [h] at hd
      cases hd

/-- A range is refused as empty, and then every word that its upper end lets pass is in front of
where the lower end leads. -/
theorem of_ofBounds_error (h : ofBounds low high = .error d) :
    ∃ most, d = .emptyRange (lowest low) most ∧
      (∀ n : UInt64, high.AdmitsTo n → n.toNat < lowest low) ∧
      low.Unwrapped high (lowest low) (some most) := by
  rcases ofBounds_cases low high with
    ⟨c, hc, -⟩ | ⟨hd, rfl⟩ | ⟨most, heq, hle, hto, hexcluded⟩
  · rw [h] at hc
    cases hc
  · rw [h] at hd
    cases hd
    refine ⟨0, rfl, fun n hn => ?_, ⟨lowest_le_ceiling low, by simp, fun _ => toNat_le_lowest, ?_⟩⟩
    · exact absurd (UInt64.lt_iff_toNat_lt.mp hn) (Nat.not_lt_zero _)
    · simp
  · rw [heq] at h
    rcases atMost_cases (lowest low) most with ⟨c, hc, -⟩ | ⟨hd, hlt⟩
    · rw [h] at hc
      cases hc
    · rw [h] at hd
      cases hd
      refine ⟨most, rfl, fun n hn => Nat.lt_of_le_of_lt ((hto n).mp hn) hlt,
        ⟨lowest_le_ceiling low, by simpa using hle, fun _ => toNat_le_lowest, ?_⟩⟩
      simpa using hexcluded

/-- A range that is refused has no words. -/
theorem not_encloses_of_error (h : ofBounds low high = .error d) (n : UInt64) :
    ¬ low.Encloses high n := by
  rintro ⟨hfrom, hto⟩
  obtain ⟨most, -, hlt, -⟩ := of_ofBounds_error h
  exact absurd (lowest_le_of_admitsFrom hfrom) (Nat.not_le.mpr (hlt n hto))

/-- Unless the lower end stalls, a count allows the words of its range. -/
theorem allows_iff (h : ofBounds low high = .ok c) (hlow : ¬ low.Stalls) (n : UInt64) :
    c.Allows n.toNat ↔ low.Encloses high n := by
  obtain ⟨hleast, hto, -⟩ := of_ofBounds_ok h
  unfold Allows Bound.Encloses
  rw [admitsFrom_iff hlow, hto, hleast]

/-- A count allows some word. -/
theorem exists_allows (h : ofBounds low high = .ok c) : ∃ n : UInt64, c.Allows n.toNat := by
  obtain ⟨-, -, hwords⟩ := of_ofBounds_ok h
  obtain ⟨n, hn⟩ := exists_toNat_eq hwords.least_le
  exact ⟨n, Nat.le_of_eq hn.symm, fun m hm => hn ▸ c.ordered m hm⟩

/-- Behind a lower end that excludes the largest word, a count allows just this word. -/
theorem allows_iff_of_stalls (h : ofBounds low high = .ok c) (hlow : low.Stalls) (n : UInt64) :
    c.Allows n.toNat ↔ n.toNat = ceiling ∧ high.AdmitsTo n := by
  obtain ⟨hleast, hto, -⟩ := of_ofBounds_ok h
  have := toNat_le_ceiling n
  unfold Allows
  rw [hto, hleast, lowest_of_stalls hlow]
  constructor
  · rintro ⟨hle, hmost⟩
    exact ⟨by omega, hmost⟩
  · rintro ⟨heq, hmost⟩
    exact ⟨by omega, hmost⟩

/-- A count is made behind a lower end that excludes the largest word only if the upper end lets
this word pass. -/
theorem overreaches_of_ok (h : ofBounds low high = .ok c) (hlow : low.Stalls) :
    low.Overreaches high := by
  obtain ⟨n, hn⟩ := exists_allows h
  obtain ⟨heq, hto⟩ := (allows_iff_of_stalls h hlow n).mp hn
  obtain ⟨m, rfl, hm⟩ := hlow
  obtain rfl : m = n := UInt64.toNat_inj.mp (hm.trans heq.symm)
  exact ⟨m, rfl, hm, hto⟩

theorem not_overreaches_of_error (h : ofBounds low high = .error d) : ¬ low.Overreaches high := by
  rintro ⟨m, rfl, hm, hto⟩
  obtain ⟨most, -, hlt, -⟩ := of_ofBounds_error h
  have hle := lowest_le_ceiling (.excluded m)
  have := hlt m hto
  omega

end

end Count

/-- What becomes of a range. Unless it excludes the largest word by its lower end only, it is
accepted exactly if it has a word, and the count then allows just the words of the range; a range
without words is refused as empty. A range that excludes the largest word by its lower end only has
no words, but is accepted, and its count allows the largest word.

In every case the numbers that the ends lead to are words, and none of their computations has
wrapped around. -/
theorem Expr.repeated?_exact (x : Expr) (low high : Bound) :
    let result := x.repeated? low high
    (¬ low.Overreaches high →
      ((∃ n, low.Encloses high n) → ∃ c, result = .ok (x.repeated c) ∧
        ∀ n : UInt64, c.Allows n.toNat ↔ low.Encloses high n) ∧
      ((¬ ∃ n, low.Encloses high n) →
        ∃ least most, result = .error (.emptyRange least most))) ∧
    (low.Overreaches high → (¬ ∃ n, low.Encloses high n) ∧ ∃ c, result = .ok (x.repeated c) ∧
      ∀ n : UInt64, c.Allows n.toNat ↔ n.toNat = Count.ceiling) ∧
    ((∃ c, result = .ok (x.repeated c) ∧ low.Unwrapped high c.least c.most) ∨
      ∃ least most, result = .error (.emptyRange least most) ∧
        low.Unwrapped high least (some most)) := by
  intro result
  have hresult : result = (Count.ofBounds low high).map x.repeated := rfl
  cases h : Count.ofBounds low high with
  | ok c =>
    rw [h] at hresult
    obtain ⟨-, -, hwords⟩ := Count.of_ofBounds_ok h
    refine ⟨fun hexact => ?_, fun hover => ?_, .inl ⟨c, hresult, hwords⟩⟩
    · have hallows := Count.allows_iff h fun hlow => hexact (Count.overreaches_of_ok h hlow)
      refine ⟨fun _ => ⟨c, hresult, hallows⟩, fun hempty => ?_⟩
      obtain ⟨n, hn⟩ := Count.exists_allows h
      exact absurd ⟨n, (hallows n).mp hn⟩ hempty
    · obtain ⟨m, rfl, hm, hto⟩ := hover
      have hlow : (Bound.excluded m).Stalls := ⟨m, rfl, hm⟩
      refine ⟨?_, c, hresult, fun n => ?_⟩
      · rintro ⟨n, hfrom, -⟩
        exact Count.not_admitsFrom_of_stalls hlow n hfrom
      · rw [Count.allows_iff_of_stalls h hlow]
        refine ⟨And.left, fun hn => ⟨hn, ?_⟩⟩
        obtain rfl : m = n := UInt64.toNat_inj.mp (hm.trans hn.symm)
        exact hto
  | error d =>
    rw [h] at hresult
    obtain ⟨most, rfl, -, hwords⟩ := Count.of_ofBounds_error h
    refine ⟨fun _ => ⟨?_, fun _ => ⟨_, _, hresult⟩⟩, fun hover => ?_, .inr ⟨_, _, hresult, hwords⟩⟩
    · rintro ⟨n, hn⟩
      exact absurd hn (Count.not_encloses_of_error h n)
    · exact absurd hover (Count.not_overreaches_of_error h)

/-- Ranges at the largest word. The one from behind its predecessor has the largest word, and the
one between the largest word and itself is refused. The one behind the largest word is accepted,
although that word is not in it. -/
theorem Expr.repeated?_exact_largest :
    let x := Expr.builtin .digit
    let largest : UInt64 := 0xffffffffffffffff
    (∃ c, x.repeated? (.excluded (largest - 1)) .unbounded = .ok (x.repeated c) ∧
      c.Allows largest.toNat ∧ ¬ c.Allows (largest - 1).toNat) ∧
    (∃ least most, x.repeated? (.excluded largest) (.excluded largest) =
      .error (.emptyRange least most)) ∧
    ¬ (Bound.excluded largest).Encloses .unbounded largest ∧
    ∃ c, x.repeated? (.excluded largest) .unbounded = .ok (x.repeated c) ∧
      c.Allows largest.toNat := by
  intro x largest
  refine ⟨?_, ?_, ?_⟩
  · obtain ⟨hexact, -⟩ := Expr.repeated?_exact x (.excluded (largest - 1)) .unbounded
    obtain ⟨haccept, -⟩ := hexact fun ⟨m, hm, heq, _⟩ => by
      cases hm
      exact absurd heq (by decide)
    obtain ⟨c, hc, hallows⟩ := haccept ⟨largest, by decide, trivial⟩
    refine ⟨c, hc, (hallows largest).mpr ⟨by decide, trivial⟩, fun h => ?_⟩
    exact absurd ((hallows (largest - 1)).mp h).1 (by decide)
  · obtain ⟨hexact, -⟩ := Expr.repeated?_exact x (.excluded largest) (.excluded largest)
    obtain ⟨-, hrefuse⟩ := hexact fun ⟨m, hm, _, hto⟩ => by
      cases hm
      exact absurd hto (by decide)
    exact hrefuse fun ⟨n, hfrom, hto⟩ => UInt64.lt_asymm hfrom hto
  · obtain ⟨-, hover, -⟩ := Expr.repeated?_exact x (.excluded largest) .unbounded
    obtain ⟨hempty, c, hc, hallows⟩ := hover ⟨largest, rfl, by decide, trivial⟩
    exact ⟨fun h => hempty ⟨largest, h⟩, c, hc, (hallows largest).mpr (by decide)⟩

end Packrat
