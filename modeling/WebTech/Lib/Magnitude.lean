/-
# `WebTech.Lib.Magnitude` — the number a numeral stands for

An unsigned numeral is digits with at most one point among them; its value is
the rational number its digits spell, shifted by the digits after the point.

    floatval reads a numeral, whatever letter follows              (`floatval_unsigned`)
    rounding moves a decimal by half a unit at most                (`abs_round_sub_le`)
    a formatted number without its commas is the rounded number    (`dropCommas_numberFormat`)
-/
import WebTech.Lib.Numeral
import Mathlib.Algebra.Order.Field.Rat
import Mathlib.Algebra.Order.Group.Unbundled.Abs
import Mathlib.Tactic.FieldSimp
import Mathlib.Tactic.Positivity
import Mathlib.Tactic.NormNum
import Mathlib.Tactic.LinearCombination

namespace Decimals

/-- Digits, and at most one point. -/
def isUnsigned (t : List Char) : Bool :=
  t.any Char.isDigit && t.all (fun c => c.isDigit || c = '.') && t.count '.' ≤ 1

/-- The number of digits after the point. -/
def decimals (t : List Char) : Nat := (t.dropWhile fun c => c ≠ '.').length - 1

/-- The number a numeral stands for. -/
def magnitude (t : List Char) : Rat := digitsValue t / 10 ^ decimals t

def Dec.value (d : Dec) : Rat := d.mant / 10 ^ d.scale

theorem magnitude_nonneg (t : List Char) : 0 ≤ magnitude t := by
  rw [magnitude]
  positivity

theorem magnitude_eq_zero_iff (t : List Char) : magnitude t = 0 ↔ digitsValue t = 0 := by
  rw [magnitude, div_eq_zero_iff, Nat.cast_eq_zero]
  constructor
  · rintro (h | h)
    · exact h
    · exact absurd h (by positivity)
  · exact .inl

/-! ## What a numeral is made of -/

theorem decimals_digits {int : List Char} (h : ∀ c ∈ int, c.isDigit = true) : decimals int = 0 := by
  have hne : ∀ c ∈ int, decide (c ≠ '.') = true := by
    intro c hc
    refine decide_eq_true ?_
    rintro rfl
    exact absurd (h _ hc) (by decide)
  rw [decimals, List.dropWhile_eq_nil_iff.mpr hne]
  rfl

theorem decimals_point {int : List Char} (h : ∀ c ∈ int, c.isDigit = true) (frac : List Char) :
    decimals (int ++ '.' :: frac) = frac.length := by
  have hne : ∀ c ∈ int, decide (c ≠ '.') = true := by
    intro c hc
    refine decide_eq_true ?_
    rintro rfl
    exact absurd (h _ hc) (by decide)
  rw [decimals, List.dropWhile_append_of_pos hne, List.dropWhile_cons_of_neg (by decide)]
  rfl

/-- **An unsigned numeral**: digits, or digits on the two sides of a point. -/
theorem isUnsigned_cases {t : List Char} (h : isUnsigned t = true) :
    ∃ int frac, (∀ c ∈ int, c.isDigit = true) ∧ (∀ c ∈ frac, c.isDigit = true) ∧
      int ++ frac ≠ [] ∧ (t = int ∧ frac = [] ∨ t = int ++ '.' :: frac) := by
  simp only [isUnsigned, Bool.and_eq_true, List.any_eq_true, List.all_eq_true, Bool.or_eq_true,
    decide_eq_true_eq] at h
  obtain ⟨⟨⟨c, hc, hdigit⟩, hall⟩, hcount⟩ := h
  have hdigits : ∀ s : List Char, s.Sublist t → '.' ∉ s → ∀ c ∈ s, c.isDigit = true := by
    intro s hs hpoint c hc
    rcases hall c (hs.subset hc) with h | rfl
    · exact h
    · exact absurd hc hpoint
  by_cases hp : '.' ∈ t
  · obtain ⟨int, frac, rfl⟩ := List.append_of_mem hp
    rw [List.count_append, List.count_cons_self] at hcount
    have hint : '.' ∉ int := fun hmem => by
      have := List.count_pos_iff.mpr hmem
      omega
    have hfrac : '.' ∉ frac := fun hmem => by
      have := List.count_pos_iff.mpr hmem
      omega
    refine ⟨int, frac, hdigits int (List.sublist_append_left _ _) hint,
      hdigits frac ((List.sublist_cons_self _ _).trans (List.sublist_append_right _ _)) hfrac, ?_,
      .inr rfl⟩
    intro hnil
    rw [List.append_eq_nil_iff] at hnil
    obtain ⟨rfl, rfl⟩ := hnil
    cases List.mem_singleton.mp hc
    exact nomatch hdigit
  · refine ⟨t, [], hdigits t (List.Sublist.refl t) hp, nofun, ?_, .inl ⟨rfl, rfl⟩⟩
    rw [List.append_nil]
    rintro rfl
    exact nomatch hc

theorem isUnsigned_digits {int : List Char} (h : ∀ c ∈ int, c.isDigit = true) (hne : int ≠ []) :
    isUnsigned int = true := by
  obtain ⟨c, hc⟩ := List.exists_mem_of_ne_nil _ hne
  simp only [isUnsigned, Bool.and_eq_true, List.any_eq_true, List.all_eq_true, Bool.or_eq_true,
    decide_eq_true_eq]
  refine ⟨⟨⟨c, hc, h c hc⟩, fun x hx => .inl (h x hx)⟩, ?_⟩
  have hpoint : '.' ∉ int := fun hp => absurd (h _ hp) (by decide)
  rw [List.count_eq_zero.mpr hpoint]
  exact Nat.zero_le 1

theorem isUnsigned_point {int frac : List Char} (hint : ∀ c ∈ int, c.isDigit = true)
    (hfrac : ∀ c ∈ frac, c.isDigit = true) (hne : int ++ frac ≠ []) :
    isUnsigned (int ++ '.' :: frac) = true := by
  obtain ⟨c, hc⟩ := List.exists_mem_of_ne_nil _ hne
  have hcd : c.isDigit = true := (List.mem_append.mp hc).elim (hint c) (hfrac c)
  have hpoint : '.' ∉ int ∧ '.' ∉ frac :=
    ⟨fun hp => absurd (hint _ hp) (by decide), fun hp => absurd (hfrac _ hp) (by decide)⟩
  simp only [isUnsigned, Bool.and_eq_true, List.any_eq_true, List.all_eq_true, Bool.or_eq_true,
    decide_eq_true_eq]
  refine ⟨⟨⟨c, ?_, hcd⟩, ?_⟩, ?_⟩
  · rw [List.mem_append, List.mem_cons]
    exact (List.mem_append.mp hc).imp id .inr
  · intro x hx
    rcases List.mem_append.mp hx with hx | hx
    · exact .inl (hint x hx)
    · rcases List.mem_cons.mp hx with rfl | hx
      · exact .inr rfl
      · exact .inl (hfrac x hx)
  · rw [List.count_append, List.count_cons_self, List.count_eq_zero.mpr hpoint.1,
      List.count_eq_zero.mpr hpoint.2]

theorem digitsValue_point (int frac : List Char) :
    digitsValue (int ++ '.' :: frac) = digitsValue (int ++ frac) := by
  rw [digitsValue, digitsValue, List.filter_append, List.filter_append,
    List.filter_cons_of_neg (by decide)]

/-! ## Reading -/

/-- What may follow a numeral without being read with it. -/
def EndsNumeral (r : List Char) : Prop :=
  ∀ c r', r = c :: r' → c.isDigit = false ∧ c ≠ '.' ∧ c ≠ 'e' ∧ c ≠ 'E'

theorem endsNumeral_nil : EndsNumeral [] := nofun

theorem scanExp_endsNumeral {r : List Char} (h : EndsNumeral r) : scanExp r = (0, r) := by
  cases r with
  | nil => rfl
  | cons c r =>
      obtain ⟨-, -, he, hE⟩ := h c r rfl
      rw [scanExp]
      simp only [he, hE, decide_false, Bool.or_self, Bool.false_and, Bool.false_eq_true, if_false]

theorem span_digits {ds r : List Char} (hds : ∀ c ∈ ds, c.isDigit = true)
    (hr : ∀ c r', r = c :: r' → c.isDigit = false) :
    (ds ++ r).takeWhile Char.isDigit = ds ∧ (ds ++ r).dropWhile Char.isDigit = r := by
  rw [takeWhile_digits hds, dropWhile_digits hds]
  cases r with
  | nil => exact ⟨List.append_nil ds, rfl⟩
  | cons c r =>
      have hc : ¬ c.isDigit = true := by
        rw [hr c r rfl]
        decide
      rw [List.takeWhile_cons_of_neg hc, List.dropWhile_cons_of_neg hc]
      exact ⟨List.append_nil ds, rfl⟩

/-- **Reading an unsigned numeral**, whatever comes after it. -/
theorem floatval_unsigned {u r : List Char} (hu : isUnsigned u = true) (hr : EndsNumeral r) :
    floatval (u ++ r) = ⟨digitsValue u, decimals u⟩ := by
  obtain ⟨int, frac, hint, hfrac, hne, ht⟩ := isUnsigned_cases hu
  have hrdigit : ∀ c r', r = c :: r' → c.isDigit = false := fun c r' h => (hr c r' h).1
  obtain ⟨c, t, hct, hc⟩ : ∃ c t, u = c :: t ∧ (c.isDigit = true ∨ c = '.') := by
    cases int with
    | cons c int =>
        refine ⟨c, ?_⟩
        rcases ht with ⟨rfl, -⟩ | rfl
        · exact ⟨int, rfl, .inl (hint c List.mem_cons_self)⟩
        · exact ⟨int ++ '.' :: frac, rfl, .inl (hint c List.mem_cons_self)⟩
    | nil =>
        rcases ht with ⟨-, rfl⟩ | rfl
        · exact absurd rfl hne
        · exact ⟨'.', frac, rfl, .inr rfl⟩
  have hspace : (u ++ r).dropWhile isSpace = u ++ r := by
    rw [hct]
    refine List.dropWhile_cons_of_neg ?_
    rcases hc with hc | rfl
    · rw [isSpace_of_isDigit hc]
      decide
    · decide
  have hsign : scanSign (u ++ r) = (false, u ++ r) := by
    rw [hct, List.cons_append, scanSign]
    · rintro r' ⟨⟩
      rcases hc with hc | hc <;> exact absurd hc (by decide)
    · rintro r' ⟨⟩
      rcases hc with hc | hc <;> exact absurd hc (by decide)
  have hscan : scan (u ++ r) = some (Dec.make false int frac 0, r) := by
    rw [scan, hsign]
    rcases ht with ⟨rfl, rfl⟩ | rfl
    · obtain ⟨htake, hdrop⟩ := span_digits hint hrdigit
      have hpoint : ∀ r', r ≠ '.' :: r' := fun r' h => (hr '.' r' h).2.1 rfl
      have hne' : u ≠ [] := by rwa [List.append_nil] at hne
      simp only [htake, hdrop]
      split
      · next h => exact absurd h.1 hne'
      · rw [scanExp_endsNumeral hr]
    · have hdot : ∀ c r', '.' :: (frac ++ r) = c :: r' → c.isDigit = false := by
        rintro c r' ⟨⟩
        rfl
      obtain ⟨htake, hdrop⟩ := span_digits hint hdot
      obtain ⟨htake', hdrop'⟩ := span_digits hfrac hrdigit
      have hnil : ¬ (int = [] ∧ frac = []) := by
        rintro ⟨rfl, rfl⟩
        exact hne rfl
      rw [List.append_assoc, List.cons_append]
      simp only [htake, hdrop, htake', hdrop', if_neg hnil, scanExp_endsNumeral hr]
  rw [floatval, hspace, hscan]
  rcases ht with ⟨rfl, rfl⟩ | rfl
  · rw [decimals_digits hint]
    show Dec.mk ((digitsValue (u ++ []) : Int) * 10 ^ 0) 0 = _
    rw [List.append_nil, Int.pow_zero, Int.mul_one]
  · rw [decimals_point hint, digitsValue_point]
    show Dec.mk ((digitsValue (int ++ frac) : Int) * 10 ^ 0) frac.length = _
    rw [Int.pow_zero, Int.mul_one]

theorem floatval_digits {int : List Char} (h : ∀ c ∈ int, c.isDigit = true) :
    floatval int = ⟨digitsValue int, 0⟩ := by
  cases int with
  | nil => rfl
  | cons c int =>
      have hread := floatval_unsigned (isUnsigned_digits h (List.cons_ne_nil c int)) endsNumeral_nil
      rw [List.append_nil, decimals_digits h] at hread
      exact hread

/-- Digits around a point; a point alone reads as zero. -/
theorem floatval_point {int frac : List Char} (hint : ∀ c ∈ int, c.isDigit = true)
    (hfrac : ∀ c ∈ frac, c.isDigit = true) :
    floatval (int ++ '.' :: frac) = ⟨digitsValue (int ++ frac), frac.length⟩ := by
  by_cases hne : int ++ frac = []
  · obtain ⟨rfl, rfl⟩ := List.append_eq_nil_iff.mp hne
    rfl
  · have hread := floatval_unsigned (isUnsigned_point hint hfrac hne) endsNumeral_nil
    rw [List.append_nil, decimals_point hint, digitsValue_point] at hread
    exact hread

/-- One digit more. -/
theorem digitsValue_snoc (t : List Char) {c : Char} (hc : c.isDigit = true) :
    digitsValue (t ++ [c]) = 10 * digitsValue t + digitsValue [c] := by
  rw [digitsValue, digitsValue, digitsValue, List.filter_append, List.filter_cons_of_pos hc,
    Nat.ofDigitChars_append, List.filter_nil, Nat.ofDigitChars_cons, Nat.ofDigitChars_cons]
  simp only [Nat.ofDigitChars_nil]
  omega

theorem digitsValue_digit_lt {c : Char} (hc : c.isDigit = true) : digitsValue [c] < 10 := by
  rw [digitsValue, List.filter_cons_of_pos hc, List.filter_nil, Nat.ofDigitChars_cons]
  simp only [Char.isDigit, Bool.and_eq_true, decide_eq_true_eq] at hc
  have hhi : c.toNat ≤ 57 := hc.2
  have hzero : '0'.toNat = 48 := rfl
  simp only [Nat.ofDigitChars_nil]
  omega

/-! ## Rounding and writing -/

/-- Half a unit more, divided and cut off, is off by half a unit at most. -/
theorem abs_half_up_sub_le (a n : Nat) (hn : 0 < n) :
    |(((2 * a + n) / (2 * n) : Nat) : Rat) - a / n| ≤ 1 / 2 := by
  have hq : (0 : Rat) < n := Nat.cast_pos.mpr hn
  have hdiv := Nat.div_add_mod (2 * a + n) (2 * n)
  have hmod := Nat.mod_lt (2 * a + n) (show 0 < 2 * n by omega)
  generalize (2 * a + n) / (2 * n) = q at *
  generalize (2 * a + n) % (2 * n) = m at *
  have hdiv' : (2 * n * q + m : Rat) = 2 * a + n := by exact_mod_cast hdiv
  have hmod' : (m : Rat) < 2 * n := by exact_mod_cast hmod
  have hm : (0 : Rat) ≤ m := Nat.cast_nonneg m
  have heq : (q : Rat) - a / n = (n - m) / (2 * n) := by
    field_simp
    linear_combination hdiv'
  rw [heq, abs_le, le_div_iff₀ (by linarith), div_le_iff₀ (by linarith)]
  constructor <;> linarith

/-- **Rounding is off by half a unit at most.** -/
theorem abs_round_sub_le (d : Dec) (p : Nat) :
    |(d.round p : Rat) - d.value * 10 ^ p| ≤ 1 / 2 := by
  rw [Dec.round, Dec.value]
  split
  · next h =>
      have hpow : (10 : Rat) ^ p = 10 ^ d.scale * 10 ^ (p - d.scale) := by
        rw [← pow_add, Nat.add_sub_cancel' h]
      have heq : ((d.mant * 10 ^ (p - d.scale) : Int) : Rat) - d.mant / 10 ^ d.scale * 10 ^ p = 0 := by
        rw [hpow]
        push_cast
        field_simp
        ring
      rw [heq, abs_zero]
      norm_num
  · next h =>
      have hpow : (10 : Rat) ^ d.scale = 10 ^ (d.scale - p) * 10 ^ p := by
        rw [← pow_add, Nat.sub_add_cancel (by omega)]
      have hsign : (d.mant : Rat) = d.mant.sign * d.mant.natAbs := by
        rw [Nat.cast_natAbs, ← Int.cast_mul, Int.sign_mul_abs]
      have hle := abs_half_up_sub_le d.mant.natAbs (10 ^ (d.scale - p)) (Nat.pow_pos (by decide))
      generalize (2 * d.mant.natAbs + 10 ^ (d.scale - p)) / (2 * 10 ^ (d.scale - p)) = q at *
      have hq : ((d.mant.sign * (q : Int) : Int) : Rat) - d.mant / 10 ^ d.scale * 10 ^ p
          = d.mant.sign * (q - d.mant.natAbs / ((10 ^ (d.scale - p) : Nat) : Rat)) := by
        rw [hpow, hsign]
        push_cast
        field_simp
      have hone : |((d.mant.sign : Int) : Rat)| ≤ 1 := by
        rcases Int.sign_trichotomy d.mant with hs | hs | hs <;> (rw [hs]; norm_num)
      rw [hq, abs_mul]
      calc |((d.mant.sign : Int) : Rat)| * _ ≤ 1 * (1 / 2) :=
            mul_le_mul hone hle (abs_nonneg _) zero_le_one
        _ = 1 / 2 := one_mul _

/-- A number that is not negative is rounded to one that is not. -/
theorem round_natCast (m k p : Nat) : Dec.round ⟨m, k⟩ p =
    ((if k ≤ p then m * 10 ^ (p - k)
      else (2 * m + 10 ^ (k - p)) / (2 * 10 ^ (k - p)) : Nat) : Int) := by
  rw [Dec.round]
  split
  · rw [Nat.cast_mul, Nat.cast_pow]
    rfl
  · show Int.sign m * _ = _
    rw [Int.natAbs_natCast]
    cases m with
    | zero =>
        have hpos : (0 : Nat) < 10 ^ (k - p) := Nat.pow_pos (by decide)
        have hdiv : (2 * 0 + 10 ^ (k - p)) / (2 * 10 ^ (k - p)) = 0 := Nat.div_eq_of_lt (by omega)
        rw [hdiv]
        rfl
    | succ m =>
        have hsign : Int.sign ((m + 1 : Nat) : Int) = 1 := rfl
        rw [hsign, Int.one_mul]

/-- A formatted number without its commas. -/
def dropCommas (t : List Char) : List Char := t.filter fun c => c ≠ ','

theorem dropCommas_cons {c : Char} (hc : c ≠ ',') (t : List Char) :
    dropCommas (c :: t) = c :: dropCommas t :=
  List.filter_cons_of_pos (decide_eq_true hc)

theorem ne_comma_of_isDigit {c : Char} (h : c.isDigit = true) : c ≠ ',' := by
  rintro rfl
  exact absurd h (by decide)

theorem dropCommas_digits {t : List Char} (h : ∀ c ∈ t, c.isDigit = true) : dropCommas t = t :=
  List.filter_eq_self.mpr fun c hc => decide_eq_true (ne_comma_of_isDigit (h c hc))

theorem dropCommas_append (s t : List Char) : dropCommas (s ++ t) = dropCommas s ++ dropCommas t :=
  List.filter_append s t

theorem dropCommas_groupRev : ∀ (t : List Char), (∀ c ∈ t, c.isDigit = true) →
    dropCommas (groupRev t) = t
  | a :: b :: c :: d :: r, h => by
      have ih := dropCommas_groupRev (d :: r) fun x hx => h x (by simp [hx])
      have hcomma : dropCommas (',' :: groupRev (d :: r)) = dropCommas (groupRev (d :: r)) := rfl
      rw [groupRev, dropCommas_cons (ne_comma_of_isDigit (h a (by simp))),
        dropCommas_cons (ne_comma_of_isDigit (h b (by simp))),
        dropCommas_cons (ne_comma_of_isDigit (h c (by simp))), hcomma, ih]
  | [], _ => rfl
  | [_], h => dropCommas_digits h
  | [_, _], h => dropCommas_digits h
  | [_, _, _], h => dropCommas_digits h

theorem dropCommas_group {t : List Char} (h : ∀ c ∈ t, c.isDigit = true) :
    dropCommas (group t) = t := by
  have hrev : ∀ c ∈ t.reverse, c.isDigit = true := fun c hc => h c (List.mem_reverse.mp hc)
  rw [group, dropCommas, List.filter_reverse, ← dropCommas, dropCommas_groupRev _ hrev,
    List.reverse_reverse]

theorem length_padDigits : ∀ (p n : Nat), (padDigits p n).length = p
  | 0, _ => rfl
  | p + 1, n => by rw [padDigits, List.length_append, length_padDigits p (n / 10)]; rfl

/-- **A formatted number read back** without its commas: the digits before the
point, the point, and the places. -/
theorem dropCommas_numberFormat {d : Dec} {p n : Nat} (hn : d.round (p + 1) = n) :
    dropCommas (numberFormat d (p + 1)) =
      natText (n / 10 ^ (p + 1)) ++ '.' :: padDigits (p + 1) (n % 10 ^ (p + 1)) := by
  have hint : ∀ c ∈ natText (n / 10 ^ (p + 1)), c.isDigit = true := fun c hc => isDigit_natText hc
  have hpad : ∀ c ∈ padDigits (p + 1) (n % 10 ^ (p + 1)), c.isDigit = true :=
    fun c hc => isDigit_padDigits hc
  have hneg : ¬ (n : Int) < 0 := by omega
  rw [numberFormat, hn, if_neg hneg, List.nil_append, fixedText, if_neg (Nat.succ_ne_zero p),
    dropCommas_append, Int.natAbs_natCast, dropCommas_group hint, dropCommas_cons (by decide),
    dropCommas_digits hpad]

theorem digitsValue_places (p n : Nat) :
    digitsValue (natText (n / 10 ^ p) ++ '.' :: padDigits p (n % 10 ^ p)) = n := by
  rw [digitsValue_point, digitsValue, List.filter_append,
    List.filter_eq_self.mpr fun c hc => isDigit_natText hc,
    List.filter_eq_self.mpr fun c hc => isDigit_padDigits hc, Nat.ofDigitChars_append, natText,
    Nat.ofDigitChars_ten_toDigits, ofDigitChars_padDigits, Nat.mod_mod, Nat.div_add_mod]

end Decimals
