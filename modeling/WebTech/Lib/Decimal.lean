/-
# `WebTech.Lib.Decimal` — decimal numbers, read and written exactly

A decimal is an integer and the number of its digits after the point.  Two
ways of writing one are defined: with a fixed number of places and commas
(`numberFormat`, PHP's `number_format`) and in the shortest form
(`shortest`, ECMAScript's `Number::toString` on exact decimals), and one way
of reading: the longest decimal prefix of a text (`floatval`).

    round d p = 0  ⟺  d is nearer to 0 than half a unit of place p   (`round_eq_zero_iff`)
    the digits of numberFormat d p are those of |round d p|           (`digitsValue_numberFormat`)
    shortest d is zero's text exactly for zero                        (`isZeroLit_shortest`)

Numbers are exact: nothing here is rounded to binary floating point.
-/
import Mathlib.Data.List.DropRight
import Mathlib.Data.Int.Order.Basic
import Mathlib.Algebra.Order.Ring.Int
import Mathlib.Tactic.Ring
import Mathlib.Tactic.Linarith

namespace Decimals

/-- `mant / 10 ^ scale`. -/
structure Dec where
  mant : Int
  scale : Nat
  deriving DecidableEq, Repr

/-- The number that the digits of a text spell, its other characters left out. -/
def digitsValue (t : List Char) : Nat := Nat.ofDigitChars 10 (t.filter Char.isDigit) 0

/-- The digits of a natural number. -/
def natText (n : Nat) : List Char := Nat.toDigits 10 n

/-! ## Reading -/

/-- An optional sign; `true` is minus. -/
def scanSign : List Char → Bool × List Char
  | '-' :: r => (true, r)
  | '+' :: r => (false, r)
  | r => (false, r)

/-- An optional exponent: a letter, an optional sign and at least one digit. -/
def scanExp (t : List Char) : Int × List Char :=
  match t with
  | c :: r =>
      let (neg, r') := scanSign r
      let ds := r'.takeWhile Char.isDigit
      if (c = 'e' || c = 'E') && ds ≠ [] then
        (if neg then -(digitsValue ds : Int) else digitsValue ds, r'.dropWhile Char.isDigit)
      else (0, t)
  | [] => (0, t)

/-- `±int.frac × 10 ^ e`. -/
def Dec.make (neg : Bool) (int frac : List Char) (e : Int) : Dec :=
  let m : Int := digitsValue (int ++ frac) * 10 ^ e.toNat
  ⟨if neg then -m else m, frac.length + (-e).toNat⟩

/-- The longest decimal prefix of a text, and what is left. -/
def scan (t : List Char) : Option (Dec × List Char) :=
  let (neg, r) := scanSign t
  let int := r.takeWhile Char.isDigit
  let r₁ := r.dropWhile Char.isDigit
  let (frac, r₂) := match r₁ with
    | '.' :: r' => (r'.takeWhile Char.isDigit, r'.dropWhile Char.isDigit)
    | _ => ([], r₁)
  if int = [] ∧ frac = [] then none
  else
    let (e, r₃) := scanExp r₂
    some (Dec.make neg int frac e, r₃)

/-- Whitespace a number may have in front. -/
def isSpace (c : Char) : Bool :=
  c = ' ' || c = '\t' || c = '\n' || c = '\x0b' || c = '\x0c' || c = '\r'

/-- `floatval`: the longest decimal prefix, zero when there is none. -/
def floatval (t : List Char) : Dec :=
  match scan (t.dropWhile isSpace) with
  | some (d, _) => d
  | none => ⟨0, 0⟩

/-! ## Writing with a fixed number of places -/

/-- The decimal in units of `10 ^ -places`, half a unit rounded away from zero. -/
def Dec.round (d : Dec) (places : Nat) : Int :=
  if d.scale ≤ places then d.mant * 10 ^ (places - d.scale)
  else
    d.mant.sign *
      ((2 * d.mant.natAbs + 10 ^ (d.scale - places)) / (2 * 10 ^ (d.scale - places)) : Nat)

/-- The last `places` digits of `n`. -/
def padDigits : Nat → Nat → List Char
  | 0, _ => []
  | p + 1, n => padDigits p (n / 10) ++ [Nat.digitChar (n % 10)]

/-- A comma before every third digit, the digits given last first. -/
def groupRev : List Char → List Char
  | a :: b :: c :: d :: r => a :: b :: c :: ',' :: groupRev (d :: r)
  | r => r

/-- Thousands separated by commas. -/
def group (t : List Char) : List Char := (groupRev t.reverse).reverse

/-- The text of `n` units of `10 ^ -places`. -/
def fixedText (places n : Nat) : List Char :=
  group (natText (n / 10 ^ places))
    ++ if places = 0 then [] else '.' :: padDigits places (n % 10 ^ places)

/-- `number_format(d, places)`. -/
def numberFormat (d : Dec) (places : Nat) : List Char :=
  let n := d.round places
  (if n < 0 then ['-'] else []) ++ fixedText places n.natAbs

/-! ## Writing in the shortest form -/

/-- The digits without the zeros at the end. -/
def stripZeros (ds : List Char) : List Char := ds.rdropWhile fun c => c = '0'

/-- `Number::toString` of a positive decimal: `ds` its digits without the
zeros at the end, `n` the place of the point. -/
def placePoint (ds : List Char) (n : Int) : List Char :=
  if ds.length ≤ n ∧ n ≤ 21 then ds ++ List.replicate (n.toNat - ds.length) '0'
  else if 0 < n ∧ n ≤ 21 then ds.take n.toNat ++ '.' :: ds.drop n.toNat
  else if -6 < n ∧ n ≤ 0 then '0' :: '.' :: List.replicate (-n).toNat '0' ++ ds
  else
    ds.take 1 ++ (if ds.length = 1 then [] else '.' :: ds.drop 1)
      ++ 'e' :: (if n - 1 < 0 then '-' else '+') :: natText (n - 1).natAbs

/-- The shortest text of a decimal. -/
def Dec.shortest (d : Dec) : List Char :=
  if d.mant = 0 then ['0']
  else
    (if d.mant < 0 then ['-'] else [])
      ++ placePoint (stripZeros (natText d.mant.natAbs))
          ((natText d.mant.natAbs).length - d.scale : Int)

/-- A numeral whose digits before the exponent are all zero. -/
def isZeroLit (lit : List Char) : Bool :=
  (lit.takeWhile fun c => c ≠ 'e' && c ≠ 'E').all fun c => !('1' ≤ c && c ≤ '9')

/-! ## Rounding -/

/-- A decimal rounds to zero when it is nearer to zero than half a unit. -/
theorem round_eq_zero_iff (d : Dec) (places : Nat) :
    d.round places = 0 ↔ 2 * d.mant.natAbs * 10 ^ places < 10 ^ d.scale := by
  rw [Dec.round]
  split
  · next h =>
      have hp : (0 : Nat) < 10 ^ (places - d.scale) := Nat.pow_pos (by decide)
      have hpow : 10 ^ places = 10 ^ d.scale * 10 ^ (places - d.scale) := by
        rw [← Nat.pow_add, Nat.add_sub_cancel' h]
      constructor
      · intro h0
        have hm : d.mant = 0 := by
          rcases Int.mul_eq_zero.mp h0 with hm | hm
          · exact hm
          · exact absurd (show 10 ^ (places - d.scale) = 0 by exact_mod_cast hm) (by omega)
        rw [hm]
        simp
      · intro hlt
        have hm : d.mant.natAbs = 0 := by
          by_contra hne
          have hpos : 0 < d.mant.natAbs := Nat.pos_of_ne_zero hne
          have hge : 10 ^ d.scale ≤ 2 * d.mant.natAbs * 10 ^ places := by
            rw [hpow]
            calc 10 ^ d.scale = 1 * (10 ^ d.scale * 1) := by ring
              _ ≤ 2 * d.mant.natAbs * (10 ^ d.scale * 10 ^ (places - d.scale)) :=
                Nat.mul_le_mul (by omega) (Nat.mul_le_mul_left _ hp)
          omega
        rw [Int.natAbs_eq_zero.mp hm, Int.zero_mul]
  · next h =>
      have hN : (0 : Nat) < 10 ^ (d.scale - places) := Nat.pow_pos (by decide)
      have hpow : 10 ^ d.scale = 10 ^ (d.scale - places) * 10 ^ places := by
        rw [← Nat.pow_add, Nat.sub_add_cancel (by omega)]
      have hp : (0 : Nat) < 10 ^ places := Nat.pow_pos (by decide)
      have hdiv : (2 * d.mant.natAbs + 10 ^ (d.scale - places)) / (2 * 10 ^ (d.scale - places)) = 0
          ↔ 2 * d.mant.natAbs < 10 ^ (d.scale - places) := by
        rw [Nat.div_eq_zero_iff_lt (by omega)]
        omega
      rw [hpow, Nat.mul_lt_mul_right hp, ← hdiv, Int.mul_eq_zero, Int.sign_eq_zero_iff_zero]
      constructor
      · rintro (hm | hq)
        · rw [hm, Int.natAbs_zero, Nat.div_eq_zero_iff_lt (by omega)]
          omega
        · exact_mod_cast hq
      · intro hq
        exact .inr (by exact_mod_cast hq)

/-! ## The digits of a formatted number -/

theorem isDigit_digitChar {n : Nat} (h : n < 10) : (Nat.digitChar n).isDigit = true := by
  have : ∀ m < 10, (Nat.digitChar m).isDigit = true := by decide
  exact this n h

theorem isDigit_natText {n : Nat} {c : Char} (h : c ∈ natText n) : c.isDigit = true :=
  Nat.isDigit_of_mem_toDigits (by decide) (by decide) h

theorem isDigit_padDigits {c : Char} : ∀ {p n : Nat}, c ∈ padDigits p n → c.isDigit = true
  | 0, _, h => nomatch h
  | p + 1, n, h => by
      rcases List.mem_append.mp h with h | h
      · exact isDigit_padDigits h
      · rw [List.mem_singleton.mp h]
        exact isDigit_digitChar (Nat.mod_lt _ (by decide))

theorem filter_groupRev : ∀ (t : List Char), (∀ c ∈ t, c.isDigit = true) →
    (groupRev t).filter Char.isDigit = t
  | a :: b :: c :: d :: r, h => by
      have ih := filter_groupRev (d :: r) fun x hx => h x (by simp [hx])
      rw [groupRev, List.filter_cons_of_pos (h a (by simp)),
        List.filter_cons_of_pos (h b (by simp)), List.filter_cons_of_pos (h c (by simp)),
        List.filter_cons_of_neg (by decide), ih]
  | [], _ => rfl
  | [a], h => by simpa [groupRev] using h
  | [a, b], h => by simpa [groupRev] using h
  | [a, b, c], h => by simpa [groupRev] using h

theorem filter_group {t : List Char} (h : ∀ c ∈ t, c.isDigit = true) :
    (group t).filter Char.isDigit = t := by
  rw [group, List.filter_reverse, filter_groupRev _ (by simpa using h), List.reverse_reverse]

theorem ofDigitChars_padDigits : ∀ (p n : Nat) (init : Nat),
    Nat.ofDigitChars 10 (padDigits p n) init = 10 ^ p * init + n % 10 ^ p
  | 0, n, init => by simp [padDigits, Nat.mod_one]
  | p + 1, n, init => by
      have hmod : n % 10 ^ (p + 1) = 10 * (n / 10 % 10 ^ p) + n % 10 := by
        rw [Nat.pow_succ, Nat.mul_comm, Nat.mod_mul, Nat.add_comm]
      rw [padDigits, Nat.ofDigitChars_append, ofDigitChars_padDigits p (n / 10) init,
        Nat.ofDigitChars_cons_digitChar_of_lt_ten (Nat.mod_lt _ (by decide)),
        Nat.ofDigitChars_nil, hmod]
      ring

/-- Reading back the digits of a fixed-point text. -/
theorem digitsValue_fixedText (p n : Nat) : digitsValue (fixedText p n) = n := by
  have hg : (group (natText (n / 10 ^ p))).filter Char.isDigit = natText (n / 10 ^ p) :=
    filter_group fun c hc => isDigit_natText hc
  rw [digitsValue, fixedText, List.filter_append, hg, Nat.ofDigitChars_append, natText,
    Nat.ofDigitChars_ten_toDigits]
  split
  · next h => subst h; simp
  · rw [List.filter_cons_of_neg (by decide),
      List.filter_eq_self.mpr fun c hc => isDigit_padDigits hc, ofDigitChars_padDigits,
      Nat.mod_mod]
    exact Nat.div_add_mod n (10 ^ p)

theorem digitsValue_numberFormat (d : Dec) (p : Nat) :
    digitsValue (numberFormat d p) = (d.round p).natAbs := by
  rw [numberFormat]
  split
  · rw [digitsValue, List.filter_append, List.filter_cons_of_neg (by decide)]
    exact digitsValue_fixedText p _
  · exact digitsValue_fixedText p _

theorem numberFormat_ne_nil (d : Dec) : numberFormat d 2 ≠ [] :=
  List.append_ne_nil_of_right_ne_nil _ (List.append_ne_nil_of_right_ne_nil _ nofun)

/-- A price that rounds to nothing is written `0.00`, and only such a price. -/
theorem numberFormat_eq_zero_iff (d : Dec) :
    numberFormat d 2 = "0.00".toList ↔ d.round 2 = 0 := by
  constructor
  · intro h
    have hv := digitsValue_numberFormat d 2
    rw [h] at hv
    exact Int.natAbs_eq_zero.mp (hv.symm.trans (by decide))
  · intro h
    rw [numberFormat, h]
    decide

/-! ## The digits of the shortest form -/

def isNonzeroDigit (c : Char) : Bool := '1' ≤ c && c ≤ '9'

theorem isNonzeroDigit_digitChar {n : Nat} (h₀ : 0 < n) (h : n < 10) :
    isNonzeroDigit (Nat.digitChar n) = true := by
  have : ∀ m < 10, 0 < m → isNonzeroDigit (Nat.digitChar m) = true := by decide
  exact this n h h₀

theorem isDigit_of_isNonzeroDigit {c : Char} (h : isNonzeroDigit c = true) :
    c.isDigit = true := by
  simp only [isNonzeroDigit, Bool.and_eq_true, decide_eq_true_eq] at h
  simp only [Char.isDigit, Bool.and_eq_true, decide_eq_true_eq]
  exact ⟨Char.le_trans (by decide) h.1, h.2⟩

/-- A positive number is not written with a leading zero. -/
theorem natText_cons (n : Nat) (h : 0 < n) :
    ∃ c r, natText n = c :: r ∧ isNonzeroDigit c = true := by
  induction n using Nat.strongRecOn with
  | ind n ih =>
      by_cases hn : n < 10
      · exact ⟨_, [], Nat.toDigits_of_lt_base hn, isNonzeroDigit_digitChar h hn⟩
      · obtain ⟨c, r, hc, hd⟩ := ih (n / 10) (by omega) (by omega)
        refine ⟨c, r ++ [Nat.digitChar (n % 10)], ?_, hd⟩
        rw [natText] at hc
        rw [natText, Nat.toDigits_of_base_le (by decide) (by omega), hc, List.cons_append]

theorem stripZeros_cons {c : Char} (h : c ≠ '0') (ds : List Char) :
    stripZeros (c :: ds) = c :: stripZeros ds := by
  have hc : [c].dropWhile (fun c => decide (c = '0')) = [c] :=
    List.dropWhile_cons_of_neg (by simpa using h)
  rw [stripZeros, stripZeros, List.rdropWhile, List.rdropWhile, List.reverse_cons,
    List.dropWhile_append, hc]
  split
  · next hnil => rw [List.isEmpty_iff.mp hnil]; rfl
  · rw [List.reverse_append]; rfl

/-- The digits a positive number's shortest form is made of. -/
theorem stripZeros_natText {n : Nat} (h : 0 < n) :
    ∃ c ds, stripZeros (natText n) = c :: ds ∧ isNonzeroDigit c = true ∧
      ∀ x ∈ ds, x.isDigit = true := by
  obtain ⟨c, r, hr, hc⟩ := natText_cons n h
  refine ⟨c, stripZeros r, ?_, hc, fun x hx => ?_⟩
  · rw [hr, stripZeros_cons]
    rintro rfl
    exact absurd hc (by decide)
  · have hx' : x ∈ r := (List.rdropWhile_prefix _ r).subset hx
    exact isDigit_natText (hr ▸ List.mem_cons_of_mem _ hx')

/-- The first digit comes after nothing but zeros and the point. -/
theorem placePoint_cons (c : Char) (ds : List Char) (n : Int) :
    ∃ pre post, placePoint (c :: ds) n = pre ++ c :: post ∧ ∀ x ∈ pre, x = '0' ∨ x = '.' := by
  rw [placePoint]
  split
  · exact ⟨[], _, rfl, nofun⟩
  · split
    · next h =>
        obtain ⟨k, hk⟩ : ∃ k, n.toNat = k + 1 := ⟨n.toNat - 1, by omega⟩
        rw [hk]
        exact ⟨[], _, rfl, nofun⟩
    · split
      · refine ⟨'0' :: '.' :: List.replicate (-n).toNat '0', ds, rfl, fun x hx => ?_⟩
        rcases List.mem_cons.mp hx with rfl | hx
        · exact .inl rfl
        · rcases List.mem_cons.mp hx with rfl | hx
          · exact .inr rfl
          · exact .inl (List.eq_of_mem_replicate hx)
      · exact ⟨[], _, rfl, nofun⟩

theorem isZeroLit_shortest (d : Dec) : isZeroLit d.shortest = true ↔ d.mant = 0 := by
  constructor
  · intro h
    by_contra hm
    obtain ⟨c, ds, hds, hc, -⟩ := stripZeros_natText (n := d.mant.natAbs) (by omega)
    obtain ⟨pre, post, hpp, hpre⟩ :=
      placePoint_cons c ds ((natText d.mant.natAbs).length - d.scale : Int)
    rw [Dec.shortest, if_neg hm, hds, hpp, ← List.append_assoc, isZeroLit,
      List.takeWhile_append_of_pos, List.takeWhile_cons_of_pos, List.all_append, List.all_cons,
      Bool.and_eq_true, Bool.and_eq_true] at h
    · rw [isNonzeroDigit] at hc
      rw [hc] at h
      exact nomatch h.2.1
    · have hne : c ≠ 'e' ∧ c ≠ 'E' := by
        constructor <;> (rintro rfl; exact absurd hc (by decide))
      simpa using hne
    · intro x hx
      rcases List.mem_append.mp hx with hx | hx
      · split at hx
        · rw [List.mem_singleton.mp hx]; decide
        · exact nomatch hx
      · rcases hpre x hx with rfl | rfl <;> decide
  · intro h
    rw [Dec.shortest, if_pos h]
    decide

end Decimals
