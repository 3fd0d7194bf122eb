/-
# `WebTech.MarketCap` — a market capitalisation, written twice

The column is a numeral and perhaps a letter.  search_stock.php takes the last
byte for the letter whatever it is; search_stock1.php drops what comes after
the numeral.

    474.2B    474.2B    474.20       474 dollars
    12345     1,234.05  12,345.00    the 5 has become cents

With a letter the page keeps the amount and the document does not; without one
it is the other way round, but for the few numerals whose last digit is in the
place where the page puts it (`kept_iff`).
-/
import WebTech.FieldFidelity
import WebTech.SearchPage
import WebTech.Lib.Magnitude

namespace WebTech.MarketCap

open WebTech.Producer Decimals Utf8

/-! ## Amounts -/

inductive Letter where
  | K | M | B | T
  deriving DecidableEq, Repr

def Letter.char : Letter → Char
  | .K => 'K'
  | .M => 'M'
  | .B => 'B'
  | .T => 'T'

def letterOf : Char → Option Letter
  | 'K' => some .K
  | 'M' => some .M
  | 'B' => some .B
  | 'T' => some .T
  | _ => none

def suffixText : Option Letter → Text
  | some l => [l.char]
  | none => []

/-- What a numeral is multiplied by. -/
def factor : Option Letter → Rat
  | some .K => 10 ^ 3
  | some .M => 10 ^ 6
  | some .B => 10 ^ 9
  | some .T => 10 ^ 12
  | none => 1

/-- A displayed string read back: its commas dropped, a numeral and perhaps a
letter. -/
def reading (t : Text) : Option (Text × Option Letter) :=
  let t := dropCommas t
  match t.getLast?.bind letterOf with
  | some l => if isUnsigned t.dropLast then some (t.dropLast, some l) else none
  | none => if isUnsigned t then some (t, none) else none

/-- **The amount is kept**: what is read back differs from it by half a unit of
the last decimal displayed, at most. -/
def Kept (shown : PhpString) (numeral : Text) (letter : Option Letter) : Prop :=
  ∃ t w l, shown = encode t ∧ reading t = some (w, l) ∧
    |magnitude w * factor l - magnitude numeral * factor letter| ≤ factor l / (2 * 10 ^ decimals w)

/-- The last digit of `m`, a number of so many decimals, is right in the second
place after the point. -/
def RightPlace (m : Nat) : Nat → Prop
  | 0 => m = 0
  | 1 => m % 10 = 0
  | 2 => True
  | k + 3 =>
      let tail := 10 ^ (k + 1)
      let second := m / tail % 10
      (second ≤ 4 ∧ m % 10 = second ∧ 2 * (m % tail) ≤ tail) ∨
      (second ≤ 4 ∧ m % 10 = second + 1 ∧ tail ≤ 2 * (m % tail)) ∨
      (second = 9 ∧ m % 10 = 0 ∧ tail ≤ 2 * (m % tail))

/-- A numeral that ends in a digit, that digit right in the second place. -/
def LastDigitKept (u : Text) : Prop :=
  u.getLast? ≠ some '.' ∧ RightPlace (digitsValue u) (decimals u)

/-- When both strings keep the amount. -/
def KeptByBoth (u : Text) : Option Letter → Prop
  | some l => magnitude u * factor (some l) ≤ 1 / 200
  | none => LastDigitKept u

/-! ## Reading back -/

theorem letterOf_char (l : Letter) : letterOf l.char = some l := by
  cases l <;> rfl

theorem letterOf_numeral {c : Char} (h : c.isDigit = true ∨ c = '.') : letterOf c = none := by
  have hne : ∀ x : Char, x.isDigit = false → x ≠ '.' → c ≠ x := by
    rintro x hx hpoint rfl
    rcases h with h | h
    · exact nomatch hx.symm.trans h
    · exact hpoint h
  rw [letterOf]
  · exact hne 'K' (by decide) (by decide)
  · exact hne 'M' (by decide) (by decide)
  · exact hne 'B' (by decide) (by decide)
  · exact hne 'T' (by decide) (by decide)

/-- The characters of a numeral. -/
theorem mem_isUnsigned {u : Text} (h : isUnsigned u = true) {c : Char} (hc : c ∈ u) :
    c.isDigit = true ∨ c = '.' := by
  simp only [isUnsigned, Bool.and_eq_true, List.all_eq_true, Bool.or_eq_true,
    decide_eq_true_eq] at h
  exact h.1.2 c hc

/-- The last character of a numeral. -/
theorem isUnsigned_snoc {u : Text} (h : isUnsigned u = true) :
    ∃ v c, u = v ++ [c] ∧ (c.isDigit = true ∨ c = '.') := by
  rcases List.eq_nil_or_concat' u with rfl | ⟨v, c, rfl⟩
  · exact nomatch h
  · exact ⟨v, c, rfl, mem_isUnsigned h (List.mem_append_right v List.mem_cons_self)⟩

theorem reading_number {t w : Text} (ht : dropCommas t = w) (hw : isUnsigned w = true) :
    reading t = some (w, none) := by
  obtain ⟨v, c, rfl, hc⟩ := isUnsigned_snoc hw
  simp only [reading, ht, List.getLast?_concat, Option.bind_some, letterOf_numeral hc, if_pos hw]

theorem reading_letter {t w : Text} {l : Letter} (ht : dropCommas t = w ++ [l.char])
    (hw : isUnsigned w = true) : reading t = some (w, some l) := by
  simp only [reading, ht, List.getLast?_concat, Option.bind_some, letterOf_char,
    List.dropLast_concat, if_pos hw]

/-- Nothing with two points is a number. -/
theorem reading_two_points {t : Text} {int : Text} {d : Char}
    (ht : dropCommas t = int ++ ['.', d, '.']) : reading t = none := by
  have hlast : int ++ ['.', d, '.'] = (int ++ ['.', d]) ++ ['.'] := by simp
  have hno : isUnsigned (int ++ ['.', d, '.']) = false := by
    rw [isUnsigned, Bool.and_eq_false_iff]
    refine .inr (decide_eq_false ?_)
    rw [List.count_append, List.count_cons_self]
    have : 0 < [d, '.'].count '.' := List.count_pos_iff.mpr (by simp)
    omega
  have hnone : (int ++ ['.', d, '.']).getLast?.bind letterOf = none := by
    rw [hlast, List.getLast?_concat]
    rfl
  simp only [reading, ht, hnone, hno]
  rfl

/-! ## Bytes and characters -/

theorem ascii_of_numeral {c : Char} (h : c.isDigit = true ∨ c = '.') : c.toNat < 128 := by
  rcases h with h | rfl
  · have := (isPriceChar_range (isPriceChar_of_isDigit h)).2
    omega
  · decide

/-- The bytes of an ASCII text are read as its characters. -/
theorem floatval_encode {t : Text} (h : ∀ c ∈ t, c.toNat < 128) :
    Producer.floatval (encode t) = Decimals.floatval t := by
  rw [Producer.floatval, encode_ascii h, List.map_map]
  refine congrArg Decimals.floatval ?_
  refine (List.map_congr_left fun c hc => ?_).trans (List.map_id t)
  exact ofNat_byte (h c hc)

/-- The last byte is the last character. -/
theorem marketCap_snoc {v : Text} {c : Char} (hc : c.toNat < 128) :
    SearchPage.marketCap (encode (v ++ [c])) =
      SearchPage.number_format (encode v) 1 ++ encode [c] := by
  have hone : encode [c] = [c.toNat.toUInt8] := by
    rw [encode_cons, encodeChar_ascii hc]
    rfl
  have hlen : (encode (v ++ [c])).length - 1 = (encode v).length := by
    rw [encode_append, hone, List.length_append]
    rfl
  rw [SearchPage.marketCap, hlen, encode_append, List.take_left, List.drop_left]

/-! ## Without a letter -/

theorem kept_of_reading {t w u : Text} {l l' : Option Letter} (h : reading t = some (w, l')) :
    Kept (encode t) u l ↔
      |magnitude w * factor l' - magnitude u * factor l| ≤ factor l' / (2 * 10 ^ decimals w) := by
  constructor
  · rintro ⟨t', w', l'', ht, hr, hle⟩
    cases encode_injective ht
    cases h.symm.trans hr
    exact hle
  · intro hle
    exact ⟨t, w, l', rfl, h, hle⟩

/-- Two decimals compared as integers. -/
theorem abs_hundredths_iff (x y T : Nat) (hT : 0 < T) :
    |(x : Rat) / 10 ^ 2 - y / T| ≤ 1 / (2 * 10 ^ 2) ↔
      |(2 * T * x : Int) - 200 * y| ≤ T := by
  have hT' : (0 : Rat) < T := Nat.cast_pos.mpr hT
  have heq : (x : Rat) / 10 ^ 2 - y / T = ((2 * T * x - 200 * y : Int) : Rat) / (200 * T) := by
    push_cast
    field_simp
    ring
  rw [heq, abs_div, abs_of_pos (show (0 : Rat) < 200 * T by linarith), div_le_iff₀ (by linarith),
    ← Int.cast_abs]
  have hmul : (1 : Rat) / (2 * 10 ^ 2) * (200 * T) = ((T : Int) : Rat) := by
    push_cast
    ring
  rw [hmul, Int.cast_le]

/-- A difference of `e` hundredths and a tail below one hundredth: half a
hundredth away from nothing in two ways only. -/
theorem half_hundredth_iff (P y e : Int) (hP : 0 < P) (hy : 0 ≤ y) (hlt : y < 10 * P) :
    (-(1000 * P) ≤ 2000 * (P * e) - 200 * y ∧ 2000 * (P * e) - 200 * y ≤ 1000 * P) ↔
      (e = 0 ∧ 2 * y ≤ 10 * P) ∨ (e = 1 ∧ 10 * P ≤ 2 * y) := by
  constructor
  · rintro ⟨hlo, hhi⟩
    have hge : 0 ≤ e := by
      by_contra hneg
      have : P * e ≤ P * (-1) := Int.mul_le_mul_of_nonneg_left (by omega) (by omega)
      omega
    have hle : e ≤ 1 := by
      by_contra hbig
      have : P * 2 ≤ P * e := Int.mul_le_mul_of_nonneg_left (by omega) (by omega)
      omega
    rcases show e = 0 ∨ e = 1 by omega with rfl | rfl
    · exact .inl ⟨rfl, by omega⟩
    · exact .inr ⟨rfl, by omega⟩
  · rintro (⟨rfl, h⟩ | ⟨rfl, h⟩)
    · omega
    · omega

/-- **The last digit moved**: `m = 10 a + d`, of `k` decimals, is shown as `a`
rounded to one place, with `d` after it. -/
theorem rightPlace_iff (a d k : Nat) (hd : d < 10) {r : Nat} (hr : Dec.round ⟨a, k - 1⟩ 1 = r) :
    |((10 * r + d : Nat) : Rat) / 10 ^ 2 - ((10 * a + d : Nat) : Rat) / 10 ^ k| ≤ 1 / (2 * 10 ^ 2) ↔
      RightPlace (10 * a + d) k := by
  rw [round_natCast, Int.natCast_inj] at hr
  have hcast : (10 : Rat) ^ k = ((10 ^ k : Nat) : Rat) := by rw [Nat.cast_pow]; rfl
  rw [hcast, abs_hundredths_iff _ _ _ (Nat.pow_pos (by decide)), abs_le]
  match k with
  | 0 =>
      rw [if_pos (by decide)] at hr
      simp only [RightPlace, Nat.pow_zero]
      omega
  | 1 =>
      rw [if_pos (by decide)] at hr
      simp only [RightPlace]
      omega
  | 2 =>
      have hr' : a = r := by simpa using hr
      have hsquare : ((10 ^ 2 : Nat) : Int) = 100 := rfl
      refine iff_of_true ?_ trivial
      rw [hsquare]
      omega
  | k + 3 =>
      rw [if_neg (by omega)] at hr
      have htail : 10 ^ (k + 3 - 1 - 1) = 10 * 10 ^ k := by
        rw [show k + 3 - 1 - 1 = k + 1 from rfl, Nat.pow_succ, Nat.mul_comm]
      have hbig : 10 ^ (k + 3) = 1000 * 10 ^ k := by rw [Nat.pow_add, Nat.mul_comm]
      have hpos : 0 < 10 ^ k := Nat.pow_pos (by decide)
      rw [htail] at hr
      -- the digits up to the second decimal
      have hfirst : r = (a / 10 ^ k + 5) / 10 := by
        rw [← hr, show 2 * a + 10 * 10 ^ k = 2 * (a + 5 * 10 ^ k) by ring,
          Nat.mul_div_mul_left _ _ (by decide), Nat.mul_comm 10, ← Nat.div_div_eq_div_mul,
          Nat.add_mul_div_right _ _ hpos]
      have hsecond : (10 * a + d) / (10 * 10 ^ k) = a / 10 ^ k := by
        rw [← Nat.div_div_eq_div_mul, show (10 * a + d) / 10 = a by omega]
      have hpow : 10 ^ (k + 1) = 10 * 10 ^ k := by rw [Nat.pow_succ, Nat.mul_comm]
      have hdiv := Nat.div_add_mod (10 * a + d) (10 * 10 ^ k)
      have hmod := Nat.mod_lt (10 * a + d) (show 0 < 10 * 10 ^ k by omega)
      rw [hsecond] at hdiv
      have hlast : (10 * a + d) % 10 = d := by omega
      simp only [RightPlace, hpow, hbig, hsecond, hlast]
      generalize (10 * a + d) % (10 * 10 ^ k) = y at *
      generalize a / 10 ^ k = n at *
      generalize 10 ^ k = P at *
      have hdiv' : (10 * (P * n) + y : Int) = 10 * a + d := by
        rw [← Int.mul_assoc]
        exact_mod_cast hdiv
      have hshift : (2 * (1000 * P : Nat) * (10 * r + d : Nat) - 200 * (10 * a + d : Nat) : Int) =
          2000 * (P * (10 * r + d - n)) - 200 * y := by
        push_cast
        rw [← hdiv']
        ring
      rw [hshift, Nat.cast_mul]
      rw [show ((1000 : Nat) : Int) = 1000 from rfl, half_hundredth_iff P y _ (by omega) (by omega)
        (by omega)]
      omega

/-- What search_stock.php shows for a text: all but the last character as a
number with one place, and the last character. -/
theorem page_shown {v : Text} {c : Char} (hv : ∀ x ∈ v, x.isDigit = true ∨ x = '.')
    (hc : c.toNat < 128) :
    SearchPage.marketCap (encode (v ++ [c])) =
      encode (numberFormat (Decimals.floatval v) 1 ++ [c]) := by
  rw [marketCap_snoc hc, SearchPage.number_format, floatval_encode fun x hx => ascii_of_numeral (hv x hx),
    ← encode_append]

/-- The number with one place and a digit after it, read back. -/
theorem reading_cut {x : Dec} {r : Nat} (hr : x.round 1 = r) {c : Char} (hc : c.isDigit = true) :
    ∃ w, reading (numberFormat x 1 ++ [c]) = some (w, none) ∧ decimals w = 2 ∧
      digitsValue w = 10 * r + digitsValue [c] := by
  have hint : ∀ y ∈ natText (r / 10 ^ 1), y.isDigit = true := fun y hy => isDigit_natText hy
  have hpad : ∀ y ∈ padDigits 1 (r % 10 ^ 1) ++ [c], y.isDigit = true := by
    intro y hy
    rcases List.mem_append.mp hy with hy | hy
    · exact isDigit_padDigits hy
    · rw [List.mem_singleton.mp hy]
      exact hc
  have hne : natText (r / 10 ^ 1) ++ (padDigits 1 (r % 10 ^ 1) ++ [c]) ≠ [] :=
    List.append_ne_nil_of_left_ne_nil (natText_ne_nil _) _
  have hdrop : dropCommas (numberFormat x 1 ++ [c]) =
      natText (r / 10 ^ 1) ++ '.' :: (padDigits 1 (r % 10 ^ 1) ++ [c]) := by
    rw [dropCommas_append, dropCommas_numberFormat hr, dropCommas_cons (ne_comma_of_isDigit hc),
      List.append_assoc]
    rfl
  refine ⟨_, reading_number hdrop (isUnsigned_point hint hpad hne), ?_, ?_⟩
  · rw [decimals_point hint, List.length_append, length_padDigits]
    rfl
  · have hsnoc : natText (r / 10 ^ 1) ++ '.' :: (padDigits 1 (r % 10 ^ 1) ++ [c]) =
        (natText (r / 10 ^ 1) ++ '.' :: padDigits 1 (r % 10 ^ 1)) ++ [c] := by
      rw [List.append_assoc, List.cons_append]
    rw [hsnoc, digitsValue_snoc _ hc, digitsValue_places]

/-- search_stock.php keeps a numeral that ends in a digit when that digit is
right in the second place. -/
theorem page_kept_digit {v : Text} {c : Char} {k : Nat}
    (hv : ∀ x ∈ v, x.isDigit = true ∨ x = '.') (hc : c.isDigit = true)
    (hread : Decimals.floatval v = ⟨digitsValue v, k - 1⟩) (hk : decimals (v ++ [c]) = k) :
    Kept (SearchPage.marketCap (encode (v ++ [c]))) (v ++ [c]) none ↔
      RightPlace (digitsValue (v ++ [c])) k := by
  obtain ⟨r, hr⟩ : ∃ r : Nat, Dec.round ⟨digitsValue v, k - 1⟩ 1 = r := ⟨_, round_natCast _ _ _⟩
  obtain ⟨w, hw, hdec, hval⟩ := reading_cut (hread ▸ hr : (Decimals.floatval v).round 1 = r) hc
  rw [page_shown hv (ascii_of_numeral (.inl hc)), kept_of_reading hw, magnitude, magnitude, hdec, hval,
    hk, digitsValue_snoc v hc, ← rightPlace_iff _ _ _ (digitsValue_digit_lt hc) hr]
  show |_ * 1 - _ * 1| ≤ 1 / _ ↔ _
  rw [mul_one, mul_one]

/-- A numeral that ends in a point is shown with two. -/
theorem page_not_kept_point {v : Text} (hv : ∀ x ∈ v, x.isDigit = true) :
    ¬ Kept (SearchPage.marketCap (encode (v ++ ['.']))) (v ++ ['.']) none := by
  obtain ⟨r, hr⟩ : ∃ r : Nat, Dec.round ⟨digitsValue v, 0⟩ 1 = r := ⟨_, round_natCast _ _ _⟩
  rw [page_shown (fun x hx => .inl (hv x hx)) (by decide), floatval_digits hv]
  have hdrop : dropCommas (numberFormat ⟨digitsValue v, 0⟩ 1 ++ ['.']) =
      natText (r / 10 ^ 1) ++ ['.', Nat.digitChar (r % 10 ^ 1 % 10), '.'] := by
    rw [dropCommas_append, dropCommas_numberFormat hr, List.append_assoc]
    rfl
  rintro ⟨t, w, l, ht, hread, -⟩
  cases encode_injective ht
  exact nomatch (reading_two_points hdrop).symm.trans hread

/-- **search_stock.php without a letter.** -/
theorem page_kept_iff {u : Text} (hu : isUnsigned u = true) :
    Kept (SearchPage.marketCap (encode u)) u none ↔ LastDigitKept u := by
  obtain ⟨int, frac, hint, hfrac, hne, ht⟩ := isUnsigned_cases hu
  have hpoint : ∀ {c : Char}, c.isDigit = true → c ≠ '.' := by
    rintro c hc rfl
    exact absurd hc (by decide)
  rcases ht with ⟨rfl, rfl⟩ | rfl
  · rw [List.append_nil] at hne
    obtain ⟨v, c, rfl⟩ := (List.eq_nil_or_concat' u).resolve_left hne
    obtain ⟨hv, hc⟩ := List.forall_mem_append.mp hint
    have hc := hc c List.mem_cons_self
    rw [LastDigitKept, List.getLast?_concat, page_kept_digit (fun x hx => .inl (hv x hx)) hc
      (floatval_digits hv) (decimals_digits hint), decimals_digits hint]
    refine (and_iff_right ?_).symm
    rw [Ne, Option.some_inj]
    exact hpoint hc
  · rcases List.eq_nil_or_concat' frac with rfl | ⟨f, c, rfl⟩
    · refine iff_of_false (page_not_kept_point hint) ?_
      rintro ⟨h, -⟩
      rw [List.getLast?_concat] at h
      exact h rfl
    · obtain ⟨hf, hc⟩ := List.forall_mem_append.mp hfrac
      have hc := hc c List.mem_cons_self
      have hsnoc : int ++ '.' :: (f ++ [c]) = (int ++ '.' :: f) ++ [c] := by
        rw [List.append_assoc, List.cons_append]
      have hdec : decimals ((int ++ '.' :: f) ++ [c]) = f.length + 1 := by
        rw [← hsnoc, decimals_point hint, List.length_append]
        rfl
      have hv : ∀ x ∈ int ++ '.' :: f, x.isDigit = true ∨ x = '.' := by
        intro x hx
        rcases List.mem_append.mp hx with hx | hx
        · exact .inl (hint x hx)
        · rcases List.mem_cons.mp hx with rfl | hx
          · exact .inr rfl
          · exact .inl (hf x hx)
      have hread : Decimals.floatval (int ++ '.' :: f) =
          ⟨digitsValue (int ++ '.' :: f), f.length + 1 - 1⟩ := by
        rw [floatval_point hint hf, digitsValue_point]
        rfl
      rw [hsnoc, LastDigitKept, List.getLast?_concat, page_kept_digit hv hc hread hdec, hdec]
      refine (and_iff_right ?_).symm
      rw [Ne, Option.some_inj]
      exact hpoint hc

/-! ## With a letter, and in the document -/

/-- A number of a numeral's digits, with some places and perhaps a letter, is
read back as the rounded number. -/
theorem reading_places {x : Dec} {p r : Nat} (hr : x.round (p + 1) = r) (l : Option Letter) :
    ∃ w, reading (numberFormat x (p + 1) ++ suffixText l) = some (w, l) ∧ decimals w = p + 1 ∧
      digitsValue w = r := by
  have hint : ∀ y ∈ natText (r / 10 ^ (p + 1)), y.isDigit = true := fun y hy => isDigit_natText hy
  have hpad : ∀ y ∈ padDigits (p + 1) (r % 10 ^ (p + 1)), y.isDigit = true :=
    fun y hy => isDigit_padDigits hy
  have hw := isUnsigned_point hint hpad (List.append_ne_nil_of_left_ne_nil (natText_ne_nil _) _)
  have hdec : decimals (natText (r / 10 ^ (p + 1)) ++ '.' :: padDigits (p + 1) (r % 10 ^ (p + 1))) =
      p + 1 := by rw [decimals_point hint, length_padDigits]
  refine ⟨_, ?_, hdec, digitsValue_places (p + 1) r⟩
  cases l with
  | none =>
      refine reading_number ?_ hw
      rw [dropCommas_append, dropCommas_numberFormat hr]
      exact List.append_nil _
  | some l =>
      refine reading_letter ?_ hw
      have hl : l.char ≠ ',' := by cases l <;> decide
      rw [dropCommas_append, dropCommas_numberFormat hr]
      exact congrArg _ (dropCommas_cons hl [])

theorem factor_pos (l : Option Letter) : 0 < factor l := by
  match l with
  | some .K | some .M | some .B | some .T => norm_num [factor]
  | none => norm_num [factor]

theorem factor_ge (l : Letter) : 1000 ≤ factor (some l) := by
  cases l <;> norm_num [factor]

theorem endsNumeral_suffixText (l : Option Letter) : EndsNumeral (suffixText l) := by
  intro c r h
  cases l with
  | none => exact nomatch h
  | some l =>
      cases l <;> (cases h; decide)

/-- The numeral of a text, whatever letter it has. -/
theorem floatval_text {u : Text} (hu : isUnsigned u = true) (l : Option Letter) :
    Producer.floatval (encode (u ++ suffixText l)) = ⟨digitsValue u, decimals u⟩ := by
  have hascii : ∀ c ∈ u ++ suffixText l, c.toNat < 128 := by
    intro c hc
    rcases List.mem_append.mp hc with hc | hc
    · exact ascii_of_numeral (mem_isUnsigned hu hc)
    · cases l with
      | none => exact nomatch hc
      | some l =>
          rw [List.mem_singleton.mp hc]
          cases l <;> decide
  rw [floatval_encode hascii, floatval_unsigned hu (endsNumeral_suffixText l)]

/-- A number rounded to some places, in the unit of a letter. -/
theorem rounded_within {u : Text} {p r : Nat} (hr : Dec.round ⟨digitsValue u, decimals u⟩ p = r)
    (l : Option Letter) :
    |(r : Rat) / 10 ^ p * factor l - magnitude u * factor l| ≤ factor l / (2 * 10 ^ p) := by
  have hle := abs_round_sub_le ⟨digitsValue u, decimals u⟩ p
  have hpow : (0 : Rat) < 10 ^ p := by positivity
  have hvalue : Dec.value ⟨digitsValue u, decimals u⟩ = magnitude u := by
    rw [Dec.value, magnitude, Int.cast_natCast]
  rw [hr, hvalue, Int.cast_natCast] at hle
  have heq : (r : Rat) / 10 ^ p * factor l - magnitude u * factor l =
      (r - magnitude u * 10 ^ p) * (factor l / 10 ^ p) := by
    field_simp
  rw [heq, abs_mul, abs_of_pos (div_pos (factor_pos l) hpow)]
  calc |(r : Rat) - magnitude u * 10 ^ p| * (factor l / 10 ^ p)
      ≤ 1 / 2 * (factor l / 10 ^ p) :=
        mul_le_mul_of_nonneg_right hle (div_pos (factor_pos l) hpow).le
    _ = factor l / (2 * 10 ^ p) := by
        field_simp

/-- **search_stock.php with a letter** keeps the amount. -/
theorem page_kept_letter {u : Text} (hu : isUnsigned u = true) (l : Letter) :
    Kept (SearchPage.marketCap (encode (u ++ suffixText (some l)))) u (some l) := by
  obtain ⟨r, hr⟩ : ∃ r : Nat, Dec.round ⟨digitsValue u, decimals u⟩ 1 = r := ⟨_, round_natCast _ _ _⟩
  have hread : Decimals.floatval u = ⟨digitsValue u, decimals u⟩ := by
    have := floatval_unsigned hu endsNumeral_nil
    rwa [List.append_nil] at this
  obtain ⟨w, hw, hdec, hval⟩ := reading_places (hread ▸ hr : (Decimals.floatval u).round 1 = r) (some l)
  have hl : l.char.toNat < 128 := by cases l <;> decide
  have hw' : reading (numberFormat (Decimals.floatval u) 1 ++ [l.char]) = some (w, some l) := hw
  rw [suffixText, page_shown (fun x hx => mem_isUnsigned hu hx) hl, kept_of_reading hw', magnitude, hdec,
    hval]
  exact rounded_within hr (some l)

section Document
variable (company : PhpString) (q : Quote) (channel : List ChannelChild)

/-- What the document holds for a numeral, whatever letter it has. -/
theorem document_shown {u : Text} (hu : isUnsigned u = true) {l : Option Letter}
    (hq : q.MarketCapitalization = u ++ suffixText l) :
    (document company q.columns channel).textAt ["Quote", "MarketCapitalization"] =
      some (encode (numberFormat ⟨digitsValue u, decimals u⟩ 2)) := by
  show some (Producer.number_format (Producer.floatval (encode q.MarketCapitalization))) = _
  rw [hq, floatval_text hu]
  rfl

/-- **search_stock1.php**: without a letter the amount is kept; with one, only an
amount that is next to nothing. -/
theorem document_kept_iff (u : Text) (l : Option Letter) :
    Kept (encode (numberFormat ⟨digitsValue u, decimals u⟩ 2)) u l ↔
      l = none ∨ magnitude u * factor l ≤ 1 / 200 := by
  obtain ⟨r, hr⟩ : ∃ r : Nat, Dec.round ⟨digitsValue u, decimals u⟩ 2 = r := ⟨_, round_natCast _ _ _⟩
  obtain ⟨w, hw, hdec, hval⟩ := reading_places hr none
  have hwithin := rounded_within hr none
  rw [suffixText, List.append_nil] at hw
  rw [kept_of_reading hw, magnitude, hdec, hval]
  have hone : factor none = 1 := rfl
  simp only [hone, mul_one] at hwithin ⊢
  cases l with
  | none =>
      refine iff_of_true ?_ (.inl rfl)
      rw [hone, mul_one]
      exact hwithin
  | some l =>
      have hm := magnitude_nonneg u
      have hr0 : (0 : Rat) ≤ r := Nat.cast_nonneg r
      have hprod : magnitude u * 1000 ≤ magnitude u * factor (some l) :=
        mul_le_mul_of_nonneg_left (factor_ge l) hm
      rw [or_iff_right (Option.some_ne_none l)]
      rw [abs_le] at hwithin ⊢
      norm_num at hwithin ⊢
      constructor
      · rintro ⟨hlo, -⟩
        -- one hundredth displayed stands for too little, a thousand times more is meant
        rcases Nat.eq_zero_or_pos r with rfl | hpos
        · norm_num at hlo
          exact hlo
        · have hr1 : (1 : Rat) ≤ r := by exact_mod_cast hpos
          linarith
      · intro hsmall
        have hlt : (r : Rat) < 1 := by linarith
        have hzero : r = 0 := by
          have : r < 1 := by exact_mod_cast hlt
          omega
        subst hzero
        norm_num
        constructor
        · exact hsmall
        · linarith

/-- **When both strings keep the amount.** -/
theorem kept_iff {u : Text} {l : Option Letter} (hu : isUnsigned u = true)
    (hq : q.MarketCapitalization = u ++ suffixText l) :
    (Kept (SearchPage.marketCap (read q.columns "MarketCapitalization")) u l ∧
      ∃ shown, (document company q.columns channel).textAt ["Quote", "MarketCapitalization"] =
        some shown ∧ Kept shown u l) ↔ KeptByBoth u l := by
  have hdoc : (∃ shown, (document company q.columns channel).textAt ["Quote", "MarketCapitalization"] =
      some shown ∧ Kept shown u l) ↔ l = none ∨ magnitude u * factor l ≤ 1 / 200 := by
    rw [← document_kept_iff u l, document_shown company q channel hu hq]
    constructor
    · rintro ⟨_, ⟨⟩, h⟩
      exact h
    · intro h
      exact ⟨_, rfl, h⟩
  have hread : read q.columns "MarketCapitalization" = encode (u ++ suffixText l) := by
    rw [← hq]
    rfl
  rw [hdoc, hread]
  cases l with
  | none =>
      have hnone : u ++ suffixText none = u := List.append_nil u
      rw [hnone, page_kept_iff hu, KeptByBoth]
      exact and_iff_left (.inl rfl)
  | some l =>
      rw [or_iff_right (Option.some_ne_none l), KeptByBoth]
      exact and_iff_right (page_kept_letter hu l)

end Document

/-- A capitalisation of two decimals and no letter. -/
theorem twoDecimals_kept :
    isUnsigned "474.25".toList = true ∧
    Kept (SearchPage.marketCap (read
        { ordinaryQuote with MarketCapitalization := "474.25".toList }.columns "MarketCapitalization"))
      "474.25".toList none ∧
      ∃ shown, (document (lit "AAPL")
        { ordinaryQuote with MarketCapitalization := "474.25".toList }.columns []).textAt
          ["Quote", "MarketCapitalization"] = some shown ∧ Kept shown "474.25".toList none := by
  have hu : isUnsigned "474.25".toList = true := by decide
  have hkept : KeptByBoth "474.25".toList none := ⟨by decide, trivial⟩
  exact ⟨hu, (kept_iff (l := none) (lit "AAPL")
    { ordinaryQuote with MarketCapitalization := "474.25".toList } [] hu rfl).mpr hkept⟩

/-- 474.2 billion becomes 474.20, and 12345 becomes 1,234.05. -/
theorem not_kept :
    (isUnsigned "474.2".toList = true ∧
      ∀ shown, (document (lit "AAPL") ordinaryQuote.columns []).textAt
        ["Quote", "MarketCapitalization"] = some shown → ¬ Kept shown "474.2".toList (some .B)) ∧
    (isUnsigned "12345".toList = true ∧
      ¬ Kept (SearchPage.marketCap (encode "12345".toList)) "12345".toList none) := by
  refine ⟨⟨by decide, ?_⟩, by decide, ?_⟩
  · intro shown hshown hkept
    have hu : isUnsigned "474.2".toList = true := by decide
    rw [document_shown (l := some .B) (lit "AAPL") ordinaryQuote [] hu rfl] at hshown
    cases hshown
    rcases (document_kept_iff _ (some .B)).mp hkept with h | h
    · exact nomatch h
    · have hvalue : digitsValue "474.2".toList = 4742 ∧ decimals "474.2".toList = 1 := by decide
      rw [magnitude, hvalue.1, hvalue.2, factor] at h
      norm_num at h
  · intro hkept
    have hlast := ((page_kept_iff (u := "12345".toList) (by decide)).mp hkept).2
    have hvalue : digitsValue "12345".toList = 12345 ∧ decimals "12345".toList = 0 := by decide
    rw [hvalue.1, hvalue.2] at hlast
    exact absurd (show (12345 : Nat) = 0 from hlast) (by decide)

end WebTech.MarketCap
