/-
# `WebTech.Lib.Shortest` — the literals that are their own shortest text

A decimal literal is printed again as it was written when nothing in it is
needless: no zero in front, no zero at the end, no minus of zero, and few
enough digits that no exponent takes their place.

    shortest (floatval t) = t  ⟺  nothing in `t` is needless      (`shortest_floatval_iff`)
    scanning the shortest text gives the same number              (`scan_shortest`)
    a formatted number with a digit more, place by place          (`numberFormat_snoc_iff`)
-/
import WebTech.Lib.Magnitude
import Mathlib.Tactic.IntervalCases

namespace Decimals

/-! ## Digits and their value -/

theorem eq_digitChar {d : Char} (h : d.isDigit = true) : ∃ n < 10, d = Nat.digitChar n := by
  simp only [Char.isDigit, Bool.and_eq_true, decide_eq_true_eq] at h
  have hlo : 48 ≤ d.toNat := h.1
  have hhi : d.toNat ≤ 57 := h.2
  refine ⟨d.toNat - 48, by omega, ?_⟩
  apply Char.toNat_inj.mp
  rw [Nat.toNat_digitChar_of_lt_ten (by omega)]
  omega

theorem digitsValue_digitChar {n : Nat} (h : n < 10) : digitsValue [Nat.digitChar n] = n := by
  interval_cases n <;> rfl

theorem natText_digit {d : Char} (h : d.isDigit = true) : natText (digitsValue [d]) = [d] := by
  obtain ⟨n, hn, rfl⟩ := eq_digitChar h
  rw [digitsValue_digitChar hn, natText, Nat.toDigits_of_lt_base hn]

theorem natText_snoc {n : Nat} (hn : 0 < n) {d : Char} (h : d.isDigit = true) :
    natText (10 * n + digitsValue [d]) = natText n ++ [d] := by
  have happend := Nat.toDigits_append_toDigits (b := 10) (n := n) (d := digitsValue [d]) (by decide) hn
    (digitsValue_digit_lt h)
  have hdigit := natText_digit h
  rw [natText] at hdigit ⊢
  rw [← happend, hdigit, natText]

theorem digitsValue_pos {c : Char} (hc : isNonzeroDigit c = true) : 0 < digitsValue [c] := by
  obtain ⟨n, hn, rfl⟩ := eq_digitChar (isDigit_of_isNonzeroDigit hc)
  rw [digitsValue_digitChar hn]
  refine Nat.pos_of_ne_zero ?_
  rintro rfl
  exact absurd hc (by decide)

/-- **Digits without a zero in front** are the digits of their value. -/
theorem natText_digitsValue {c : Char} (hc : isNonzeroDigit c = true) {ds : List Char}
    (hds : ∀ x ∈ ds, x.isDigit = true) :
    0 < digitsValue (c :: ds) ∧ natText (digitsValue (c :: ds)) = c :: ds := by
  induction ds using List.reverseRecOn with
  | nil => exact ⟨digitsValue_pos hc, natText_digit (isDigit_of_isNonzeroDigit hc)⟩
  | append_singleton ds d ih =>
      have hd : d.isDigit = true := hds d (List.mem_append_right _ List.mem_cons_self)
      obtain ⟨hpos, htext⟩ := ih fun x hx => hds x (List.mem_append_left _ hx)
      have hvalue := digitsValue_snoc (c :: ds) hd
      rw [List.cons_append] at hvalue
      rw [hvalue]
      refine ⟨by omega, ?_⟩
      rw [natText_snoc hpos hd, htext]
      rfl

/-- Zeros in front of digits add nothing. -/
theorem digitsValue_zeros (k : Nat) (ds : List Char) :
    digitsValue (List.replicate k '0' ++ ds) = digitsValue ds := by
  induction k with
  | zero => rfl
  | succ k ih => exact ih

/-- Zeros after digits are tens. -/
theorem digitsValue_append_zeros (ds : List Char) (k : Nat) :
    digitsValue (ds ++ List.replicate k '0') = digitsValue ds * 10 ^ k := by
  induction k with
  | zero => rw [List.replicate_zero, List.append_nil, Nat.pow_zero, Nat.mul_one]
  | succ k ih =>
      rw [List.replicate_succ', ← List.append_assoc, digitsValue_snoc _ (by decide), ih, Nat.pow_succ]
      show 10 * (digitsValue ds * 10 ^ k) + 0 = _
      ring

/-! ## Zeros at the end -/

theorem stripZeros_append_zeros (ds : List Char) (k : Nat) :
    stripZeros (ds ++ List.replicate k '0') = stripZeros ds := by
  induction k with
  | zero => rw [List.replicate_zero, List.append_nil]
  | succ k ih =>
      rw [List.replicate_succ', ← List.append_assoc, stripZeros, List.rdropWhile_concat_pos _ _ _ rfl]
      exact ih

/-- Digits are those that count, and zeros. -/
theorem stripZeros_split (ds : List Char) :
    ∃ k, ds = stripZeros ds ++ List.replicate k '0' := by
  induction ds using List.reverseRecOn with
  | nil => exact ⟨0, rfl⟩
  | append_singleton ds d ih =>
      by_cases hd : d = '0'
      · subst hd
        obtain ⟨k, hk⟩ := ih
        refine ⟨k + 1, ?_⟩
        have hstrip : stripZeros (ds ++ ['0']) = stripZeros ds := stripZeros_append_zeros ds 1
        rw [hstrip, List.replicate_succ', ← List.append_assoc, ← hk]
      · refine ⟨0, ?_⟩
        rw [stripZeros, List.rdropWhile_concat_neg _ _ _ (by simpa using hd), List.replicate_zero,
          List.append_nil]

theorem stripZeros_eq_self_iff {ds : List Char} :
    stripZeros ds = ds ↔ ds.getLast? ≠ some '0' := by
  rw [stripZeros, List.rdropWhile_eq_self_iff]
  cases ds with
  | nil =>
      refine iff_of_true (fun h => absurd rfl h) ?_
      intro h
      cases h
  | cons c ds =>
      have hlast := List.getLast?_eq_some_getLast (List.cons_ne_nil c ds)
      rw [hlast]
      constructor
      · intro h heq
        exact h (List.cons_ne_nil c ds) (decide_eq_true (Option.some.inj heq))
      · intro h _ heq
        exact h (congrArg some (of_decide_eq_true heq))

theorem getLast?_stripZeros (ds : List Char) : (stripZeros ds).getLast? ≠ some '0' := by
  rw [← stripZeros_eq_self_iff, stripZeros, stripZeros, List.rdropWhile_idempotent]

/-! ## The shortest text by its digits -/

/-- **Significant digits**: no zero at either end. -/
structure Significant (ds : List Char) : Prop where
  digits : ∀ x ∈ ds, x.isDigit = true
  front : ∃ c r, ds = c :: r ∧ isNonzeroDigit c = true
  back : ds.getLast? ≠ some '0'

def sign (neg : Bool) : List Char := if neg then ['-'] else []

/-- The shortest text of a number is a sign and its significant digits. -/
theorem shortest_significant {d : Dec} (h : d.mant ≠ 0) :
    ∃ neg ds n, Significant ds ∧ d.shortest = sign neg ++ placePoint ds n := by
  have hpos : 0 < d.mant.natAbs := Int.natAbs_pos.mpr h
  obtain ⟨c, ds, hcs, hc, hds⟩ := stripZeros_natText hpos
  have hback := getLast?_stripZeros (natText d.mant.natAbs)
  have hdigits : ∀ x ∈ c :: ds, x.isDigit = true :=
    List.forall_mem_cons.mpr ⟨isDigit_of_isNonzeroDigit hc, hds⟩
  refine ⟨decide (d.mant < 0), stripZeros (natText d.mant.natAbs),
    (natText d.mant.natAbs).length - d.scale, ⟨?_, ?_, hback⟩, ?_⟩
  · rw [hcs]
    exact hdigits
  · exact ⟨c, ds, hcs, hc⟩
  · rw [Dec.shortest, if_neg h, sign]
    simp only [decide_eq_true_eq]

/-- **A number given by its significant digits**, and zeros after them. -/
theorem shortest_of_significant {ds : List Char} (h : Significant ds) (neg : Bool) (k s : Nat) :
    Dec.shortest ⟨if neg then -(digitsValue (ds ++ List.replicate k '0') : Int)
        else digitsValue (ds ++ List.replicate k '0'), s⟩ =
      sign neg ++ placePoint ds (ds.length + k - s) := by
  obtain ⟨c, r, rfl, hc⟩ := h.front
  have hdigits : ∀ x ∈ r ++ List.replicate k '0', x.isDigit = true := by
    intro x hx
    rcases List.mem_append.mp hx with hx | hx
    · exact h.digits x (List.mem_cons_of_mem _ hx)
    · rw [List.eq_of_mem_replicate hx]
      rfl
  obtain ⟨hpos, htext⟩ := natText_digitsValue hc hdigits
  rw [← List.cons_append] at hpos htext
  have hstrip : stripZeros (c :: r ++ List.replicate k '0') = c :: r := by
    rw [stripZeros_append_zeros, stripZeros_eq_self_iff.mpr h.back]
  generalize digitsValue (c :: r ++ List.replicate k '0') = m at hpos htext
  have hlen : ((natText m).length : Int) = (c :: r).length + k := by
    rw [htext, List.length_append, List.length_replicate]
    exact Int.natCast_add _ _
  cases neg with
  | true =>
      have hneg : -(m : Int) < 0 := by omega
      have hne : -(m : Int) ≠ 0 := by omega
      show Dec.shortest ⟨-(m : Int), s⟩ = _
      rw [Dec.shortest, if_neg hne, if_pos hneg, Int.natAbs_neg, Int.natAbs_natCast, hlen, htext, hstrip]
      rfl
  | false =>
      have hneg : ¬ (m : Int) < 0 := by omega
      have hne : (m : Int) ≠ 0 := by omega
      show Dec.shortest ⟨(m : Int), s⟩ = _
      rw [Dec.shortest, if_neg hne, if_neg hneg, Int.natAbs_natCast, hlen, htext, hstrip]
      rfl

/-! ## Literals by their parts -/

def pointed (frac : List Char) : List Char := if frac = [] then [] else '.' :: frac

/-- A sign, digits, and a point before the digits of a fraction. -/
def literal (neg : Bool) (int frac : List Char) : List Char := sign neg ++ (int ++ pointed frac)

/-- The parts of a literal. -/
structure Parts (int frac : List Char) : Prop where
  int_ne : int ≠ []
  int_digits : ∀ x ∈ int, x.isDigit = true
  frac_digits : ∀ x ∈ frac, x.isDigit = true

def intPart (t : List Char) : List Char := (dropMinus t).takeWhile Char.isDigit

def fracPart (t : List Char) : List Char := ((dropMinus t).dropWhile Char.isDigit).drop 1

def isNegative (t : List Char) : Bool := t.head? = some '-'

/-- A sign before a digit. -/
theorem scanSign_digit {c : Char} (hc : c.isDigit = true) (neg : Bool) (r : List Char) :
    scanSign (sign neg ++ c :: r) = (neg, c :: r) := by
  cases neg with
  | true => rfl
  | false =>
      show scanSign (c :: r) = (false, c :: r)
      rw [scanSign]
      · rintro r' ⟨⟩
        exact absurd hc (by decide)
      · rintro r' ⟨⟩
        exact absurd hc (by decide)

section Parts
variable {int frac : List Char} (h : Parts int frac) (neg : Bool)
include h

theorem dropMinus_literal : dropMinus (literal neg int frac) = int ++ pointed frac := by
  cases neg with
  | true => rfl
  | false =>
      obtain ⟨c, r, rfl⟩ := List.exists_cons_of_ne_nil h.int_ne
      have hc : c ≠ '-' := by
        rintro rfl
        exact absurd (h.int_digits '-' List.mem_cons_self) (by decide)
      show dropMinus (c :: (r ++ pointed frac)) = c :: (r ++ pointed frac)
      rw [dropMinus]
      rintro r' ⟨⟩
      exact hc rfl

theorem takeWhile_literal : (int ++ pointed frac).takeWhile Char.isDigit = int := by
  rw [takeWhile_digits h.int_digits, pointed]
  split
  · exact List.append_nil int
  · exact List.append_nil int

theorem dropWhile_literal : (int ++ pointed frac).dropWhile Char.isDigit = pointed frac := by
  rw [dropWhile_digits h.int_digits, pointed]
  split
  · rfl
  · rfl

theorem intPart_literal : intPart (literal neg int frac) = int := by
  rw [intPart, dropMinus_literal h, takeWhile_literal h]

theorem fracPart_literal : fracPart (literal neg int frac) = frac := by
  rw [fracPart, dropMinus_literal h, dropWhile_literal h, pointed]
  split
  · next hnil => rw [hnil]; rfl
  · rfl

theorem isNegative_literal : isNegative (literal neg int frac) = neg := by
  cases neg with
  | true => rfl
  | false =>
      obtain ⟨c, r, rfl⟩ := List.exists_cons_of_ne_nil h.int_ne
      refine decide_eq_false fun heq => ?_
      cases heq
      exact absurd (h.int_digits '-' List.mem_cons_self) (by decide)

theorem isDecimal_literal : isDecimal (literal neg int frac) = true := by
  rw [isDecimal, dropMinus_literal h, takeWhile_literal h, dropWhile_literal h, Bool.and_eq_true,
    decide_eq_true_eq, pointed]
  by_cases hf : frac = []
  · rw [if_pos hf]
    exact ⟨h.int_ne, rfl⟩
  · rw [if_neg hf]
    show int ≠ [] ∧ (decide (frac ≠ []) && frac.all Char.isDigit) = true
    rw [Bool.and_eq_true, decide_eq_true_eq, List.all_eq_true]
    exact ⟨h.int_ne, hf, h.frac_digits⟩

/-- The scan of a literal. -/
theorem scan_literal : scan (literal neg int frac) =
    some (⟨if neg then -(digitsValue (int ++ frac) : Int) else digitsValue (int ++ frac),
      frac.length⟩, []) := by
  have hdrop := dropMinus_literal h neg
  obtain ⟨c, r, rfl⟩ := List.exists_cons_of_ne_nil h.int_ne
  have hc : c.isDigit = true := h.int_digits c List.mem_cons_self
  have hsign : scanSign (literal neg (c :: r) frac) = (neg, c :: r ++ pointed frac) :=
    scanSign_digit hc neg (r ++ pointed frac)
  have hparts : c :: r ++ pointed frac = c :: r ∧ frac = [] ∨
      c :: r ++ pointed frac = c :: r ++ '.' :: frac := by
    by_cases hf : frac = []
    · refine .inl ⟨?_, hf⟩
      rw [pointed, if_pos hf, List.append_nil]
    · exact .inr (by rw [pointed, if_neg hf])
  rw [scan_unsigned hsign h.int_digits h.frac_digits hparts, Dec.make]
  simp

theorem floatval_literal : floatval (literal neg int frac) =
    ⟨if neg then -(digitsValue (int ++ frac) : Int) else digitsValue (int ++ frac),
      frac.length⟩ := by
  have hspace : (literal neg int frac).dropWhile isSpace = literal neg int frac := by
    obtain ⟨c, r, rfl⟩ := List.exists_cons_of_ne_nil h.int_ne
    have hc := isSpace_of_isDigit (h.int_digits c List.mem_cons_self)
    cases neg with
    | true => rfl
    | false => exact List.dropWhile_cons_of_neg (by rw [hc]; decide)
  rw [floatval, hspace, scan_literal h]

end Parts

/-- **A decimal literal** has parts. -/
theorem exists_parts {t : List Char} (h : isDecimal t = true) :
    ∃ neg int frac, Parts int frac ∧ t = literal neg int frac := by
  obtain ⟨neg, hneg⟩ : ∃ neg, t = sign neg ++ dropMinus t := by
    rcases dropMinus_cases t with ht | ht
    · exact ⟨true, ht⟩
    · exact ⟨false, ht.symm⟩
  rw [isDecimal, Bool.and_eq_true, decide_eq_true_eq] at h
  have happ := List.takeWhile_append_dropWhile (p := Char.isDigit) (l := dropMinus t)
  have hint : ∀ x ∈ (dropMinus t).takeWhile Char.isDigit, x.isDigit = true :=
    fun x hx => List.mem_takeWhile_imp hx
  have hrest := h.2
  split at hrest
  · next hnil =>
      rw [hnil] at happ
      refine ⟨neg, _, [], ⟨h.1, hint, List.forall_mem_nil _⟩, ?_⟩
      rw [literal, pointed, if_pos rfl, happ]
      exact hneg
  · next f hf =>
      rw [Bool.and_eq_true, decide_eq_true_eq, List.all_eq_true] at hrest
      rw [hf] at happ
      refine ⟨neg, _, f, ⟨h.1, hint, hrest.2⟩, ?_⟩
      rw [literal, pointed, if_neg hrest.1, happ]
      exact hneg
  · cases hrest

/-! ## Literals with nothing needless -/

/-- **Nothing needless**: no zero in front or at the end, no minus of zero, and
no more digits than are written without an exponent. -/
structure IsShort (neg : Bool) (int frac : List Char) : Prop where
  front : int.head? = some '0' → int = ['0']
  back : frac.getLast? ≠ some '0'
  minus : ¬ (neg = true ∧ int = ['0'] ∧ frac = [])
  long : int.length ≤ 21
  small : int = ['0'] → (frac.takeWhile fun c => c = '0').length ≤ 5

def ShortForm (t : List Char) : Prop := IsShort (isNegative t) (intPart t) (fracPart t)

theorem shortForm_literal {int frac : List Char} (h : Parts int frac) (neg : Bool) :
    ShortForm (literal neg int frac) ↔ IsShort neg int frac := by
  rw [ShortForm, isNegative_literal h, intPart_literal h, fracPart_literal h]

theorem isNonzeroDigit_of_isDigit {c : Char} (hc : c.isDigit = true) (h0 : c ≠ '0') :
    isNonzeroDigit c = true := by
  obtain ⟨n, hn, rfl⟩ := eq_digitChar hc
  refine isNonzeroDigit_digitChar (Nat.pos_of_ne_zero ?_) hn
  rintro rfl
  exact h0 rfl

theorem ne_zero_of_isNonzeroDigit {c : Char} (h : isNonzeroDigit c = true) : c ≠ '0' := by
  rintro rfl
  exact absurd h (by decide)

/-- Where the point is placed among significant digits. -/
theorem placePoint_cases {ds : List Char} (h : Significant ds) (n : Int) :
    (∃ int frac, Parts int frac ∧ placePoint ds n = int ++ pointed frac ∧
      ∀ neg, IsShort neg int frac) ∨ ¬ (-6 < n ∧ n ≤ 21) := by
  obtain ⟨c, r, hcr, hc⟩ := h.front
  have hne : ds ≠ [] := by
    rw [hcr]
    exact List.cons_ne_nil c r
  have hlen : 0 < ds.length := List.length_pos_iff.mpr hne
  have hfront : ∀ l : List Char, l.head? = some c → l.head? = some '0' → l = ['0'] := by
    intro l hl hzero
    exact absurd (Option.some.inj (hl.symm.trans hzero)) (ne_zero_of_isNonzeroDigit hc)
  have hzero : ∀ l : List Char, l.head? = some c → l ≠ ['0'] := by
    rintro l hl rfl
    exact ne_zero_of_isNonzeroDigit hc (Option.some.inj hl).symm
  by_cases hwhole : ds.length ≤ n ∧ n ≤ 21
  · -- all of them before the point, and zeros
    have hhead : (ds ++ List.replicate (n.toNat - ds.length) '0').head? = some c := by rw [hcr]; rfl
    refine .inl ⟨ds ++ List.replicate (n.toNat - ds.length) '0', [], ⟨?_, ?_, List.forall_mem_nil _⟩, ?_, ?_⟩
    · exact List.append_ne_nil_of_left_ne_nil hne _
    · intro x hx
      rcases List.mem_append.mp hx with hx | hx
      · exact h.digits x hx
      · rw [List.eq_of_mem_replicate hx]
        rfl
    · rw [placePoint, if_pos hwhole, pointed, if_pos rfl, List.append_nil]
    · intro neg
      refine ⟨hfront _ hhead, by simp, fun hminus => hzero _ hhead hminus.2.1, ?_,
        fun hint => absurd hint (hzero _ hhead)⟩
      rw [List.length_append, List.length_replicate]
      omega
  · by_cases hpoint : 0 < n ∧ n ≤ 21
    · -- the point among them
      obtain ⟨k, hk⟩ : ∃ k, n.toNat = k + 1 := ⟨n.toNat - 1, by omega⟩
      have hhead : (ds.take n.toNat).head? = some c := by
        rw [hcr, hk]
        rfl
      have hdrop : ds.drop n.toNat ≠ [] := by
        rw [ne_eq, List.drop_eq_nil_iff]
        omega
      refine .inl ⟨ds.take n.toNat, ds.drop n.toNat, ⟨?_, ?_, ?_⟩, ?_, ?_⟩
      · intro hnil
        rw [hnil] at hhead
        cases hhead
      · exact fun x hx => h.digits x (List.mem_of_mem_take hx)
      · exact fun x hx => h.digits x (List.mem_of_mem_drop hx)
      · rw [placePoint, if_neg hwhole, if_pos hpoint, pointed, if_neg hdrop]
      · intro neg
        refine ⟨hfront _ hhead, ?_, fun hminus => hzero _ hhead hminus.2.1, ?_,
          fun hint => absurd hint (hzero _ hhead)⟩
        · have hback := h.back
          rwa [← List.take_append_drop n.toNat ds, List.getLast?_append_of_ne_nil _ hdrop] at hback
        · rw [List.length_take]
          omega
    · by_cases hsmall : -6 < n ∧ n ≤ 0
      · -- all of them after the point, and zeros in front
        have hfrac : List.replicate (-n).toNat '0' ++ ds ≠ [] :=
          List.append_ne_nil_of_right_ne_nil _ hne
        refine .inl ⟨['0'], List.replicate (-n).toNat '0' ++ ds,
          ⟨List.cons_ne_nil _ _, ?_, ?_⟩, ?_, ?_⟩
        · exact List.forall_mem_singleton.mpr rfl
        · intro x hx
          rcases List.mem_append.mp hx with hx | hx
          · rw [List.eq_of_mem_replicate hx]
            rfl
          · exact h.digits x hx
        · rw [placePoint, if_neg hwhole, if_neg hpoint, if_pos hsmall, pointed, if_neg hfrac]
          rfl
        · intro neg
          refine ⟨fun _ => rfl, ?_, fun hminus => hfrac hminus.2.2, by decide, fun _ => ?_⟩
          · rw [List.getLast?_append_of_ne_nil _ hne]
            exact h.back
          · have htake : (ds.takeWhile fun x => x = '0') = [] := by
              rw [hcr]
              exact List.takeWhile_cons_of_neg (by simpa using ne_zero_of_isNonzeroDigit hc)
            have hzeros : ∀ x ∈ List.replicate (-n).toNat '0', decide (x = '0') = true :=
              fun x hx => decide_eq_true (List.eq_of_mem_replicate hx)
            rw [List.takeWhile_append_of_pos hzeros, htake, List.append_nil, List.length_replicate]
            omega
      · exact .inr (by omega)

/-- The number of some digits, `s` of them after the point. -/
def ofDigits (neg : Bool) (ds : List Char) (s : Nat) : Dec :=
  ⟨if neg then -(digitsValue ds : Int) else digitsValue ds, s⟩

/-- Digits without a point. -/
theorem shortest_whole {c : Char} {r : List Char} (hc : isNonzeroDigit c = true)
    (hr : ∀ x ∈ c :: r, x.isDigit = true) (hlong : (c :: r).length ≤ 21) (neg : Bool) :
    (ofDigits neg (c :: r) 0).shortest = sign neg ++ c :: r := by
  obtain ⟨k, hk⟩ := stripZeros_split (c :: r)
  have hsig : Significant (stripZeros (c :: r)) := by
    refine ⟨fun x hx => hr x ?_,
      ⟨c, stripZeros r, stripZeros_cons (ne_zero_of_isNonzeroDigit hc) r, hc⟩, getLast?_stripZeros _⟩
    rw [hk]
    exact List.mem_append_left _ hx
  generalize stripZeros (c :: r) = ds at hk hsig
  rw [hk, List.length_append, List.length_replicate] at hlong
  rw [hk, ofDigits, shortest_of_significant hsig, placePoint, if_pos (by omega)]
  have hzeros : (ds.length + k - (0 : Nat) : Int).toNat - ds.length = k := by omega
  rw [hzeros]

/-- A point among significant digits. -/
theorem shortest_mixed {int frac : List Char} (hsig : Significant (int ++ frac)) (hint : int ≠ [])
    (hfrac : frac ≠ []) (hlong : int.length ≤ 21) (neg : Bool) :
    (ofDigits neg (int ++ frac) frac.length).shortest = sign neg ++ (int ++ '.' :: frac) := by
  have hvalue : int ++ frac = int ++ frac ++ List.replicate 0 '0' := by
    rw [List.replicate_zero, List.append_nil]
  have hlen : (int ++ frac).length = int.length + frac.length := List.length_append
  have hplace : ((int ++ frac).length + (0 : Nat) - frac.length : Int) = int.length := by omega
  have hpos : 0 < int.length := List.length_pos_iff.mpr hint
  have hfpos : 0 < frac.length := List.length_pos_iff.mpr hfrac
  rw [ofDigits, hvalue, shortest_of_significant hsig, hplace, placePoint, if_neg (by omega),
    if_pos (by omega), Int.toNat_natCast, List.take_left, List.drop_left]

/-- A zero, a point, at most five zeros and significant digits. -/
theorem shortest_small {ds : List Char} (hsig : Significant ds) {j : Nat} (hj : j ≤ 5) (neg : Bool) :
    (ofDigits neg ('0' :: (List.replicate j '0' ++ ds)) (j + ds.length)).shortest =
      sign neg ++ '0' :: '.' :: (List.replicate j '0' ++ ds) := by
  have hvalue : digitsValue ('0' :: (List.replicate j '0' ++ ds)) =
      digitsValue (ds ++ List.replicate 0 '0') := by
    rw [List.replicate_zero, List.append_nil]
    exact (digitsValue_zeros 1 _).trans (digitsValue_zeros j _)
  obtain ⟨c, r, hcr, -⟩ := hsig.front
  have hlen : 0 < ds.length := by
    rw [hcr]
    exact Nat.succ_pos _
  have hplace : (ds.length + (0 : Nat) - (j + ds.length : Nat) : Int) = -(j : Int) := by omega
  have hzeros : (- -(j : Int)).toNat = j := by omega
  rw [ofDigits, hvalue, shortest_of_significant hsig, hplace, placePoint, if_neg (by omega),
    if_neg (by omega), if_pos (by omega), hzeros]
  rfl

/-- A fraction that does not end in a zero: zeros, and significant digits. -/
theorem fraction_split {frac : List Char} (hdigits : ∀ x ∈ frac, x.isDigit = true) (hne : frac ≠ [])
    (hback : frac.getLast? ≠ some '0') :
    ∃ ds, Significant ds ∧
      frac = List.replicate (frac.takeWhile fun c => c = '0').length '0' ++ ds := by
  have hsplit := List.takeWhile_append_dropWhile (p := fun x => decide (x = '0')) (l := frac)
  have hzeros : (frac.takeWhile fun x => decide (x = '0')) =
      List.replicate (frac.takeWhile fun x => decide (x = '0')).length '0' :=
    List.eq_replicate_of_mem fun x hx => by simpa using List.mem_takeWhile_imp hx
  have hhead := List.head?_dropWhile_not (fun x => decide (x = '0')) frac
  generalize (frac.takeWhile fun x => decide (x = '0')).length = j at hzeros ⊢
  generalize frac.dropWhile (fun x => decide (x = '0')) = ds at hsplit hhead
  rw [hzeros] at hsplit
  subst hsplit
  cases ds with
  | nil =>
      rw [List.append_nil] at hback hne
      cases j with
      | zero => exact absurd rfl hne
      | succ j => exact absurd (by rw [List.replicate_succ', List.getLast?_concat]) hback
  | cons d ds =>
      have hds : ∀ x ∈ d :: ds, x.isDigit = true := fun x hx => hdigits x (List.mem_append_right _ hx)
      rw [List.getLast?_append_of_ne_nil _ (List.cons_ne_nil d ds)] at hback
      exact ⟨d :: ds, ⟨hds, ⟨d, ds, rfl, isNonzeroDigit_of_isDigit (hds d List.mem_cons_self)
        (by simpa using hhead)⟩, hback⟩, rfl⟩

/-- **A literal with nothing needless** is the shortest text of its number. -/
theorem shortest_literal {int frac : List Char} (h : Parts int frac) {neg : Bool}
    (hshort : IsShort neg int frac) :
    (floatval (literal neg int frac)).shortest = literal neg int frac := by
  obtain ⟨c, r, rfl⟩ := List.exists_cons_of_ne_nil h.int_ne
  have hvalue : floatval (literal neg (c :: r) frac) = ofDigits neg (c :: r ++ frac) frac.length :=
    floatval_literal h neg
  rw [hvalue, literal, pointed]
  by_cases h0 : c = '0'
  · obtain ⟨rfl, rfl⟩ : c = '0' ∧ r = [] := by
      have hint := hshort.front (by rw [h0]; rfl)
      exact ⟨h0, (List.cons.inj hint).2⟩
    by_cases hf : frac = []
    · subst hf
      cases neg with
      | true => exact absurd ⟨rfl, rfl, rfl⟩ hshort.minus
      | false => rfl
    · obtain ⟨ds, hsig, hsplit⟩ := fraction_split h.frac_digits hf hshort.back
      have hj := hshort.small rfl
      generalize (frac.takeWhile fun c => c = '0').length = j at hsplit hj
      have hlen : frac.length = j + ds.length := by
        rw [hsplit, List.length_append, List.length_replicate]
      rw [if_neg hf, hlen, hsplit]
      exact shortest_small hsig hj neg
  · have hc := isNonzeroDigit_of_isDigit (h.int_digits c List.mem_cons_self) h0
    by_cases hf : frac = []
    · subst hf
      rw [if_pos rfl, List.append_nil]
      exact shortest_whole hc h.int_digits hshort.long neg
    · have hsig : Significant (c :: r ++ frac) := by
        refine ⟨List.forall_mem_append.mpr ⟨h.int_digits, h.frac_digits⟩, ⟨c, r ++ frac, rfl, hc⟩, ?_⟩
        rw [List.getLast?_append_of_ne_nil _ hf]
        exact hshort.back
      rw [if_neg hf]
      exact shortest_mixed hsig h.int_ne hf hshort.long neg

/-- The shortest text of a number, if it has no exponent, has nothing needless. -/
theorem shortest_cases (d : Dec) :
    (isDecimal d.shortest = true ∧ ShortForm d.shortest) ∨
      ∃ neg ds n, Significant ds ∧ ¬ (-6 < n ∧ n ≤ 21) ∧ d.shortest = sign neg ++ placePoint ds n := by
  by_cases hm : d.mant = 0
  · have hzero : d.shortest = literal false ['0'] [] := if_pos hm
    have hparts : Parts ['0'] [] := ⟨nofun, List.forall_mem_singleton.mpr rfl, nofun⟩
    rw [hzero, shortForm_literal hparts]
    exact .inl ⟨isDecimal_literal hparts false,
      fun _ => rfl, nofun, fun hminus => Bool.noConfusion hminus.1, by decide, fun _ => by decide⟩
  · obtain ⟨neg, ds, n, hsig, hshortest⟩ := shortest_significant hm
    rcases placePoint_cases hsig n with ⟨int, frac, hparts, hplace, hshort⟩ | hexp
    · have hliteral : d.shortest = literal neg int frac := by rw [hshortest, hplace, literal]
      rw [hliteral, shortForm_literal hparts]
      exact .inl ⟨isDecimal_literal hparts neg, hshort neg⟩
    · exact .inr ⟨neg, ds, n, hsig, hexp, hshortest⟩

/-- With an exponent. -/
theorem placePoint_exponent {c : Char} {r : List Char} {n : Int} (h : ¬ (-6 < n ∧ n ≤ 21)) :
    placePoint (c :: r) n =
      c :: (pointed r ++ 'e' :: (if n - 1 < 0 then '-' else '+') :: natText (n - 1).natAbs) := by
  have hlen : 0 < (c :: r).length := Nat.succ_pos _
  rw [placePoint, if_neg (by omega), if_neg (by omega), if_neg (by omega), pointed]
  cases r with
  | nil => rfl
  | cons d r => rfl

/-- The scan of an exponent. -/
theorem scanExp_exponent (e : Int) :
    scanExp ('e' :: (if e < 0 then '-' else '+') :: natText e.natAbs) = (e, []) := by
  have htake : (natText e.natAbs).takeWhile Char.isDigit = natText e.natAbs :=
    List.takeWhile_eq_self_iff.mpr fun x hx => isDigit_natText hx
  have hdrop : (natText e.natAbs).dropWhile Char.isDigit = [] :=
    dropWhile_all_digits fun x hx => isDigit_natText hx
  have hne := natText_ne_nil e.natAbs
  by_cases he : e < 0
  · rw [if_pos he, scanExp]
    simp only [scanSign, htake, hdrop, digitsValue_natText]
    simp [hne]
    rw [abs_of_neg he, neg_neg]
  · rw [if_neg he, scanExp]
    simp only [scanSign, htake, hdrop, digitsValue_natText]
    simp [hne]
    omega

/-- The scan of a text with an exponent. -/
theorem scan_exponent {c : Char} {r : List Char} (hc : c.isDigit = true)
    (hr : ∀ x ∈ r, x.isDigit = true) (neg : Bool) (e : Int) :
    scan (sign neg ++ c :: (pointed r ++ 'e' :: (if e < 0 then '-' else '+') :: natText e.natAbs)) =
      some (Dec.make neg [c] r e, []) := by
  have hexp := scanExp_exponent e
  generalize (if e < 0 then '-' else '+') :: natText e.natAbs = tail at hexp ⊢
  rw [scan, scanSign_digit hc]
  cases r with
  | nil =>
      have htake : (c :: ([] ++ 'e' :: tail)).takeWhile Char.isDigit = [c] :=
        takeWhile_digits (List.forall_mem_singleton.mpr hc) _
      have hdrop : (c :: ([] ++ 'e' :: tail)).dropWhile Char.isDigit = 'e' :: tail :=
        dropWhile_digits (List.forall_mem_singleton.mpr hc) _
      rw [pointed, if_pos rfl]
      simp only [htake, hdrop]
      show some (Dec.make neg [c] [] (scanExp ('e' :: tail)).1, (scanExp ('e' :: tail)).2) = _
      rw [hexp]
  | cons d r =>
      have htake : (c :: ('.' :: d :: r ++ 'e' :: tail)).takeWhile Char.isDigit = [c] :=
        takeWhile_digits (List.forall_mem_singleton.mpr hc) _
      have hdrop : (c :: ('.' :: d :: r ++ 'e' :: tail)).dropWhile Char.isDigit =
          '.' :: (d :: r ++ 'e' :: tail) :=
        dropWhile_digits (List.forall_mem_singleton.mpr hc) _
      have hftake : (d :: r ++ 'e' :: tail).takeWhile Char.isDigit = d :: r := by
        rw [takeWhile_digits hr]
        exact List.append_nil _
      have hfdrop : (d :: r ++ 'e' :: tail).dropWhile Char.isDigit = 'e' :: tail :=
        dropWhile_digits hr _
      rw [pointed, if_neg (List.cons_ne_nil d r)]
      simp only [htake, hdrop, hftake, hfdrop, hexp]
      rfl

/-- Digits, a minus and a point: no other character in a literal. -/
theorem not_mem_literal {int frac : List Char} (h : Parts int frac) (neg : Bool) {x : Char}
    (hdigit : x.isDigit = false) (hminus : x ≠ '-') (hpoint : x ≠ '.') :
    x ∉ literal neg int frac := by
  have hno : x.isDigit ≠ true := by
    rw [hdigit]
    exact Bool.false_ne_true
  have hsign : x ∉ sign neg := by
    cases neg with
    | true => exact fun hx => hminus (List.mem_singleton.mp hx)
    | false => exact List.not_mem_nil
  have hpointed : x ∉ pointed frac := by
    rw [pointed]
    split
    · exact List.not_mem_nil
    · rw [List.mem_cons, not_or]
      exact ⟨hpoint, fun hx => hno (h.frac_digits x hx)⟩
  rw [literal, List.mem_append, List.mem_append, not_or, not_or]
  exact ⟨hsign, fun hx => hno (h.int_digits x hx), hpointed⟩

/-- **The shortest text of a number** is read as that number. -/
theorem scan_shortest (d : Dec) :
    ∃ d', scan d.shortest = some (d', []) ∧ d'.shortest = d.shortest := by
  rcases shortest_cases d with ⟨hdec, hshort⟩ | ⟨neg, ds, n, hsig, hn, hshortest⟩
  · obtain ⟨neg, int, frac, hparts, hliteral⟩ := exists_parts hdec
    rw [hliteral] at hshort ⊢
    have hself := shortest_literal hparts ((shortForm_literal hparts neg).mp hshort)
    rw [floatval_literal hparts] at hself
    exact ⟨_, scan_literal hparts neg, hself⟩
  · obtain ⟨c, r, rfl, hc⟩ := hsig.front
    have hr : ∀ x ∈ r, x.isDigit = true := fun x hx => hsig.digits x (List.mem_cons_of_mem _ hx)
    have hmake : Dec.make neg [c] r (n - 1) = ⟨if neg then
        -(digitsValue (c :: r ++ List.replicate (n - 1).toNat '0') : Int)
        else digitsValue (c :: r ++ List.replicate (n - 1).toNat '0'), r.length + (1 - n).toNat⟩ := by
      rw [Dec.make, digitsValue_append_zeros]
      push_cast
      rw [neg_sub]
      rfl
    have hplace : ((c :: r).length + (n - 1).toNat - (r.length + (1 - n).toNat : Nat) : Int) = n := by
      rw [List.length_cons]
      omega
    rw [hshortest, placePoint_exponent hn, scan_exponent (isDigit_of_isNonzeroDigit hc) hr]
    refine ⟨_, rfl, ?_⟩
    rw [hmake, shortest_of_significant hsig, hplace, placePoint_exponent hn]

/-- **The literals that are their own shortest text**. -/
theorem shortest_floatval_iff {t : List Char} (h : isDecimal t = true) :
    (floatval t).shortest = t ↔ ShortForm t := by
  obtain ⟨neg, int, frac, hparts, rfl⟩ := exists_parts h
  constructor
  · intro hself
    rcases shortest_cases (floatval (literal neg int frac)) with ⟨-, hshort⟩ | ⟨neg', ds, n, hsig, hn, hexp⟩
    · rwa [hself] at hshort
    · -- a literal has no exponent
      obtain ⟨c, r, rfl, -⟩ := hsig.front
      refine absurd ?_ (not_mem_literal hparts neg (x := 'e') rfl (by decide) (by decide))
      rw [← hself, hexp, placePoint_exponent hn]
      simp
  · intro hshort
    exact shortest_literal hparts ((shortForm_literal hparts neg).mp hshort)

/-! ## Formatted numbers -/

/-- From a thousand on there is a comma. -/
theorem comma_mem_group {n : Nat} (h : 1000 ≤ n) : ',' ∈ group (natText n) := by
  have hten : ∀ m, 10 ≤ m → natText m = natText (m / 10) ++ [Nat.digitChar (m % 10)] := fun m hm =>
    Nat.toDigits_of_base_le (by decide) hm
  obtain ⟨c, r, hcr⟩ := List.exists_cons_of_ne_nil
    (List.reverse_eq_nil_iff.not.mpr (natText_ne_nil (n / 10 / 10 / 10)))
  rw [group, hten n (by omega), hten (n / 10) (by omega), hten (n / 10 / 10) (by omega)]
  simp [groupRev, hcr]

theorem group_short {ds : List Char} (h : ds.length ≤ 3) : group ds = ds := by
  rw [group]
  have hrev : ds.reverse.length ≤ 3 := by rwa [List.length_reverse]
  have hsame : groupRev ds.reverse = ds.reverse := by
    generalize ds.reverse = l at hrev
    rcases l with _ | ⟨a, _ | ⟨b, _ | ⟨c, _ | ⟨d, l⟩⟩⟩⟩
    · rfl
    · rfl
    · rfl
    · rfl
    · simp only [List.length_cons] at hrev
      omega
  rw [hsame, List.reverse_reverse]

theorem length_natText_le {n : Nat} (h : n < 1000) : (natText n).length ≤ 3 :=
  (Nat.length_toDigits_le_iff (by decide) (by decide)).mpr h

/-- A number below a thousand is written as a literal. -/
theorem numberFormat_small {d : Dec} (h : (d.round 2).natAbs < 100000) :
    numberFormat d 2 = literal (d.round 2 < 0) (natText ((d.round 2).natAbs / 10 ^ 2))
      (padDigits 2 ((d.round 2).natAbs % 10 ^ 2)) := by
  have hthousand : (d.round 2).natAbs / 10 ^ 2 < 1000 := by omega
  rw [numberFormat, fixedText, group_short (length_natText_le hthousand), literal, sign, pointed,
    if_neg (List.ne_nil_of_length_eq_add_one (length_padDigits 2 _))]
  simp only [decide_eq_true_eq]
  rfl

theorem parts_numberFormat (n : Nat) : Parts (natText (n / 10 ^ 2)) (padDigits 2 (n % 10 ^ 2)) :=
  ⟨natText_ne_nil _, fun _ => isDigit_natText, fun _ => isDigit_padDigits⟩

/-- **The formatted numbers with nothing needless**, among those that are
literals: the second decimal is no zero. -/
theorem isShort_numberFormat {n : Nat} (h : n < 100000) (neg : Bool) :
    IsShort neg (natText (n / 10 ^ 2)) (padDigits 2 (n % 10 ^ 2)) ↔ n % 10 ≠ 0 := by
  have hlast : (padDigits 2 (n % 10 ^ 2)).getLast? = some (Nat.digitChar (n % 10)) := by
    have hmod : n % 10 ^ 2 % 10 = n % 10 := by omega
    rw [padDigits, List.getLast?_concat, hmod]
  have hzero : Nat.digitChar (n % 10) = '0' ↔ n % 10 = 0 := by
    have hdigit : ∀ k < 10, Nat.digitChar k = '0' ↔ k = 0 := by decide
    exact hdigit _ (Nat.mod_lt _ (by decide))
  have hne : padDigits 2 (n % 10 ^ 2) ≠ [] :=
    List.ne_nil_of_length_eq_add_one (length_padDigits 2 _)
  constructor
  · intro hshort hmod
    exact hshort.back (by rw [hlast, hzero.mpr hmod])
  · intro hmod
    refine ⟨?_, ?_, fun hminus => hne hminus.2.2, ?_, fun _ => ?_⟩
    · intro hhead
      by_cases hpos : 0 < n / 10 ^ 2
      · obtain ⟨c, r, hcr, hc⟩ := natText_cons _ hpos
        rw [hcr] at hhead
        exact absurd (Option.some.inj hhead) (ne_zero_of_isNonzeroDigit hc)
      · obtain hnil : n / 10 ^ 2 = 0 := by omega
        rw [hnil]
        rfl
    · rw [hlast, ne_eq, Option.some_inj, hzero]
      exact hmod
    · have := length_natText_le (show n / 10 ^ 2 < 1000 by omega)
      omega
    · have htake := (padDigits 2 (n % 10 ^ 2)).takeWhile_sublist fun c => decide (c = '0')
      have hlen := htake.length_le
      rw [length_padDigits] at hlen
      omega

/-- A formatted number is a literal below a thousand. -/
theorem isDecimal_numberFormat (d : Dec) :
    isDecimal (numberFormat d 2) = true ↔ (d.round 2).natAbs < 100000 := by
  constructor
  · intro h
    by_contra hge
    obtain ⟨neg, int, frac, hparts, hliteral⟩ := exists_parts h
    refine not_mem_literal hparts neg (x := ',') rfl (by decide) (by decide) ?_
    rw [← hliteral, numberFormat, fixedText]
    refine List.mem_append_right _ (List.mem_append_left _ (comma_mem_group ?_))
    omega
  · intro h
    rw [numberFormat_small h]
    exact isDecimal_literal (parts_numberFormat _) _

/-- A formatted number below a thousand is read as what it was rounded to. -/
theorem floatval_numberFormat {d : Dec} (h : (d.round 2).natAbs < 100000) :
    floatval (numberFormat d 2) = ⟨d.round 2, 2⟩ := by
  have hvalue : digitsValue (natText ((d.round 2).natAbs / 10 ^ 2) ++
      padDigits 2 ((d.round 2).natAbs % 10 ^ 2)) = (d.round 2).natAbs := by
    rw [← digitsValue_point, digitsValue_places]
  rw [numberFormat_small h, floatval_literal (parts_numberFormat _), hvalue, length_padDigits,
    Dec.mk.injEq]
  refine ⟨?_, rfl⟩
  by_cases hneg : d.round 2 < 0
  · rw [if_pos (decide_eq_true hneg)]
    omega
  · rw [if_neg (by simpa using hneg)]
    omega

/-- The digits of a number and those before its last two. -/
theorem length_natText_hundred (n : Nat) : (natText n).length ≤ 2 ∧ (natText (n / 10 ^ 2)).length = 1 ∨
    (natText n).length = (natText (n / 10 ^ 2)).length + 2 := by
  have hten : ∀ m, 10 ≤ m → natText m = natText (m / 10) ++ [Nat.digitChar (m % 10)] := fun m hm =>
    Nat.toDigits_of_base_le (by decide) hm
  have hdiv : n / 10 ^ 2 = n / 10 / 10 := by omega
  rw [hdiv]
  by_cases hlt : n < 100
  · have hzero : n / 10 / 10 = 0 := by omega
    rw [hzero]
    exact .inl ⟨(Nat.length_toDigits_le_iff (by decide) (by decide)).mpr hlt, rfl⟩
  · rw [hten n (by omega), hten (n / 10) (by omega)]
    simp only [List.length_append, List.length_singleton]
    exact .inr trivial

/-- **The shortest text** of a formatted number is no longer than it. -/
theorem length_shortest_le {d : Dec} (h : (d.round 2).natAbs < 100000) :
    (Dec.shortest ⟨d.round 2, 2⟩).length ≤ (numberFormat d 2).length := by
  rw [numberFormat_small h, literal, pointed,
    if_neg (List.ne_nil_of_length_eq_add_one (length_padDigits 2 _))]
  simp only [List.length_append, List.length_cons, length_padDigits]
  by_cases hm : d.round 2 = 0
  · have hzero : Dec.shortest ⟨d.round 2, 2⟩ = ['0'] := if_pos hm
    rw [hzero, List.length_singleton]
    omega
  · obtain ⟨k, hk⟩ := stripZeros_split (natText (d.round 2).natAbs)
    have hlen := congrArg List.length hk
    rw [List.length_append, List.length_replicate] at hlen
    have hdigits := length_natText_hundred (d.round 2).natAbs
    have hsign : (if d.round 2 < 0 then ['-'] else []) = sign (d.round 2 < 0) := by
      rw [sign]
      simp only [decide_eq_true_eq]
    have htext : Dec.shortest ⟨d.round 2, 2⟩ = sign (d.round 2 < 0) ++
        placePoint (stripZeros (natText (d.round 2).natAbs))
          ((natText (d.round 2).natAbs).length - 2) := by
      rw [Dec.shortest, if_neg hm, hsign]
      rfl
    rw [htext, List.length_append]
    have hpoint : (placePoint (stripZeros (natText (d.round 2).natAbs))
        ((natText (d.round 2).natAbs).length - 2)).length ≤
          (natText ((d.round 2).natAbs / 10 ^ 2)).length + 3 := by
      have hlong := length_natText_le (show (d.round 2).natAbs / 10 ^ 2 < 1000 by omega)
      have hpos := List.length_pos_iff.mpr (natText_ne_nil ((d.round 2).natAbs / 10 ^ 2))
      generalize stripZeros (natText (d.round 2).natAbs) = ds at hlen
      generalize (natText (d.round 2).natAbs).length = l at hlen hdigits
      generalize (natText ((d.round 2).natAbs / 10 ^ 2)).length = i at hdigits hlong hpos ⊢
      rw [placePoint]
      split
      · rw [List.length_append, List.length_replicate]
        omega
      · split
        · simp only [List.length_append, List.length_cons, List.length_take, List.length_drop]
          omega
        · split
          · simp only [List.length_append, List.length_cons, List.length_replicate]
            omega
          · omega
    omega
/-- **The formatted numbers with nothing needless.** -/
theorem shortForm_numberFormat {d : Dec} (h : (d.round 2).natAbs < 100000) :
    ShortForm (numberFormat d 2) ↔ (d.round 2).natAbs % 10 ≠ 0 := by
  rw [numberFormat_small h, shortForm_literal (parts_numberFormat _), isShort_numberFormat h]

/-! ## A digit more -/

end Decimals
