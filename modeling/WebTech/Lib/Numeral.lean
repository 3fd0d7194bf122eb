/-
# `WebTech.Lib.Numeral` — decimals as JSON numbers

    the shortest text of a decimal is a JSON number                  (`isNumeral_shortest`)
    the digits of a number are scanned as that number                (`scan_natText`)
-/
import WebTech.Lib.JsonText
import WebTech.Lib.Decimal

namespace Decimals

open Rfc8259

/-! ## Texts of digits -/

theorem dropWhile_digits {ds : List Char} (h : ∀ c ∈ ds, c.isDigit = true) (r : List Char) :
    (ds ++ r).dropWhile Char.isDigit = r.dropWhile Char.isDigit :=
  List.dropWhile_append_of_pos h

theorem takeWhile_digits {ds : List Char} (h : ∀ c ∈ ds, c.isDigit = true) (r : List Char) :
    (ds ++ r).takeWhile Char.isDigit = ds ++ r.takeWhile Char.isDigit :=
  List.takeWhile_append_of_pos h

theorem dropWhile_all_digits {ds : List Char} (h : ∀ c ∈ ds, c.isDigit = true) :
    ds.dropWhile Char.isDigit = [] :=
  List.dropWhile_eq_nil_iff.mpr h

theorem isNumChar_of_isDigit {c : Char} (h : c.isDigit = true) : isNumChar c = true := by
  simp only [isNumChar, h, Bool.true_or]

theorem natText_ne_nil (n : Nat) : natText n ≠ [] := by
  rw [natText]
  exact List.ne_nil_of_length_pos Nat.length_toDigits_pos

/-! ## The shortest text -/

/-- An exponent as it is written. -/
theorem isExp_exponent {s : Char} (hs : s = '+' ∨ s = '-') (n : Nat) :
    isExp ('e' :: s :: natText n) = true := by
  have hall : (natText n).all Char.isDigit = true :=
    List.all_eq_true.mpr fun c hc => isDigit_natText hc
  have hne : decide (natText n ≠ []) = true := decide_eq_true (natText_ne_nil n)
  rcases hs with rfl | rfl
  · show (decide (natText n ≠ []) && (natText n).all Char.isDigit) = true
    rw [hne, hall]
    rfl
  · show (decide (natText n ≠ []) && (natText n).all Char.isDigit) = true
    rw [hne, hall]
    rfl

/-- Digits after the point, at least one, then an exponent or nothing. -/
theorem isFrac_digits {d : Char} {ds r : List Char} (hd : d.isDigit = true)
    (hds : ∀ c ∈ ds, c.isDigit = true) (hr : isExp (r.dropWhile Char.isDigit) = true) :
    isFrac ('.' :: d :: (ds ++ r)) = true := by
  rw [isFrac, hd, dropWhile_digits hds, hr]
  rfl

/-- Digits after the point, and nothing more. -/
theorem isFrac_point {d : Char} {ds : List Char} (hd : d.isDigit = true)
    (hds : ∀ c ∈ ds, c.isDigit = true) : isFrac ('.' :: d :: ds) = true := by
  rw [isFrac, hd, dropWhile_all_digits hds]
  rfl

theorem isInt_digits {c : Char} {s r : List Char} (hc : isNonzeroDigit c = true)
    (hs : ∀ x ∈ s, x.isDigit = true) (hr : isFrac (r.dropWhile Char.isDigit) = true) :
    isInt (c :: (s ++ r)) = true := by
  have h0 : c ≠ '0' := by
    rintro rfl
    exact absurd hc (by decide)
  rw [isInt, if_neg h0, isDigit_of_isNonzeroDigit hc, dropWhile_digits hs, hr]
  rfl

theorem isInt_placePoint {c : Char} {ds : List Char} (hc : isNonzeroDigit c = true)
    (hds : ∀ x ∈ ds, x.isDigit = true) (n : Int) : isInt (placePoint (c :: ds) n) = true := by
  have hc' := isDigit_of_isNonzeroDigit hc
  have hzeros : ∀ k, ∀ x ∈ List.replicate k '0', x.isDigit = true := by
    intro k x hx
    rw [List.eq_of_mem_replicate hx]
    rfl
  rw [placePoint]
  split
  · refine isInt_digits hc hds ?_
    rw [dropWhile_all_digits (hzeros _)]
    rfl
  · next h₁ =>
      split
      · next h₂ =>
          obtain ⟨k, hk⟩ : ∃ k, n.toNat = k + 1 := ⟨n.toNat - 1, by omega⟩
          have hlen : k < ds.length := by
            simp only [List.length_cons] at h₁
            omega
          rw [hk, List.take_succ_cons, List.drop_succ_cons, List.drop_eq_getElem_cons hlen,
            List.cons_append]
          refine isInt_digits hc (fun x hx => hds x (List.mem_of_mem_take hx)) ?_
          exact isFrac_point (hds _ (List.getElem_mem hlen))
            fun x hx => hds x (List.mem_of_mem_drop hx)
      · split
        · show isFrac ('.' :: (List.replicate (-n).toNat '0' ++ c :: ds)) = true
          cases (-n).toNat with
          | zero => exact isFrac_point hc' hds
          | succ k =>
              refine isFrac_point (d := '0') rfl fun x hx => ?_
              rcases List.mem_append.mp hx with hx | hx
              · exact hzeros k x hx
              · rcases List.mem_cons.mp hx with rfl | hx
                · exact hc'
                · exact hds x hx
        · have hexp : ∀ m : Nat, isExp ('e' :: (if n - 1 < 0 then '-' else '+') :: natText m) = true := by
            intro m
            split
            · exact isExp_exponent (.inr rfl) m
            · exact isExp_exponent (.inl rfl) m
          cases ds with
          | nil => exact isInt_digits (s := []) hc (List.forall_mem_nil _) (hexp _)
          | cons d ds =>
              rw [if_neg (by simp)]
              obtain ⟨hd, hds⟩ := List.forall_mem_cons.mp hds
              exact isInt_digits (s := []) hc (List.forall_mem_nil _) (isFrac_digits hd hds (hexp _))

theorem isNumChar_placePoint {c : Char} {ds : List Char} (hc : c.isDigit = true)
    (hds : ∀ x ∈ ds, x.isDigit = true) (n : Int) :
    ∀ x ∈ placePoint (c :: ds) n, isNumChar x = true := by
  have hdigits : ∀ x ∈ c :: ds, isNumChar x = true := by
    intro x hx
    rcases List.mem_cons.mp hx with rfl | hx
    · exact isNumChar_of_isDigit hc
    · exact isNumChar_of_isDigit (hds x hx)
  have hzeros : ∀ k, ∀ x ∈ List.replicate k '0', isNumChar x = true := by
    intro k x hx
    rw [List.eq_of_mem_replicate hx]
    decide
  have hcons : ∀ {y : Char} {l : List Char}, isNumChar y = true → (∀ x ∈ l, isNumChar x = true) →
      ∀ x ∈ y :: l, isNumChar x = true := fun hy hl => List.forall_mem_cons.mpr ⟨hy, hl⟩
  rw [placePoint]
  split
  · exact List.forall_mem_append.mpr ⟨hdigits, hzeros _⟩
  · split
    · exact List.forall_mem_append.mpr ⟨fun x hx => hdigits x (List.mem_of_mem_take hx),
        hcons (by decide) fun x hx => hdigits x (List.mem_of_mem_drop hx)⟩
    · split
      · exact List.forall_mem_append.mpr
          ⟨hcons (by decide) (hcons (by decide) (hzeros _)), hdigits⟩
      · refine List.forall_mem_append.mpr ⟨List.forall_mem_append.mpr ⟨?_, ?_⟩, ?_⟩
        · exact fun x hx => hdigits x (List.mem_of_mem_take hx)
        · split
          · exact List.forall_mem_nil _
          · exact hcons (by decide) fun x hx => hdigits x (List.mem_of_mem_drop hx)
        · refine hcons (by decide) (hcons ?_ fun x hx => isNumChar_of_isDigit (isDigit_natText hx))
          split <;> decide

/-- **The shortest text is a JSON number.** -/
theorem isNumeral_shortest (d : Dec) : isNumeral d.shortest = true := by
  rw [Dec.shortest]
  split
  · decide
  · next hm =>
      obtain ⟨c, ds, hcs, hc, hds⟩ := stripZeros_natText (n := d.mant.natAbs) (by omega)
      rw [hcs]
      have hint := isInt_placePoint hc hds ((natText d.mant.natAbs).length - d.scale : Int)
      have hchars := isNumChar_placePoint (isDigit_of_isNonzeroDigit hc) hds
        ((natText d.mant.natAbs).length - d.scale : Int)
      generalize placePoint (c :: ds) ((natText d.mant.natAbs).length - d.scale : Int) = p at *
      have hnumber : isNumber p = true := by
        cases p with
        | nil => cases hint
        | cons x p =>
            have hx : x ≠ '-' := by
              rintro rfl
              exact absurd hint (by simp [isInt, Char.isDigit])
            rw [isNumber]
            · exact hint
            · rintro r ⟨⟩
              exact hx rfl
      rw [isNumeral, Bool.and_eq_true, List.all_eq_true]
      split
      · exact ⟨hint, List.forall_mem_cons.mpr ⟨by decide, hchars⟩⟩
      · exact ⟨hnumber, hchars⟩

/-! ## Decimal literals -/

def dropMinus : List Char → List Char
  | '-' :: r => r
  | r => r

/-- An optional minus, digits, and optionally a point and more digits. -/
def isDecimal (t : List Char) : Bool :=
  (dropMinus t).takeWhile Char.isDigit ≠ [] &&
    match (dropMinus t).dropWhile Char.isDigit with
    | [] => true
    | '.' :: f => f ≠ [] && f.all Char.isDigit
    | _ => false

theorem dropMinus_cases (t : List Char) : t = '-' :: dropMinus t ∨ dropMinus t = t := by
  cases t with
  | nil => exact .inr rfl
  | cons c r =>
      by_cases hc : c = '-'
      · subst hc
        exact .inl rfl
      · refine .inr ?_
        rw [dropMinus]
        rintro r' ⟨⟩
        exact hc rfl

theorem isSpace_of_isDigit {c : Char} (h : c.isDigit = true) : isSpace c = false := by
  by_contra hs
  simp only [isSpace, Bool.not_eq_false, Bool.or_eq_true, decide_eq_true_eq] at hs
  rcases hs with ((((rfl | rfl) | rfl) | rfl) | rfl) | rfl <;> exact absurd h (by decide)

/-- The scan of a literal whose sign is taken off. -/
theorem scan_unsigned {t r int frac : List Char} {c : Char} {neg : Bool}
    (hsign : scanSign t = (neg, r)) (hint : ∀ x ∈ c :: int, x.isDigit = true)
    (hfrac : ∀ x ∈ frac, x.isDigit = true)
    (hr : r = c :: int ∧ frac = [] ∨ r = c :: int ++ '.' :: frac) :
    scan t = some (Dec.make neg (c :: int) frac 0, []) := by
  rw [scan, hsign]
  rcases hr with ⟨rfl, rfl⟩ | rfl
  · simp only [List.takeWhile_eq_self_iff.mpr hint, dropWhile_all_digits hint]
    rfl
  · have htake : (c :: int ++ '.' :: frac).takeWhile Char.isDigit = c :: int := by
      rw [takeWhile_digits hint]
      show c :: int ++ [] = c :: int
      rw [List.append_nil]
    have hdrop : (c :: int ++ '.' :: frac).dropWhile Char.isDigit = '.' :: frac :=
      dropWhile_digits hint _
    simp only [htake, hdrop, List.takeWhile_eq_self_iff.mpr hfrac, dropWhile_all_digits hfrac]
    rfl

/-! ## Counting -/

theorem digitsValue_natText (n : Nat) : digitsValue (natText n) = n := by
  rw [digitsValue, List.filter_eq_self.mpr fun c hc => isDigit_natText hc, natText,
    Nat.ofDigitChars_ten_toDigits]

/-- The digits of a number are scanned as that number. -/
theorem scan_natText (n : Nat) : scan (natText n) = some (⟨n, 0⟩, []) := by
  have hdigits : ∀ c ∈ natText n, c.isDigit = true := fun c hc => isDigit_natText hc
  obtain ⟨c, int, hci⟩ := List.exists_cons_of_ne_nil (natText_ne_nil n)
  have hvalue : digitsValue (c :: int) = n := hci ▸ digitsValue_natText n
  rw [hci] at hdigits ⊢
  have hc := hdigits c List.mem_cons_self
  have hsign : scanSign (c :: int) = (false, c :: int) := by
    rw [scanSign]
    · rintro r' ⟨⟩
      exact absurd hc (by decide)
    · rintro r' ⟨⟩
      exact absurd hc (by decide)
  have hmake : Dec.make false (c :: int) [] 0 = ⟨n, 0⟩ := by
    show (⟨(digitsValue (c :: int ++ []) : Int) * 10 ^ 0, 0⟩ : Dec) = _
    rw [List.append_nil, hvalue, Int.pow_zero, Int.mul_one]
  rw [← hmake]
  exact scan_unsigned hsign hdigits nofun (.inl ⟨rfl, rfl⟩)

/-! ## Formatted numbers -/

/-- The characters of a formatted number. -/
def isPriceChar (c : Char) : Bool := c.isDigit || c = ',' || c = '.' || c = '-'

theorem isPriceChar_of_isDigit {c : Char} (h : c.isDigit = true) : isPriceChar c = true := by
  simp only [isPriceChar, h, Bool.true_or]

/-- The codes of a formatted number's characters. -/
theorem isPriceChar_range {c : Char} (h : isPriceChar c = true) : 44 ≤ c.toNat ∧ c.toNat ≤ 57 := by
  simp only [isPriceChar, Char.isDigit, Bool.or_eq_true, Bool.and_eq_true, decide_eq_true_eq] at h
  rcases h with ((⟨hlo, hhi⟩ | rfl) | rfl) | rfl
  · have hlo' : 48 ≤ c.toNat := hlo
    exact ⟨by omega, hhi⟩
  · decide
  · decide
  · decide

theorem isPriceChar_groupRev : ∀ {t : List Char}, (∀ c ∈ t, c.isDigit = true) →
    ∀ c ∈ groupRev t, isPriceChar c = true
  | a :: b :: c :: d :: r, h => by
      have ih := isPriceChar_groupRev (t := d :: r) fun x hx => h x (by simp [hx])
      rw [groupRev]
      simp only [List.forall_mem_cons] at h ⊢
      exact ⟨isPriceChar_of_isDigit h.1, isPriceChar_of_isDigit h.2.1,
        isPriceChar_of_isDigit h.2.2.1, by decide, ih⟩
  | [], _ => nofun
  | [a], h => fun c hc => isPriceChar_of_isDigit (h c hc)
  | [a, b], h => fun c hc => isPriceChar_of_isDigit (h c hc)
  | [a, b, c], h => fun x hx => isPriceChar_of_isDigit (h x hx)

theorem isPriceChar_numberFormat (d : Dec) (p : Nat) :
    ∀ c ∈ numberFormat d p, isPriceChar c = true := by
  have hgroup : ∀ n, ∀ c ∈ group (natText n), isPriceChar c = true := by
    intro n c hc
    exact isPriceChar_groupRev (fun x hx => isDigit_natText (List.mem_reverse.mp hx)) c
      (List.mem_reverse.mp hc)
  rw [numberFormat, fixedText]
  refine List.forall_mem_append.mpr ⟨?_, List.forall_mem_append.mpr ⟨hgroup _, ?_⟩⟩
  · split
    · exact List.forall_mem_cons.mpr ⟨by decide, List.forall_mem_nil _⟩
    · exact List.forall_mem_nil _
  · split
    · exact List.forall_mem_nil _
    · exact List.forall_mem_cons.mpr ⟨by decide, fun c hc =>
        isPriceChar_of_isDigit (isDigit_padDigits hc)⟩

end Decimals
