/-
# `WebTech.Lib.Floating` — the numbers of a script

A script keeps binary64 for a decimal and writes the shortest text of what it
kept.  The rounding is a parameter: all that is used is how the number that is
kept for a decimal is written.

    up to fifteen digits nothing is lost                 (`Floating.exact`)
    what is written stands for the number that was kept  (`below`)
    an amount is zero when it is written `0`             (`print_eq_zero_iff`)

An `i` that a loop counts with lies below 2⁵³, and there a whole number compares
as the binary64 number it is rounded to.
-/
import WebTech.Lib.Shortest

namespace Ecma

open Decimals

/-- A character of a written number; the letters are those of `e` and of
`Infinity`. -/
def isNumberChar (c : Char) : Bool := c.isAlphanum || c = '-' || c = '+' || c = '.'

/-- `Number::toString` of the number that is kept for a decimal: one text for one
number, written without anything needless, and exact up to fifteen digits. -/
class Floating where
  print : Dec → List Char
  number : ∀ d d', d.shortest = d'.shortest → print d = print d'
  needless : ∀ d, isDecimal (print d) = true → ShortForm (print d)
  exact : ∀ d, d.mant.natAbs < 10 ^ 15 → d.scale ≤ 22 → print d = d.shortest
  chars : ∀ d, ∀ c ∈ print d, isNumberChar c = true

theorem isNumberChar_of_isNumChar {c : Char} (h : Rfc8259.isNumChar c = true) :
    isNumberChar c = true := by
  simp only [Rfc8259.isNumChar, Bool.or_eq_true, decide_eq_true_eq] at h
  simp only [isNumberChar, Char.isAlphanum, Bool.or_eq_true, decide_eq_true_eq]
  rcases h with ((((h | rfl) | rfl) | rfl) | rfl) | rfl
  · exact .inl (.inl (.inl (.inr h)))
  all_goals decide

/-- Numbers of any length. -/
@[reducible] def Floating.unbounded : Floating where
  print := Dec.shortest
  number _ _ h := h
  needless d h := by
    rcases shortest_cases d with ⟨-, hshort⟩ | ⟨neg, ds, n, hsig, hn, hexp⟩
    · exact hshort
    · obtain ⟨neg', int, frac, hparts, hliteral⟩ := exists_parts h
      obtain ⟨c, r, rfl, -⟩ := hsig.front
      refine absurd ?_ (not_mem_literal hparts neg' (x := 'e') rfl (by decide) (by decide))
      rw [← hliteral, hexp, placePoint_exponent hn]
      simp
  exact _ _ _ := rfl
  chars d c hc := by
    have hnum := isNumeral_shortest d
    rw [Rfc8259.isNumeral, Bool.and_eq_true, List.all_eq_true] at hnum
    exact isNumberChar_of_isNumChar (hnum.2 c hc)

section Numbers
variable [Floating]

/-- `i < d` -/
def below (i : Nat) (d : Dec) : Bool :=
  if d.scale = 0 then (i : Int) < d.mant
  else
    match scan (Floating.print d) with
    | some (d', []) => (i : Int) * 10 ^ d'.scale < d'.mant
    | _ => Floating.print d = "Infinity".toList

/-- A formatted number below a thousand is written exactly. -/
theorem print_numberFormat {x : Dec} (h : isDecimal (numberFormat x 2) = true) :
    Floating.print (floatval (numberFormat x 2)) = (floatval (numberFormat x 2)).shortest := by
  have hlt := (isDecimal_numberFormat x).mp h
  rw [floatval_numberFormat hlt]
  refine Floating.exact _ ?_ (show 2 ≤ 22 by decide)
  show (x.round 2).natAbs < 10 ^ 15
  omega

/-- A number with the value of an amount is written `0` when the amount is
zero. -/
theorem print_eq_zero_iff {d x : Dec} (h : isDecimal (numberFormat x 2) = true)
    (hd : d.shortest = (floatval (numberFormat x 2)).shortest) :
    Floating.print d = ['0'] ↔ x.round 2 = 0 := by
  rw [Floating.number d _ hd, print_numberFormat h, floatval_numberFormat ((isDecimal_numberFormat x).mp h)]
  constructor
  · intro hzero
    exact (isZeroLit_shortest _).mp (by rw [hzero]; rfl)
  · intro hzero
    exact if_pos hzero

end Numbers

end Ecma
