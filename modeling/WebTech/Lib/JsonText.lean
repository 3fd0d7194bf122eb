/-
# `WebTech.Lib.JsonText` — the reader is the grammar, and what a text costs

    parse t = some v  ⟺  t is a JSON text of v               (`parse_iff`)
    parse (print v) = some v  when v's numbers are numerals   (`parse_print`)
    a text of v is at least as long as v's shortest text      (`parse_weight_le`)

The last one counts every character but the space, and it is what decides
whether a text assembled without escaping can be read back: a quotation mark,
a backslash or a control character inside a string costs two characters in
every JSON text, and a writer that does not escape spends only one.
-/
import WebTech.Lib.Json
import Mathlib.Data.List.TakeWhile
import Mathlib.Data.List.Nodup
import Mathlib.Data.List.Perm.Subperm
import Mathlib.Algebra.Order.BigOperators.Group.List
import Mathlib.Algebra.Order.Group.Nat
import Mathlib.Algebra.GroupWithZero.Nat

namespace Rfc8259

/-! ## Strings -/

theorem parseUnits_sound (t : List Char) : ∀ {us : List Nat} {r : List Char},
    parseUnits t = some (us, r) → Body t us r := by
  fun_induction parseUnits t <;> intro us' r' h
  all_goals try (cases h)
  · exact .close
  · rename_i ih
    exact .hex ‹_› (ih ‹_›)
  · rename_i ih
    exact .escape ‹_› (ih ‹_›)
  · rename_i ih
    exact .char ‹_› ‹_› (by omega) (ih ‹_›)

theorem parseUnits_complete : ∀ {t r : List Char} {us : List Nat},
    Body t us r → parseUnits t = some (us, r)
  | _, _, _, .close => by unfold parseUnits; rfl
  | _, _, _, .hex h hb => by
      unfold parseUnits
      rw [if_neg (by decide), if_pos rfl]
      simp only [h, parseUnits_complete hb]
  | _, _, _, .escape (e := e) (x := x) h hb => by
      have he : e ≠ 'u' := by
        rintro rfl
        exact absurd h (by rw [show escape 'u' = none by decide]; nofun)
      unfold parseUnits
      rw [if_neg (by decide), if_pos rfl]
      split
      · next heq => exact absurd (List.cons.inj heq).1 he
      · next heq =>
          obtain ⟨rfl, rfl⟩ := List.cons.inj heq
          simp only [h, parseUnits_complete hb]
      · next heq => exact nomatch heq
  | _, _, _, .char h h' hc hb => by
      unfold parseUnits
      rw [if_neg h, if_neg h', if_neg (by omega), parseUnits_complete hb]

/-- Reading the rest of a string is reading its grammar. -/
theorem parseString_eq_some {t r s : List Char} :
    parseString t = some (s, r) ↔ ∃ us, Body t us r ∧ fuse us = s := by
  simp only [parseString, Option.map_eq_some_iff, Prod.mk.injEq, Prod.exists]
  constructor
  · rintro ⟨us, r', h, rfl, rfl⟩
    exact ⟨us, parseUnits_sound t h, rfl⟩
  · rintro ⟨us, h, rfl⟩
    exact ⟨us, r, parseUnits_complete h, rfl, rfl⟩

/-! ## Every text of a value takes at least one character -/

theorem skipWs_length_le (t : List Char) : (skipWs t).length ≤ t.length :=
  (List.dropWhile_suffix isWs).length_le

theorem skipWs_cons {t r : List Char} {c : Char} (h : skipWs t = c :: r) :
    r.length < t.length := by
  have := skipWs_length_le t
  rw [h, List.length_cons] at this
  omega

theorem Body.length_lt : ∀ {t r : List Char} {us : List Nat}, Body t us r →
    r.length < t.length
  | _, _, _, .close => by simp
  | _, _, _, .char _ _ _ h => by have := h.length_lt; simp only [List.length_cons]; omega
  | _, _, _, .escape _ h => by have := h.length_lt; simp only [List.length_cons]; omega
  | _, _, _, .hex _ h => by have := h.length_lt; simp only [List.length_cons]; omega

/-- A number is the run of number characters in front, and it is not empty. -/
theorem parseNumber_eq_some {t lit r : List Char} :
    parseNumber t = some (lit, r) ↔
      isNumber lit = true ∧ lit = t.takeWhile isNumChar ∧ r = t.dropWhile isNumChar := by
  rw [parseNumber]
  split
  · next h =>
      simp only [Option.some.injEq, Prod.mk.injEq]
      constructor
      · rintro ⟨rfl, rfl⟩
        exact ⟨h, rfl, rfl⟩
      · rintro ⟨_, rfl, rfl⟩
        exact ⟨rfl, rfl⟩
  · next h =>
      constructor
      · exact fun h' => nomatch h'
      · rintro ⟨h', rfl, _⟩
        exact absurd h' h

theorem parseNumber_append {t lit r : List Char} (h : parseNumber t = some (lit, r)) :
    t = lit ++ r := by
  obtain ⟨_, rfl, rfl⟩ := parseNumber_eq_some.mp h
  exact List.takeWhile_append_dropWhile.symm

theorem parseNumber_cons {t lit r : List Char} (h : parseNumber t = some (lit, r)) :
    ∃ c t', t = c :: t' ∧ isNumChar c = true := by
  obtain ⟨hlit, rfl, rfl⟩ := parseNumber_eq_some.mp h
  cases t with
  | nil => exact absurd hlit (by decide)
  | cons c t' =>
      refine ⟨c, t', rfl, ?_⟩
      by_contra hc
      rw [List.takeWhile_cons_of_neg hc] at hlit
      exact absurd hlit (by decide)

theorem parseNumber_length_lt {t lit r : List Char} (h : parseNumber t = some (lit, r)) :
    r.length < t.length := by
  obtain ⟨c, t', rfl, hc⟩ := parseNumber_cons h
  obtain ⟨_, _, rfl⟩ := parseNumber_eq_some.mp h
  rw [List.dropWhile_cons_of_pos hc]
  have := (List.dropWhile_suffix (l := t') isNumChar).length_le
  rw [List.length_cons]
  omega

mutual
theorem Val.length_lt : ∀ {t r : List Char} {v : Json}, Val t v r → r.length < t.length
  | _, _, _, .null h | _, _, _, .true h | _, _, _, .false h => by
      have := skipWs_cons h
      simp only [List.length_cons] at this
      omega
  | _, _, _, .str h hb => Nat.lt_trans hb.length_lt (skipWs_cons h)
  | t, _, _, .num h => Nat.lt_of_lt_of_le (parseNumber_length_lt h) (skipWs_length_le t)
  | _, _, _, .arrNil h h' => Nat.lt_trans (skipWs_cons h') (skipWs_cons h)
  | _, _, _, .arr h hs => Nat.lt_trans hs.length_lt (skipWs_cons h)
  | _, _, _, .objNil h h' => Nat.lt_trans (skipWs_cons h') (skipWs_cons h)
  | _, _, _, .obj h hs => Nat.lt_trans hs.length_lt (skipWs_cons h)
theorem Elems.length_lt : ∀ {t r : List Char} {vs : List Json}, Elems t vs r →
    r.length < t.length
  | _, _, _, .last hv h => Nat.lt_trans (skipWs_cons h) hv.length_lt
  | _, _, _, .cons hv h hs =>
      Nat.lt_trans hs.length_lt (Nat.lt_trans (skipWs_cons h) hv.length_lt)
theorem Members.length_lt : ∀ {t r : List Char} {ms : List (List Char × Json)}, Members t ms r →
    r.length < t.length
  | _, _, _, .last h hb h₁ hv h₃ => by
      have := skipWs_cons h
      have := skipWs_cons h₁
      have := skipWs_cons h₃
      have := hb.length_lt
      have := hv.length_lt
      omega
  | _, _, _, .cons h hb h₁ hv h₃ hs => by
      have := skipWs_cons h
      have := skipWs_cons h₁
      have := skipWs_cons h₃
      have := hb.length_lt
      have := hv.length_lt
      have := hs.length_lt
      omega
end

/-! ## The reader and the grammar -/

/-- What the reader accepts is in the grammar: one induction on the bound,
for values, elements and members together. -/
theorem read_sound : ∀ (n : Nat),
    (∀ {t r : List Char} {v : Json}, parseValue n t = some (v, r) → Val t v r) ∧
    (∀ {t r : List Char} {vs : List Json}, parseElems n t = some (vs, r) → Elems t vs r) ∧
    (∀ {t r : List Char} {ms : List (List Char × Json)},
      parseMembers n t = some (ms, r) → Members t ms r)
  | 0 => by
      refine ⟨?_, ?_, ?_⟩ <;> intro _ _ _ h
      · rw [parseValue] at h; exact nomatch h
      · rw [parseElems] at h; exact nomatch h
      · rw [parseMembers] at h; exact nomatch h
  | n + 1 => by
      obtain ⟨ihV, ihE, ihM⟩ := read_sound n
      refine ⟨?_, ?_, ?_⟩
      · intro t r v h
        rw [parseValue] at h
        split at h
        · next heq =>
            obtain ⟨p, hp, he⟩ := Option.map_eq_some_iff.mp h
            obtain ⟨us, hb, hus⟩ := parseString_eq_some.mp (show _ = some (p.1, p.2) from hp)
            cases he
            exact hus ▸ .str heq hb
        · next heq =>
            split at h
            · next hc => cases h; exact .arrNil heq hc
            · obtain ⟨p, hp, he⟩ := Option.map_eq_some_iff.mp h
              cases he
              exact .arr heq (ihE hp)
        · next heq =>
            split at h
            · next hc => cases h; exact .objNil heq hc
            · obtain ⟨p, hp, he⟩ := Option.map_eq_some_iff.mp h
              cases he
              exact .obj heq (ihM hp)
        · next heq => cases h; exact .null heq
        · next heq => cases h; exact .true heq
        · next heq => cases h; exact .false heq
        · obtain ⟨p, hp, he⟩ := Option.map_eq_some_iff.mp h
          cases he
          exact .num hp
      · intro t r vs h
        rw [parseElems] at h
        split at h
        · exact nomatch h
        · next v r₁ hv =>
            split at h
            · next hc => cases h; exact .last (ihV hv) hc
            · next hc =>
                obtain ⟨p, hp, he⟩ := Option.map_eq_some_iff.mp h
                cases he
                exact .cons (ihV hv) hc (ihE hp)
            · exact nomatch h
      · intro t r ms h
        rw [parseMembers] at h
        split at h
        · next heq =>
            split at h
            · exact nomatch h
            · next k r₁ hk =>
                obtain ⟨us, hb, rfl⟩ := parseString_eq_some.mp hk
                split at h
                · next hcolon =>
                    split at h
                    · exact nomatch h
                    · next v r₃ hv =>
                        split at h
                        · next hc => cases h; exact .last heq hb hcolon (ihV hv) hc
                        · next hc =>
                            obtain ⟨p, hp, he⟩ := Option.map_eq_some_iff.mp h
                            cases he
                            exact .cons heq hb hcolon (ihV hv) hc (ihM hp)
                        · exact nomatch h
                · exact nomatch h
        · exact nomatch h

theorem isNumChar_ne {c : Char} (h : isNumChar c = true) :
    c ≠ '"' ∧ c ≠ '[' ∧ c ≠ ']' ∧ c ≠ '{' ∧ c ≠ 'n' ∧ c ≠ 't' ∧ c ≠ 'f' := by
  refine ⟨?_, ?_, ?_, ?_, ?_, ?_, ?_⟩ <;> (rintro rfl; exact absurd h (by decide))

/-- No value starts with a closing bracket. -/
theorem Val.ne_bracket {t r : List Char} {v : Json} (h : Val t v r) (x : List Char) :
    skipWs t ≠ ']' :: x := by
  cases h with
  | num hn =>
      obtain ⟨c, t', ht, hc⟩ := parseNumber_cons hn
      rw [ht]
      exact fun he => (isNumChar_ne hc).2.2.1 (List.cons.inj he).1
  | null h | true h | false h | str h _ | arrNil h _ | arr h _ | objNil h _ | obj h _ =>
      rw [h]
      exact fun he => absurd (List.cons.inj he).1 (by decide)

theorem Elems.ne_bracket {t r : List Char} {vs : List Json} (h : Elems t vs r) (x : List Char) :
    skipWs t ≠ ']' :: x := by
  cases h with
  | last hv _ | cons hv _ _ => exact hv.ne_bracket x

theorem Members.ne_brace {t r : List Char} {ms : List (List Char × Json)} (h : Members t ms r)
    (x : List Char) : skipWs t ≠ '}' :: x := by
  cases h with
  | last h _ _ _ _ | cons h _ _ _ _ _ =>
      rw [h]
      exact fun he => absurd (List.cons.inj he).1 (by decide)

theorem parseValue_num {t r lit : List Char} (n : Nat)
    (h : parseNumber (skipWs t) = some (lit, r)) :
    parseValue (n + 1) t = some (.num lit, r) := by
  obtain ⟨c, t', ht, hc⟩ := parseNumber_cons h
  obtain ⟨h₁, h₂, -, h₄, h₅, h₆, h₇⟩ := isNumChar_ne hc
  rw [parseValue]
  split
  case h_7 => rw [h]; rfl
  all_goals
    next heq =>
      rw [ht] at heq
      exact absurd (List.cons.inj heq).1 ‹_›

mutual
/-- With a bound above the characters consumed, the reader finds every
derivation. -/
theorem Val.parse : ∀ {t r : List Char} {v : Json}, Val t v r →
    ∀ {n : Nat}, t.length < n + r.length → parseValue n t = some (v, r)
  | _, _, _, h, 0, hn => absurd h.length_lt (by omega)
  | _, _, _, .null h, n + 1, _ => by rw [parseValue, h]; rfl
  | _, _, _, .true h, n + 1, _ => by rw [parseValue, h]; rfl
  | _, _, _, .false h, n + 1, _ => by rw [parseValue, h]; rfl
  | _, _, _, .str h hb, n + 1, _ => by
      rw [parseValue, h]
      simp only [parseString_eq_some.mpr ⟨_, hb, rfl⟩, Option.map_some]
  | _, _, _, .num h, n + 1, _ => parseValue_num n h
  | _, _, _, .arrNil h h', n + 1, _ => by
      rw [parseValue, h]
      simp only [h']
  | _, _, _, .arr h hs, n + 1, hn => by
      have hlt := skipWs_cons h
      rw [parseValue, h]
      simp only
      split
      · next heq => exact absurd heq (hs.ne_bracket _)
      · rw [hs.parse (by omega)]; rfl
  | _, _, _, .objNil h h', n + 1, _ => by
      rw [parseValue, h]
      simp only [h']
  | _, _, _, .obj h hs, n + 1, hn => by
      have hlt := skipWs_cons h
      rw [parseValue, h]
      simp only
      split
      · next heq => exact absurd heq (hs.ne_brace _)
      · rw [hs.parse (by omega)]; rfl
theorem Elems.parse : ∀ {t r : List Char} {vs : List Json}, Elems t vs r →
    ∀ {n : Nat}, t.length < n + r.length → parseElems n t = some (vs, r)
  | _, _, _, h, 0, hn => absurd h.length_lt (by omega)
  | _, _, _, .last hv h, n + 1, hn => by
      have := skipWs_cons h
      rw [parseElems, hv.parse (by omega)]
      simp only [h]
  | _, _, _, .cons hv h hs, n + 1, hn => by
      have := skipWs_cons h
      have := hv.length_lt
      have := hs.length_lt
      rw [parseElems, hv.parse (by omega)]
      simp only [h, hs.parse (n := n) (by omega), Option.map_some]
theorem Members.parse : ∀ {t r : List Char} {ms : List (List Char × Json)}, Members t ms r →
    ∀ {n : Nat}, t.length < n + r.length → parseMembers n t = some (ms, r)
  | _, _, _, h, 0, hn => absurd h.length_lt (by omega)
  | _, _, _, .last h hb h₁ hv h₃, n + 1, hn => by
      have := skipWs_cons h
      have := skipWs_cons h₁
      have := skipWs_cons h₃
      have := hb.length_lt
      rw [parseMembers, h]
      simp only [parseString_eq_some.mpr ⟨_, hb, rfl⟩, h₁]
      rw [hv.parse (by omega)]
      simp only [h₃]
  | _, _, _, .cons h hb h₁ hv h₃ hs, n + 1, hn => by
      have := skipWs_cons h
      have := skipWs_cons h₁
      have := skipWs_cons h₃
      have := hb.length_lt
      have := hv.length_lt
      have := hs.length_lt
      rw [parseMembers, h]
      simp only [parseString_eq_some.mpr ⟨_, hb, rfl⟩, h₁]
      rw [hv.parse (by omega)]
      simp only [h₃, hs.parse (n := n) (by omega), Option.map_some]
end

/-- **The reader accepts exactly the grammar**, and reads the value the
grammar gives. -/
theorem parse_iff {t : List Char} {v : Json} :
    parse t = some v ↔ ∃ r, Val t v r ∧ skipWs r = [] := by
  rw [Rfc8259.parse]
  constructor
  · intro h
    split at h
    · next v' r hv =>
        split at h
        · next hr => cases h; exact ⟨r, (read_sound _).1 hv, hr⟩
        · exact nomatch h
    · exact nomatch h
  · rintro ⟨r, hv, hr⟩
    rw [hv.parse (by omega)]
    simp only [hr, if_true]

/-! ## What a text costs

`weight v` is the number of characters other than the space in the shortest
text of `v`, with a number counted as one: no text of `v` is shorter.  A
character that has to be escaped costs two. -/

/-- The characters a string cannot hold unescaped. -/
def isSpecial (c : Char) : Bool := c = '"' || c = '\\' || c.toNat < 0x20

def charWeight (c : Char) : Nat := if isSpecial c then 2 else if c = ' ' then 0 else 1

def textWeight (s : List Char) : Nat := (s.map charWeight).sum

mutual
def weight : Json → Nat
  | .null => 4
  | .bool _ => 4
  | .num _ => 1
  | .str s => 2 + textWeight s
  | .arr vs => 1 + max 1 (weightElems vs)
  | .obj ms => 1 + max 1 (weightMembers ms)

/-- Each element with the comma or bracket after it. -/
def weightElems : List Json → Nat
  | [] => 0
  | v :: vs => weight v + 1 + weightElems vs

/-- Each member with its colon and the comma or brace after it. -/
def weightMembers : List (List Char × Json) → Nat
  | [] => 0
  | (k, v) :: ms => 2 + textWeight k + 1 + weight v + 1 + weightMembers ms
end

/-- The number of characters other than the space. -/
def visible (t : List Char) : Nat := t.countP (· ≠ ' ')

@[simp] theorem visible_nil : visible [] = 0 := rfl

@[simp] theorem visible_append (t t' : List Char) :
    visible (t ++ t') = visible t + visible t' := List.countP_append

theorem visible_cons (c : Char) (t : List Char) :
    visible (c :: t) = visible t + if c = ' ' then 0 else 1 := by
  by_cases hc : c = ' ' <;> simp [visible, hc]

theorem visible_cons_of_ne {c : Char} (h : c ≠ ' ') (t : List Char) :
    visible (c :: t) = visible t + 1 := by
  rw [visible_cons, if_neg h]

theorem visible_skipWs_le (t : List Char) : visible (skipWs t) ≤ visible t :=
  (List.dropWhile_suffix isWs).sublist.countP_le

theorem visible_of_skipWs {t r : List Char} {c : Char} (h : skipWs t = c :: r) (hc : c ≠ ' ') :
    visible r + 1 ≤ visible t := by
  have := visible_skipWs_le t
  rwa [h, visible_cons_of_ne hc] at this

theorem unitChar_toNat (c : Char) : unitChar c.toNat = c := by
  have h : c.toNat.isValidChar := c.valid
  rw [unitChar, if_pos h, Char.ofNat_toNat]

theorem toNat_ofNat {u : Nat} (h : u.isValidChar) : (Char.ofNat u).toNat = u := by
  rw [Char.ofNat, dif_pos h]
  rfl

theorem charWeight_le_two (c : Char) : charWeight c ≤ 2 := by
  rw [charWeight]
  split
  · omega
  · split <;> omega

/-- A code point past the basic plane, and half a pair, weigh one. -/
theorem charWeight_unitChar_le {u : Nat} (h : 0x10000 ≤ u) : charWeight (unitChar u) ≤ 1 := by
  have hs : isSpecial (unitChar u) = false := by
    rw [unitChar]
    split
    · next hu =>
        have hn : (Char.ofNat u).toNat = u := toNat_ofNat hu
        simp only [isSpecial, Bool.or_eq_false_iff, decide_eq_false_iff_not]
        refine ⟨⟨?_, ?_⟩, by omega⟩
        · intro he
          rw [he] at hn
          exact absurd hn (by simp; omega)
        · intro he
          rw [he] at hn
          exact absurd hn (by simp; omega)
    · decide
  rw [charWeight, hs]
  simp only [Bool.false_eq_true, if_false]
  split <;> omega

theorem charWeight_high {u : Nat} (h : isHigh u = true) : charWeight (unitChar u) = 1 := by
  have hv : ¬ u.isValidChar := by
    simp only [isHigh, Bool.and_eq_true, decide_eq_true_eq] at h
    rintro (h' | h') <;> omega
  rw [unitChar, if_neg hv]
  decide

/-- Joining surrogate pairs makes no string heavier. -/
theorem textWeight_fuse_le : ∀ (us : List Nat),
    textWeight (fuse us) ≤ (us.map fun u => charWeight (unitChar u)).sum
  | [] => Nat.le_refl _
  | [u] => by simp [fuse, textWeight]
  | u :: u' :: us => by
      rw [fuse]
      split
      · next h =>
          rw [Bool.and_eq_true] at h
          have ih := textWeight_fuse_le us
          have hw := charWeight_unitChar_le
            (u := 0x10000 + (u - 0xd800) * 0x400 + (u' - 0xdc00)) (by omega)
          have hu := charWeight_high h.1
          simp only [textWeight, List.map_cons, List.sum_cons] at ih ⊢
          omega
      · have ih := textWeight_fuse_le (u' :: us)
        simp only [textWeight, List.map_cons, List.sum_cons] at ih ⊢
        omega

/-- A character weighs no more than what the grammar spends on it. -/
theorem Body.units_le : ∀ {t r : List Char} {us : List Nat}, Body t us r →
    (us.map fun u => charWeight (unitChar u)).sum + 1 + visible r ≤ visible t
  | _, _, _, .close => by
      rw [visible_cons_of_ne (by decide)]
      simp only [List.map_nil, List.sum_nil]
      omega
  | _, _, _, .char (c := c) h h' hc hb => by
      have ih := hb.units_le
      have hs : isSpecial c = false := by simp [isSpecial, h, h', hc]
      rw [visible_cons, List.map_cons, List.sum_cons, unitChar_toNat, charWeight, hs]
      simp only [Bool.false_eq_true, if_false]
      omega
  | _, _, _, .escape (e := e) (x := x) h hb => by
      have ih := hb.units_le
      have he : e ≠ ' ' := by
        rintro rfl
        exact absurd h (by rw [show Rfc8259.escape ' ' = none by decide]; nofun)
      have hx := charWeight_le_two x
      rw [visible_cons_of_ne (by decide), visible_cons_of_ne he, List.map_cons, List.sum_cons,
        unitChar_toNat]
      omega
  | _, _, _, .hex (u := u) _ hb => by
      have ih := hb.units_le
      have hu := charWeight_le_two (unitChar u)
      rw [visible_cons_of_ne (by decide), visible_cons_of_ne (by decide), List.map_cons,
        List.sum_cons]
      simp only [visible_cons]
      omega

theorem Body.weight_le {t r : List Char} {us : List Nat} (h : Body t us r) :
    textWeight (fuse us) + 1 + visible r ≤ visible t := by
  have := h.units_le
  have := textWeight_fuse_le us
  omega

mutual
theorem Val.weight_le : ∀ {t r : List Char} {v : Json}, Val t v r →
    weight v + visible r ≤ visible t
  | t, _, _, .null h | t, _, _, .true h | t, _, _, .false h => by
      have := visible_skipWs_le t
      rw [h] at this
      simp [visible_cons] at this
      simp only [weight]
      omega
  | _, _, _, .str h hb => by
      have := visible_of_skipWs h (by decide)
      have := hb.weight_le
      simp only [weight]
      omega
  | t, _, _, .num h => by
      obtain ⟨c, t', ht, hc⟩ := parseNumber_cons h
      obtain ⟨-, -, hr⟩ := parseNumber_eq_some.mp h
      have hsp : c ≠ ' ' := by rintro rfl; exact absurd hc (by decide)
      have h₁ := visible_of_skipWs ht hsp
      have h₂ : visible (t'.dropWhile isNumChar) ≤ visible t' :=
        (List.dropWhile_suffix isNumChar).sublist.countP_le
      rw [ht, List.dropWhile_cons_of_pos hc] at hr
      rw [hr]
      simp only [weight]
      omega
  | _, _, _, .arrNil h h' | _, _, _, .objNil h h' => by
      have := visible_of_skipWs h (by decide)
      have := visible_of_skipWs h' (by decide)
      simp only [weight, weightElems, weightMembers]
      omega
  | _, _, _, .arr h hs => by
      have := visible_of_skipWs h (by decide)
      have := hs.weight_le
      simp only [weight]
      omega
  | _, _, _, .obj h hs => by
      have := visible_of_skipWs h (by decide)
      have := hs.weight_le
      simp only [weight]
      omega
theorem Elems.weight_le : ∀ {t r : List Char} {vs : List Json}, Elems t vs r →
    max 1 (weightElems vs) + visible r ≤ visible t
  | _, _, _, .last hv h => by
      have := visible_of_skipWs h (by decide)
      have := hv.weight_le
      simp only [weightElems]
      omega
  | _, _, _, .cons hv h hs => by
      have := visible_of_skipWs h (by decide)
      have := hv.weight_le
      have := hs.weight_le
      simp only [weightElems]
      omega
theorem Members.weight_le : ∀ {t r : List Char} {ms : List (List Char × Json)}, Members t ms r →
    max 1 (weightMembers ms) + visible r ≤ visible t
  | _, _, _, .last h hb h₁ hv h₃ => by
      have := visible_of_skipWs h (by decide)
      have := visible_of_skipWs h₁ (by decide)
      have := visible_of_skipWs h₃ (by decide)
      have := hb.weight_le
      have := hv.weight_le
      simp only [weightMembers]
      omega
  | _, _, _, .cons h hb h₁ hv h₃ hs => by
      have := visible_of_skipWs h (by decide)
      have := visible_of_skipWs h₁ (by decide)
      have := visible_of_skipWs h₃ (by decide)
      have := hb.weight_le
      have := hv.weight_le
      have := hs.weight_le
      simp only [weightMembers]
      omega
end

/-- **No text of a value is shorter than the value weighs.** -/
theorem parse_weight_le {t : List Char} {v : Json} (h : parse t = some v) :
    weight v ≤ visible t := by
  obtain ⟨r, hv, -⟩ := parse_iff.mp h
  have := hv.weight_le
  omega

/-! ## Writing and reading back -/

/-- What may follow a number: nothing, or no number character. -/
def Ends (r : List Char) : Prop := ∀ c r', r = c :: r' → isNumChar c = false

theorem ends_cons {c : Char} {r : List Char} (h : isNumChar c = false) : Ends (c :: r) := by
  rintro _ _ ⟨⟩
  exact h

/-- A literal that is a number. -/
def isNumeral (lit : List Char) : Bool := isNumber lit && lit.all isNumChar

theorem parseNumber_numeral {lit r : List Char} (h : isNumeral lit = true) (hr : Ends r) :
    parseNumber (lit ++ r) = some (lit, r) := by
  rw [isNumeral, Bool.and_eq_true, List.all_eq_true] at h
  have hstop : r.takeWhile isNumChar = [] ∧ r.dropWhile isNumChar = r := by
    cases r with
    | nil => exact ⟨rfl, rfl⟩
    | cons c r' =>
        have hc : ¬ isNumChar c = true := by rw [hr c r' rfl]; decide
        exact ⟨List.takeWhile_cons_of_neg hc, List.dropWhile_cons_of_neg hc⟩
  refine parseNumber_eq_some.mpr ⟨h.1, ?_, ?_⟩
  · rw [List.takeWhile_append_of_pos h.2, hstop.1, List.append_nil]
  · rw [List.dropWhile_append_of_pos h.2, hstop.2]

theorem skipWs_cons_of_not {c : Char} (h : isWs c = false) (t : List Char) :
    skipWs (c :: t) = c :: t := by
  rw [skipWs, List.dropWhile_cons_of_neg (by rw [h]; decide)]

theorem isWs_of_isNumChar {c : Char} (h : isNumChar c = true) : isWs c = false := by
  by_contra hw
  simp only [isWs, Bool.not_eq_false, Bool.or_eq_true, decide_eq_true_eq] at hw
  rcases hw with ((rfl | rfl) | rfl) | rfl <;> exact absurd h (by decide)

theorem skipWs_numeral {lit : List Char} (h : isNumeral lit = true) (r : List Char) :
    skipWs (lit ++ r) = lit ++ r := by
  rw [isNumeral, Bool.and_eq_true, List.all_eq_true] at h
  cases lit with
  | nil => exact absurd h.1 (by decide)
  | cons c lit' =>
      exact skipWs_cons_of_not (isWs_of_isNumChar (h.2 c List.mem_cons_self)) _

/-! ## What follows a text -/

theorem Ends.append {t w : List Char} (ht : Ends t) (hw : Ends w) : Ends (t ++ w) := by
  cases t with
  | nil => exact hw
  | cons c t =>
      rintro _ _ ⟨⟩
      exact ht c t rfl

theorem skipWs_append {t r : List Char} {c : Char} (h : skipWs t = c :: r) (w : List Char) :
    skipWs (t ++ w) = c :: (r ++ w) := by
  have hdrop : t.dropWhile isWs = c :: r := h
  rw [skipWs, List.dropWhile_append, hdrop]
  rfl

theorem parseNumber_continue {t lit r w : List Char} (h : parseNumber t = some (lit, r))
    (hw : Ends w) : parseNumber (t ++ w) = some (lit, r ++ w) := by
  obtain ⟨hlit, htake, hdrop⟩ := parseNumber_eq_some.mp h
  have hr : Ends r := by
    intro c r' hc
    have hnot := List.head?_dropWhile_not isNumChar t
    rw [← hdrop, hc] at hnot
    simpa using hnot
  have hnumeral : isNumeral lit = true := by
    rw [isNumeral, hlit, htake]
    exact List.all_eq_true.mpr fun c hc => List.mem_takeWhile_imp hc
  rw [parseNumber_append h, List.append_assoc]
  exact parseNumber_numeral hnumeral (hr.append hw)

theorem Body.append (w : List Char) : ∀ {t r : List Char} {us : List Nat}, Body t us r →
    Body (t ++ w) us (r ++ w)
  | _, _, _, .close => .close
  | _, _, _, .char h₁ h₂ h₃ h => .char h₁ h₂ h₃ (h.append w)
  | _, _, _, .escape he h => .escape he (h.append w)
  | _, _, _, .hex hu h => .hex hu (h.append w)

mutual
/-- **A text of a value** is one whatever follows it, if that does not go on
with a number. -/
theorem Val.append {w : List Char} (hw : Ends w) : ∀ {t r : List Char} {v : Json},
    Val t v r → Val (t ++ w) v (r ++ w)
  | _, _, _, .null h => .null (skipWs_append h w)
  | _, _, _, .true h => .true (skipWs_append h w)
  | _, _, _, .false h => .false (skipWs_append h w)
  | _, _, _, .str h hb => .str (skipWs_append h w) (hb.append w)
  | t, _, _, .num h => by
      obtain ⟨c, t', ht, -⟩ := parseNumber_cons h
      refine .num ?_
      rw [skipWs_append ht w]
      exact parseNumber_continue (ht ▸ h) hw
  | _, _, _, .arrNil h h' => .arrNil (skipWs_append h w) (skipWs_append h' w)
  | _, _, _, .arr h he => .arr (skipWs_append h w) (he.append hw)
  | _, _, _, .objNil h h' => .objNil (skipWs_append h w) (skipWs_append h' w)
  | _, _, _, .obj h hm => .obj (skipWs_append h w) (hm.append hw)

theorem Elems.append {w : List Char} (hw : Ends w) : ∀ {t r : List Char} {vs : List Json},
    Elems t vs r → Elems (t ++ w) vs (r ++ w)
  | _, _, _, .last hv h => .last (hv.append hw) (skipWs_append h w)
  | _, _, _, .cons hv h he => .cons (hv.append hw) (skipWs_append h w) (he.append hw)

theorem Members.append {w : List Char} (hw : Ends w) : ∀ {t r : List Char}
    {ms : List (List Char × Json)}, Members t ms r → Members (t ++ w) ms (r ++ w)
  | _, _, _, .last hk hb hc hv h =>
      .last (skipWs_append hk w) (hb.append w) (skipWs_append hc w) (hv.append hw) (skipWs_append h w)
  | _, _, _, .cons hk hb hc hv h hm =>
      .cons (skipWs_append hk w) (hb.append w) (skipWs_append hc w) (hv.append hw) (skipWs_append h w)
        (hm.append hw)
end

/-- White space after a text does not matter. -/
theorem parse_append_ws {t w : List Char} {v : Json} (h : parse t = some v)
    (hw : ∀ c ∈ w, isWs c = true) : parse (t ++ w) = some v := by
  obtain ⟨r, hv, hr⟩ := parse_iff.mp h
  have hends : Ends w := by
    rintro c w' rfl
    by_contra hc
    rw [Bool.not_eq_false] at hc
    have hspace := hw c List.mem_cons_self
    rw [isWs_of_isNumChar hc] at hspace
    exact Bool.noConfusion hspace
  refine parse_iff.mpr ⟨r ++ w, hv.append hends, ?_⟩
  rw [skipWs, List.dropWhile_append, show r.dropWhile isWs = [] from hr]
  exact List.dropWhile_eq_nil_iff.mpr hw

/-! ## Printed texts -/

theorem hex4_hexDigit : ∀ n : Nat, n < 0x20 →
    hex4 '0' '0' (hexDigit (n / 16)) (hexDigit (n % 16)) = some n := by
  decide

/-- The printed characters of a string stand for its code points. -/
theorem body_print (r : List Char) : ∀ (s : List Char),
    Body (s.flatMap printChar ++ '"' :: r) (s.map Char.toNat) r
  | [] => .close
  | c :: s => by
      have ih := body_print r s
      rw [List.flatMap_cons, List.append_assoc, List.map_cons, printChar]
      split
      · next h => subst h; exact .escape (e := '"') (x := '"') (by decide) ih
      · split
        · next h => subst h; exact .escape (e := '\\') (x := '\\') (by decide) ih
        · split
          · next h => exact .hex (hex4_hexDigit _ h) ih
          · exact .char ‹_› ‹_› (by omega) ih

theorem isHigh_toNat (c : Char) : isHigh c.toNat = false := by
  have h : c.toNat.isValidChar := c.valid
  simp only [isHigh, Bool.and_eq_false_iff, decide_eq_false_iff_not]
  rcases h with h | h <;> omega

/-- The code points of characters hold no pair to join. -/
theorem fuse_map_toNat : ∀ (s : List Char), fuse (s.map Char.toNat) = s
  | [] => rfl
  | [c] => by rw [List.map_cons, List.map_nil, fuse, unitChar_toNat]
  | c :: c' :: s => by
      have ih := fuse_map_toNat (c' :: s)
      rw [List.map_cons, List.map_cons, fuse, isHigh_toNat]
      simp only [Bool.false_and, Bool.false_eq_true, if_false, unitChar_toNat]
      rw [← List.map_cons, ih]

mutual
/-- Every number of the value is a numeral. -/
def Numerals : Json → Prop
  | .null | .bool _ | .str _ => True
  | .num lit => isNumeral lit = true
  | .arr vs => NumeralsElems vs
  | .obj ms => NumeralsMembers ms
def NumeralsElems : List Json → Prop
  | [] => True
  | v :: vs => Numerals v ∧ NumeralsElems vs
def NumeralsMembers : List (List Char × Json) → Prop
  | [] => True
  | (_, v) :: ms => Numerals v ∧ NumeralsMembers ms
end

theorem numeralsElems_iff (vs : List Json) : NumeralsElems vs ↔ ∀ v ∈ vs, Numerals v := by
  induction vs with
  | nil => exact ⟨fun _ => nofun, fun _ => trivial⟩
  | cons v vs ih => rw [NumeralsElems, ih, List.forall_mem_cons]

theorem numeralsMembers_iff (ms : List (List Char × Json)) :
    NumeralsMembers ms ↔ ∀ m ∈ ms, Numerals m.2 := by
  induction ms with
  | nil => exact ⟨fun _ => nofun, fun _ => trivial⟩
  | cons m ms ih => rw [NumeralsMembers, ih, List.forall_mem_cons]

theorem skipWs_printString (s r : List Char) :
    skipWs (printString s ++ r) = '"' :: (s.flatMap printChar ++ '"' :: r) := by
  rw [printString, List.cons_append, List.cons_append, List.append_assoc]
  exact skipWs_cons_of_not (by decide) _

mutual
theorem val_print : ∀ (v : Json), Numerals v → ∀ {r : List Char}, Ends r →
    Val (print v ++ r) v r
  | .null, _, r, _ => .null (skipWs_cons_of_not (by decide) _)
  | .bool true, _, r, _ => .true (skipWs_cons_of_not (by decide) _)
  | .bool false, _, r, _ => .false (skipWs_cons_of_not (by decide) _)
  | .num lit, h, r, hr => .num (by
      rw [Numerals] at h
      rw [print, skipWs_numeral h, parseNumber_numeral h hr])
  | .str s, _, r, _ => by
      have hb := Val.str (skipWs_printString s r) (body_print r s)
      rwa [fuse_map_toNat] at hb
  | .arr vs, h, r, _ => by
      have hs := skipWs_cons_of_not (c := '[') (by decide) (printElems vs ++ r)
      rw [print, List.cons_append]
      by_cases hvs : vs = []
      · subst hvs
        exact .arrNil hs (skipWs_cons_of_not (by decide) _)
      · exact .arr hs (elems_print vs hvs h)
  | .obj ms, h, r, _ => by
      have hs := skipWs_cons_of_not (c := '{') (by decide) (printMembers ms ++ r)
      rw [print, List.cons_append]
      by_cases hms : ms = []
      · subst hms
        exact .objNil hs (skipWs_cons_of_not (by decide) _)
      · exact .obj hs (members_print ms hms h)
theorem elems_print : ∀ (vs : List Json), vs ≠ [] → NumeralsElems vs →
    ∀ {r : List Char}, Elems (printElems vs ++ r) vs r
  | [], hne, _, _ => absurd rfl hne
  | [v], _, h, r => by
      rw [printElems, List.append_assoc]
      exact .last (val_print v h.1 (ends_cons (by decide))) (skipWs_cons_of_not (by decide) _)
  | v :: w :: vs, _, h, r => by
      have hw := elems_print (w :: vs) (by nofun) h.2 (r := r)
      rw [printElems, List.append_assoc]
      · exact .cons (val_print v h.1 (ends_cons (by decide)))
          (skipWs_cons_of_not (by decide) _) hw
      · nofun
theorem members_print : ∀ (ms : List (List Char × Json)), ms ≠ [] → NumeralsMembers ms →
    ∀ {r : List Char}, Members (printMembers ms ++ r) ms r
  | [], hne, _, _ => absurd rfl hne
  | [(k, v)], _, h, r => by
      have hv := val_print v h.1 (r := '}' :: r) (ends_cons (by decide))
      have hm := Members.last (skipWs_printString k _) (body_print _ k)
        (skipWs_cons_of_not (by decide) _) hv (skipWs_cons_of_not (by decide) _)
      rw [fuse_map_toNat] at hm
      simpa [printMembers] using hm
  | (k, v) :: (k', v') :: ms, _, h, r => by
      have hw := members_print ((k', v') :: ms) (by nofun) h.2 (r := r)
      have hv := val_print v h.1 (r := ',' :: (printMembers ((k', v') :: ms) ++ r))
        (ends_cons (by decide))
      have hm := Members.cons (skipWs_printString k _) (body_print _ k)
        (skipWs_cons_of_not (by decide) _) hv (skipWs_cons_of_not (by decide) _) hw
      rw [fuse_map_toNat] at hm
      simpa [printMembers] using hm
end

/-- **What is written is read back**, with any whitespace after it. -/
theorem parse_print {v : Json} (h : Numerals v) {w : List Char} (hw : ∀ c ∈ w, isWs c = true) :
    parse (print v ++ w) = some v := by
  have hsk : skipWs w = [] := List.dropWhile_eq_nil_iff.mpr hw
  refine parse_iff.mpr ⟨w, val_print v h ?_, hsk⟩
  rintro c r rfl
  have hc := hw c List.mem_cons_self
  by_contra hn
  rw [isWs_of_isNumChar (by simpa using hn)] at hc
  exact nomatch hc

/-! ## Strings written without escaping -/

/-- The text can stand between quotation marks as it is. -/
def Clean (s : List Char) : Prop := ∀ c ∈ s, isSpecial c = false

instance decClean (s : List Char) : Decidable (Clean s) :=
  inferInstanceAs (Decidable (∀ c ∈ s, isSpecial c = false))

theorem Clean.body {r : List Char} : ∀ {s : List Char}, Clean s →
    Body (s ++ '"' :: r) (s.map Char.toNat) r
  | [], _ => .close
  | c :: s, h => by
      have hc := h c List.mem_cons_self
      simp only [isSpecial, Bool.or_eq_false_iff, decide_eq_false_iff_not] at hc
      obtain ⟨⟨h₁, h₂⟩, h₃⟩ := hc
      exact .char h₁ h₂ (by omega) (Clean.body fun x hx => h x (List.mem_cons_of_mem _ hx))

theorem Clean.val {s r : List Char} (h : Clean s) : Val ('"' :: (s ++ '"' :: r)) (.str s) r := by
  have hv := Val.str (skipWs_cons_of_not (by decide) _) (h.body (r := r))
  rwa [fuse_map_toNat] at hv

/-- The last member of an object, its name unescaped. -/
theorem Clean.last {k t w r : List Char} {v : Json} (h : Clean k)
    (hw : skipWs w = '"' :: (k ++ '"' :: ':' :: t)) (hv : Val t v ('}' :: r)) :
    Members w [(k, v)] r := by
  have hm := Members.last hw h.body (skipWs_cons_of_not (by decide) _) hv
    (skipWs_cons_of_not (by decide) _)
  rwa [fuse_map_toNat] at hm

/-- A member before others, its name unescaped. -/
theorem Clean.cons {k t t' w r : List Char} {v : Json} {ms : List (List Char × Json)}
    (h : Clean k) (hw : skipWs w = '"' :: (k ++ '"' :: ':' :: t)) (hv : Val t v (',' :: t'))
    (hms : Members t' ms r) : Members w ((k, v) :: ms) r := by
  have hm := Members.cons hw h.body (skipWs_cons_of_not (by decide) _) hv
    (skipWs_cons_of_not (by decide) _) hms
  rwa [fuse_map_toNat] at hm

/-- A string weighs its characters and one more for each that needs escaping. -/
theorem textWeight_eq : ∀ (s : List Char), textWeight s = visible s + s.countP isSpecial
  | [] => rfl
  | c :: s => by
      have ih := textWeight_eq s
      rw [textWeight] at ih
      rw [textWeight, List.map_cons, List.sum_cons, ih, visible_cons, List.countP_cons, charWeight]
      by_cases hc : isSpecial c = true
      · have hsp : c ≠ ' ' := by rintro rfl; exact absurd hc (by decide)
        simp only [hc, hsp, if_true, if_false]
        omega
      · simp only [hc, if_false, Bool.false_eq_true]
        omega

theorem clean_iff_countP {s : List Char} : Clean s ↔ s.countP isSpecial = 0 := by
  simp [Clean, List.countP_eq_zero]

theorem weightMembers_eq : ∀ (ms : List (List Char × Json)),
    weightMembers ms = (ms.map fun m => 2 + textWeight m.1 + 1 + weight m.2 + 1).sum
  | [] => rfl
  | (k, v) :: ms => by
      rw [weightMembers, List.map_cons, List.sum_cons, weightMembers_eq ms]

theorem lookup_mem {k : List Char} {v : Json} {ms : List (List Char × Json)}
    (h : lookup k ms = some v) : (k, v) ∈ ms := by
  obtain ⟨m, hm, rfl⟩ := Option.map_eq_some_iff.mp h
  have hk := List.find?_some hm
  have hmem := List.mem_of_find?_eq_some hm
  rw [List.mem_reverse] at hmem
  rw [← of_decide_eq_true hk]
  exact hmem

theorem lookup_eq_none {k : List Char} {ms : List (List Char × Json)}
    (h : k ∉ ms.map Prod.fst) : lookup k ms = none := by
  cases hl : lookup k ms with
  | none => rfl
  | some v => exact absurd (List.mem_map_of_mem (lookup_mem hl)) h

/-- Under distinct names every member is found. -/
theorem lookup_of_mem {k : List Char} {v : Json} {ms : List (List Char × Json)}
    (hnd : (ms.map Prod.fst).Nodup) (h : (k, v) ∈ ms) : lookup k ms = some v := by
  cases hl : lookup k ms with
  | none =>
      obtain ⟨m, hm, hk⟩ : ∃ m ∈ ms.reverse, m.1 = k := ⟨(k, v), List.mem_reverse.mpr h, rfl⟩
      have hnone := List.find?_eq_none.mp (Option.map_eq_none_iff.mp hl) m hm
      exact absurd (decide_eq_true hk) hnone
  | some w =>
      have heq := List.inj_on_of_nodup_map hnd (lookup_mem hl) h rfl
      exact congrArg (fun m => some m.2) heq

/-- An object that has, under distinct names, values at least as heavy as
those of `ps` is at least as heavy as `ps`. -/
theorem weight_obj_le {ps ms : List (List Char × Json)} (hnd : (ps.map Prod.fst).Nodup)
    (h : ∀ p ∈ ps, ∃ v, lookup p.1 ms = some v ∧ weight p.2 ≤ weight v) :
    weight (.obj ps) ≤ weight (.obj ms) := by
  have hsum : ∀ (ps : List (List Char × Json)),
      (∀ p ∈ ps, ∃ v, lookup p.1 ms = some v ∧ weight p.2 ≤ weight v) →
      ∃ qs : List (List Char × Json), qs.map Prod.fst = ps.map Prod.fst ∧ (∀ q ∈ qs, q ∈ ms) ∧
        weightMembers ps ≤ weightMembers qs := by
    intro ps
    induction ps with
    | nil => exact fun _ => ⟨[], rfl, nofun, Nat.le_refl _⟩
    | cons p ps ih =>
        intro h
        obtain ⟨k, w⟩ := p
        obtain ⟨v, hv, hle : weight w ≤ weight v⟩ := h (k, w) List.mem_cons_self
        obtain ⟨qs, hk, hmem, hw⟩ := ih fun q hq => h q (List.mem_cons_of_mem _ hq)
        refine ⟨(k, v) :: qs, by simp [hk], ?_, ?_⟩
        · rintro q hq
          rcases List.mem_cons.mp hq with rfl | hq
          · exact lookup_mem hv
          · exact hmem q hq
        · simp only [weightMembers]
          omega
  obtain ⟨qs, hk, hmem, hw⟩ := hsum ps h
  have hqs : qs.Nodup := List.Nodup.of_map Prod.fst (by rwa [hk])
  obtain ⟨l, hperm, hsub⟩ := hqs.subperm hmem
  have hle : weightMembers qs ≤ weightMembers ms := by
    rw [weightMembers_eq, weightMembers_eq, ← (hperm.map _).sum_eq]
    exact (hsub.map _).sum_le_sum fun _ _ => Nat.zero_le _
  simp only [weight]
  omega

end Rfc8259
