/-
# `WebTech.Lib.Recoding` — a JSON text that is written and read in two charsets

A text may be written in one charset and read in another.  Character by
character it then becomes another text: ASCII characters stay, a character the
writer does not have becomes `?`, and a byte from 128 on may be read as another
character than it was written for.

    the strings of a JSON text are changed and nothing else      (`print_recode`)
    a member is found under an ASCII name as before              (`getPath_recode`)
-/
import WebTech.Lib.Ecma

namespace Rfc8259

/-- What comes of each character. -/
structure Recoding where
  char : Char → Char
  ascii : ∀ c, c.toNat < 128 → char c = c
  image : ∀ c, char c = c ∨ char c = '?' ∨ 128 ≤ (char c).toNat

/-- Written in ISO-8859-1, and read as it was written. -/
def Recoding.latin1 : Recoding where
  char c := if c.toNat < 256 then c else '?'
  ascii c h := if_pos (by omega)
  image c := by
    split
    · exact .inl rfl
    · exact .inr (.inl rfl)

namespace Recoding
variable (ρ : Recoding)

/-- Only itself becomes an ASCII character other than `?`. -/
theorem eq_of_char {c d : Char} (hd : d.toNat < 128) (hq : d ≠ '?') (h : ρ.char c = d) : c = d := by
  rcases ρ.image c with hself | hmark | hge
  · exact hself.symm.trans h
  · exact absurd (h.symm.trans hmark) hq
  · rw [h] at hge
    omega

/-- An ASCII text without `?`, such as a member's name. -/
def IsName (k : List Char) : Prop := ∀ c ∈ k, c.toNat < 128 ∧ c ≠ '?'

instance decIsName (k : List Char) : Decidable (IsName k) :=
  inferInstanceAs (Decidable (∀ c ∈ k, _))

theorem map_of_ascii {s : List Char} (h : ∀ c ∈ s, c.toNat < 128) : s.map ρ.char = s :=
  (List.map_congr_left fun c hc => ρ.ascii c (h c hc)).trans (List.map_id s)

/-- A text arrives when all its characters do. -/
theorem map_eq_self_iff (s : List Char) : s.map ρ.char = s ↔ ∀ c ∈ s, ρ.char c = c := by
  have hid : s.map ρ.char = s.map id ↔ ∀ c ∈ s, ρ.char c = c := List.map_inj_left
  rwa [List.map_id] at hid

theorem map_eq_name_iff {k : List Char} (hk : IsName k) (s : List Char) :
    s.map ρ.char = k ↔ s = k := by
  constructor
  · rintro rfl
    rw [map_of_ascii ρ]
    rintro c hc
    have hname := hk (ρ.char c) (List.mem_map_of_mem hc)
    have := ρ.eq_of_char hname.1 hname.2 rfl
    rw [this]
    exact hname.1
  · rintro rfl
    exact map_of_ascii ρ fun c hc => (hk c hc).1

end Recoding

section Recode
variable (ρ : Recoding)

mutual
/-- The value whose strings and names are changed. -/
def recode : Json → Json
  | .null => .null
  | .bool b => .bool b
  | .num lit => .num lit
  | .str s => .str (s.map ρ.char)
  | .arr vs => .arr (recodeElems vs)
  | .obj ms => .obj (recodeMembers ms)
def recodeElems : List Json → List Json
  | [] => []
  | v :: vs => recode v :: recodeElems vs
def recodeMembers : List (List Char × Json) → List (List Char × Json)
  | [] => []
  | (k, v) :: ms => (k.map ρ.char, recode v) :: recodeMembers ms
end

theorem recodeElems_eq : ∀ vs : List Json, recodeElems ρ vs = vs.map (recode ρ)
  | [] => rfl
  | v :: vs => by rw [recodeElems, recodeElems_eq vs, List.map_cons]

theorem recodeMembers_eq : ∀ ms : List (List Char × Json),
    recodeMembers ρ ms = ms.map fun m => (m.1.map ρ.char, recode ρ m.2)
  | [] => rfl
  | (k, v) :: ms => by rw [recodeMembers, recodeMembers_eq ms, List.map_cons]

/-! ## What is written -/

theorem isNumChar_ascii {c : Char} (h : isNumChar c = true) : c.toNat < 128 := by
  have hdigit : ∀ {c : Char}, c.isDigit = true → c.toNat < 128 := by
    intro c hc
    obtain ⟨n, hn, rfl⟩ := Decimals.eq_digitChar hc
    have : ∀ k < 10, (Nat.digitChar k).toNat < 128 := by decide
    exact this n hn
  simp only [isNumChar, Bool.or_eq_true, decide_eq_true_eq] at h
  rcases h with ((((h | rfl) | rfl) | rfl) | rfl) | rfl
  · exact hdigit h
  all_goals decide

/-- An ASCII character is printed in ASCII. -/
theorem printChar_ascii {c : Char} (hc : c.toNat < 128) : ∀ d ∈ printChar c, d.toNat < 128 := by
  intro d hd
  rw [printChar] at hd
  split at hd
  · rcases List.mem_cons.mp hd with rfl | hd
    · decide
    · rw [List.mem_singleton.mp hd]
      decide
  · split at hd
    · rcases List.mem_cons.mp hd with rfl | hd
      · decide
      · rw [List.mem_singleton.mp hd]
        decide
    · split at hd
      · next hlow =>
          have hhex : ∀ n < 16, (hexDigit n).toNat < 128 := by decide
          have hlo := hhex (c.toNat % 16) (Nat.mod_lt _ (by decide))
          have hhi := hhex (c.toNat / 16) (by omega)
          simp only [List.mem_cons, List.not_mem_nil, or_false] at hd
          rcases hd with rfl | rfl | rfl | rfl | rfl | rfl
          · decide
          · decide
          · decide
          · decide
          · exact hhi
          · exact hlo
      · rw [List.mem_singleton.mp hd]
        exact hc

/-- Any other character is printed as itself. -/
theorem printChar_of_ge {c : Char} (hc : 128 ≤ c.toNat) : printChar c = [c] := by
  have hne : ∀ d : Char, d.toNat < 128 → c ≠ d := by
    rintro d hd rfl
    omega
  rw [printChar, if_neg (hne _ (by decide)), if_neg (hne _ (by decide)), if_neg (by omega)]

theorem printChar_recode (c : Char) : printChar (ρ.char c) = (printChar c).map ρ.char := by
  by_cases hc : c.toNat < 128
  · rw [ρ.ascii c hc, ρ.map_of_ascii (printChar_ascii hc)]
  · have hself : printChar c = [c] := printChar_of_ge (by omega)
    rw [hself, List.map_singleton]
    rcases ρ.image c with hsame | hmark | hge
    · rw [hsame, hself]
    · rw [hmark]
      rfl
    · exact printChar_of_ge hge

theorem printString_recode (s : List Char) :
    printString (s.map ρ.char) = (printString s).map ρ.char := by
  have hchars : (s.map ρ.char).flatMap printChar = (s.flatMap printChar).map ρ.char := by
    rw [List.flatMap_map, List.map_flatMap]
    exact List.flatMap_congr fun c _ => printChar_recode ρ c
  have hquote : ρ.char '"' = '"' := ρ.ascii _ (by decide)
  rw [printString, printString, hchars, List.map_append, List.map_cons, List.map_singleton, hquote]

theorem printElems_cons (v w : Json) (vs : List Json) :
    printElems (v :: w :: vs) = print v ++ ',' :: printElems (w :: vs) := by
  rw [printElems]
  exact List.cons_ne_nil _ _

theorem printMembers_cons (k : List Char) (v : Json) (m : List Char × Json)
    (ms : List (List Char × Json)) : printMembers ((k, v) :: m :: ms) =
      printString k ++ ':' :: print v ++ ',' :: printMembers (m :: ms) := by
  rw [printMembers]
  exact List.cons_ne_nil _ _

mutual
/-- **The text of the changed value** is the changed text. -/
theorem print_recode : ∀ (v : Json), Numerals v → print (recode ρ v) = (print v).map ρ.char
  | .null, _ => (ρ.map_of_ascii (s := "null".toList) (by decide)).symm
  | .bool true, _ => (ρ.map_of_ascii (s := "true".toList) (by decide)).symm
  | .bool false, _ => (ρ.map_of_ascii (s := "false".toList) (by decide)).symm
  | .num lit, h => by
      have hlit : lit.all isNumChar = true := (Bool.and_eq_true_iff.mp h).2
      exact (ρ.map_of_ascii fun c hc => isNumChar_ascii (List.all_eq_true.mp hlit c hc)).symm
  | .str s, _ => printString_recode ρ s
  | .arr vs, h => by
      have hopen : ρ.char '[' = '[' := ρ.ascii _ (by decide)
      rw [recode, print, print, printElems_recode vs h, List.map_cons, hopen]
  | .obj ms, h => by
      have hopen : ρ.char '{' = '{' := ρ.ascii _ (by decide)
      rw [recode, print, print, printMembers_recode ms h, List.map_cons, hopen]
theorem printElems_recode : ∀ (vs : List Json), NumeralsElems vs →
    printElems (recodeElems ρ vs) = (printElems vs).map ρ.char
  | [], _ => (ρ.map_of_ascii (s := [']']) (by decide)).symm
  | [v], h => by
      have hclose : ρ.char ']' = ']' := ρ.ascii _ (by decide)
      rw [recodeElems, recodeElems, printElems, printElems, print_recode v h.1, List.map_append,
        List.map_singleton, hclose]
  | v :: w :: vs, h => by
      have hcomma : ρ.char ',' = ',' := ρ.ascii _ (by decide)
      have hrest := printElems_recode (w :: vs) h.2
      rw [recodeElems] at hrest
      rw [recodeElems, recodeElems, printElems_cons, printElems_cons, print_recode v h.1, hrest,
        List.map_append, List.map_cons, hcomma]
theorem printMembers_recode : ∀ (ms : List (List Char × Json)), NumeralsMembers ms →
    printMembers (recodeMembers ρ ms) = (printMembers ms).map ρ.char
  | [], _ => (ρ.map_of_ascii (s := ['}']) (by decide)).symm
  | [(k, v)], h => by
      have hclose : ρ.char '}' = '}' := ρ.ascii _ (by decide)
      have hcolon : ρ.char ':' = ':' := ρ.ascii _ (by decide)
      rw [recodeMembers, recodeMembers, printMembers, printMembers, print_recode v h.1,
        printString_recode]
      simp only [List.map_append, List.map_cons, List.map_nil, hclose, hcolon]
  | (k, v) :: (k', w) :: ms, h => by
      have hcomma : ρ.char ',' = ',' := ρ.ascii _ (by decide)
      have hcolon : ρ.char ':' = ':' := ρ.ascii _ (by decide)
      have hrest := printMembers_recode ((k', w) :: ms) h.2
      rw [recodeMembers] at hrest
      rw [recodeMembers, recodeMembers, printMembers_cons, printMembers_cons, print_recode v h.1,
        printString_recode, hrest]
      simp only [List.map_append, List.map_cons, hcomma, hcolon]
end

mutual
theorem numerals_recode : ∀ (v : Json), Numerals v → Numerals (recode ρ v)
  | .null, _ | .bool _, _ | .str _, _ => trivial
  | .num _, h => h
  | .arr vs, h => numeralsElems_recode vs h
  | .obj ms, h => numeralsMembers_recode ms h
theorem numeralsElems_recode : ∀ (vs : List Json), NumeralsElems vs →
    NumeralsElems (recodeElems ρ vs)
  | [], _ => trivial
  | v :: vs, h => ⟨numerals_recode v h.1, numeralsElems_recode vs h.2⟩
theorem numeralsMembers_recode : ∀ (ms : List (List Char × Json)), NumeralsMembers ms →
    NumeralsMembers (recodeMembers ρ ms)
  | [], _ => trivial
  | (_, v) :: ms, h => ⟨numerals_recode v h.1, numeralsMembers_recode ms h.2⟩
end

/-- **A changed text** is read as the changed value. -/
theorem parse_recode {v : Json} (h : Numerals v) {w : List Char} (hw : ∀ c ∈ w, isWs c = true) :
    parse ((print v ++ w).map ρ.char) = some (recode ρ v) := by
  have hascii : ∀ c ∈ w, c.toNat < 128 := by
    intro c hc
    have hws := hw c hc
    simp only [isWs, Bool.or_eq_true, decide_eq_true_eq] at hws
    rcases hws with ((rfl | rfl) | rfl) | rfl <;> decide
  rw [List.map_append, ← print_recode ρ v h, ρ.map_of_ascii hascii]
  exact parse_print (numerals_recode ρ v h) hw

/-! ## Where a name leads -/

theorem lookup_recode {k : List Char} (hk : Recoding.IsName k) (ms : List (List Char × Json)) :
    lookup k (recodeMembers ρ ms) = (lookup k ms).map (recode ρ) := by
  have hfind : ∀ ms : List (List Char × Json),
      (ms.map fun m => (m.1.map ρ.char, recode ρ m.2)).find? (fun m => m.1 = k) =
        (ms.find? fun m => m.1 = k).map fun m => (m.1.map ρ.char, recode ρ m.2) := by
    intro ms
    rw [List.find?_map]
    congr 2
    funext m
    exact decide_eq_decide.mpr (ρ.map_eq_name_iff hk m.1)
  rw [lookup, lookup, recodeMembers_eq, ← List.map_reverse, hfind, Option.map_map, Option.map_map]
  rfl

/-- A name that only objects have. -/
def IsMember (k : String) : Prop := Recoding.IsName k.toList ∧ k ≠ "length"

instance decIsMember (k : String) : Decidable (IsMember k) := inferInstanceAs (Decidable (_ ∧ _))

/-- **A member of the changed value** is the changed member. -/
theorem getProp_recode {k : String} (hk : IsMember k) (v : Ecma.Value) :
    Ecma.getProp (v.map (recode ρ)) k = (Ecma.getProp v k).map (Option.map (recode ρ)) := by
  cases v with
  | none => rfl
  | some v =>
      cases v with
      | null | bool _ | num _ => rfl
      | str s =>
          show some (if k = "length" then _ else none) = (some (if k = "length" then _ else none)).map _
          rw [if_neg hk.2, if_neg hk.2]
          rfl
      | arr vs =>
          show some (if k = "length" then _ else none) = (some (if k = "length" then _ else none)).map _
          rw [if_neg hk.2, if_neg hk.2]
          rfl
      | obj ms => exact congrArg some (lookup_recode ρ hk.1 ms)

theorem getPath_recode {ks : List String} (hks : ∀ k ∈ ks, IsMember k) (v : Ecma.Value) :
    Ecma.getPath (v.map (recode ρ)) ks = (Ecma.getPath v ks).map (Option.map (recode ρ)) := by
  induction ks generalizing v with
  | nil => rfl
  | cons k ks ih =>
      obtain ⟨hk, hks⟩ := List.forall_mem_cons.mp hks
      rw [Ecma.getPath, Ecma.getPath, getProp_recode ρ hk]
      cases Ecma.getProp v k with
      | none => rfl
      | some w => exact ih hks w

end Recode

end Rfc8259
