/-
# `WebTech.Lib.CharRef` — character references of HTML

`&` and a name of a fixed table, or `&#` and a number, stand for characters.
The table is a parameter: its names are letters and digits, perhaps with a
semicolon at the end, and none is shorter than what it stands for.

    decoding does not lengthen a text                          (`length_decode_le`)
    decoding that keeps the length changes nothing             (`decode_eq_self`)
    a reference ends before a character of no name or number   (`decode_append`)
    an escaped `&` becomes `&`, and is not read again          (`decode_amp`)

A run of text is decoded on its own.  A tokenizer decodes while it reads; the
characters of a reference are none that end a text or an attribute value, so
the two come to the same.
-/
import WebTech.Lib.Chars

namespace Html

/-- The table of named references. -/
structure Entities where
  lookup : List Char → Option (List Char)
  name : ∀ n d, lookup n = some d → ∀ c ∈ n, c.isAlphanum = true ∨ c = ';'
  shorter : ∀ n d, lookup n = some d → d.length ≤ n.length

/-- The longest name that a text begins with, `pre` read so far. -/
def Entities.longest (E : Entities) (pre : List Char) : List Char → Option (List Char × List Char)
  | [] => (E.lookup pre).map fun d => (pre, d)
  | c :: s => (E.longest (pre ++ [c]) s).or ((E.lookup pre).map fun d => (pre, d))

/-- The references that XML has too. -/
def basicTable : List (List Char × List Char) :=
  [("amp;".toList, ['&']), ("amp".toList, ['&']), ("lt;".toList, ['<']), ("lt".toList, ['<']),
    ("gt;".toList, ['>']), ("gt".toList, ['>']), ("quot;".toList, ['"']), ("quot".toList, ['"']),
    ("apos;".toList, ['\''])]

/-- A small table. -/
def Entities.basic : Entities where
  lookup n := (basicTable.find? fun p => p.1 = n).map Prod.snd
  name n d h := by
    obtain ⟨p, hp, rfl⟩ := Option.map_eq_some_iff.mp h
    have hn : p.1 = n := by simpa using List.find?_some hp
    have hall : ∀ p ∈ basicTable, ∀ c ∈ p.1, c.isAlphanum = true ∨ c = ';' := by decide
    exact hn ▸ hall p (List.mem_of_find?_eq_some hp)
  shorter n d h := by
    obtain ⟨p, hp, rfl⟩ := Option.map_eq_some_iff.mp h
    have hn : p.1 = n := by simpa using List.find?_some hp
    have hall : ∀ p ∈ basicTable, p.2.length ≤ p.1.length := by decide
    exact hn ▸ hall p (List.mem_of_find?_eq_some hp)

/-! ## Numbers -/

def isHexDigit (c : Char) : Bool :=
  c.isDigit || ('a' ≤ c && c ≤ 'f') || ('A' ≤ c && c ≤ 'F')

def hexValue (c : Char) : Nat :=
  if c.isDigit then c.toNat - 48 else if c ≤ 'F' then c.toNat - 55 else c.toNat - 87

/-- The codes from 128 to 159 are read in windows-1252. -/
def windows1252 : List Nat :=
  [0x20ac, 0x81, 0x201a, 0x192, 0x201e, 0x2026, 0x2020, 0x2021, 0x2c6, 0x2030, 0x160, 0x2039, 0x152,
    0x8d, 0x17d, 0x8f, 0x90, 0x2018, 0x2019, 0x201c, 0x201d, 0x2022, 0x2013, 0x2014, 0x2dc, 0x2122,
    0x161, 0x203a, 0x153, 0x9d, 0x17e, 0x178]

/-- The character of a code. -/
def codeChar (n : Nat) : Char :=
  if n = 0 ∨ 0x10ffff < n ∨ (0xd800 ≤ n ∧ n ≤ 0xdfff) then '\ufffd'
  else if 0x80 ≤ n ∧ n ≤ 0x9f then Char.ofNat (windows1252.getD (n - 0x80) n)
  else Char.ofNat n

/-- Digits and perhaps a semicolon: the number and the characters it takes. -/
def digits (isDigit : Char → Bool) (base : Nat) (s : List Char) : Option (Char × Nat) :=
  let ds := s.takeWhile isDigit
  if ds = [] then none
  else
    let n := ds.foldl (fun n c => base * n + hexValue c) 0
    some (codeChar n, ds.length + if (s.drop ds.length).head? = some ';' then 1 else 0)

/-- A number after `&#`. -/
def numeric : List Char → Option (Char × Nat)
  | c :: s =>
      if c = 'x' ∨ c = 'X' then (digits isHexDigit 16 s).map fun p => (p.1, p.2 + 1)
      else digits Char.isDigit 10 (c :: s)
  | [] => none

/-! ## References -/

/-- What keeps a name without a semicolon from being read in an attribute. -/
def continuesName : List Char → Bool
  | c :: _ => c = '=' || c.isAlphanum
  | [] => false

/-- The reference after an `&`: its characters, and how many it takes. -/
def reference (E : Entities) (attr : Bool) : List Char → Option (List Char × Nat)
  | '#' :: s => (numeric s).map fun p => ([p.1], p.2 + 1)
  | s =>
      (E.longest [] s).bind fun p =>
        if attr && p.1.getLast? ≠ some ';' && continuesName (s.drop p.1.length) then none
        else some (p.2, p.1.length)

/-- Decoding, the first `n` characters being read already. -/
def decodeFrom (E : Entities) (attr : Bool) : Nat → List Char → List Char
  | _, [] => []
  | n + 1, _ :: s => decodeFrom E attr n s
  | 0, c :: s =>
      if c = '&' then
        match reference E attr s with
        | some (out, n) => out ++ decodeFrom E attr n s
        | none => c :: decodeFrom E attr 0 s
      else c :: decodeFrom E attr 0 s

/-- A text with its references decoded. -/
def decode (E : Entities) (attr : Bool) (s : List Char) : List Char := decodeFrom E attr 0 s

section Lemmas
variable (E : Entities) (attr : Bool)

theorem longest_le : ∀ (s pre : List Char) (n d : List Char), E.longest pre s = some (n, d) →
    d.length ≤ n.length ∧ n.length ≤ pre.length + s.length
  | [], pre, n, d, h => by
      obtain ⟨d', hd, heq⟩ := Option.map_eq_some_iff.mp h
      cases heq
      exact ⟨E.shorter _ _ hd, Nat.le_refl _⟩
  | c :: s, pre, n, d, h => by
      rw [Entities.longest, Option.or_eq_some_iff] at h
      rcases h with h | ⟨-, h⟩
      · have := longest_le s (pre ++ [c]) n d h
        rw [List.length_append] at this
        simp only [List.length_cons, List.length_nil] at this ⊢
        exact ⟨this.1, by omega⟩
      · obtain ⟨d', hd, heq⟩ := Option.map_eq_some_iff.mp h
        cases heq
        exact ⟨E.shorter _ _ hd, Nat.le_add_right _ _⟩

theorem digits_le {isDigit : Char → Bool} {base : Nat} {s : List Char} {c : Char} {n : Nat}
    (h : digits isDigit base s = some (c, n)) : 1 ≤ n ∧ n ≤ s.length := by
  rw [digits] at h
  split at h
  · exact nomatch h
  · next hne =>
      cases h
      have hpos := List.length_pos_iff.mpr hne
      have hle : (s.takeWhile isDigit).length ≤ s.length := (List.takeWhile_sublist isDigit).length_le
      refine ⟨by omega, ?_⟩
      split
      · next hsemi =>
          have hlt : 0 < (s.drop (s.takeWhile isDigit).length).length := by
            refine List.length_pos_iff.mpr ?_
            intro hnil
            rw [hnil] at hsemi
            exact nomatch hsemi
          rw [List.length_drop] at hlt
          omega
      · exact hle

/-- A reference takes at least as many characters as it stands for. -/
theorem reference_le {s : List Char} {out : List Char} {n : Nat}
    (h : reference E attr s = some (out, n)) : out.length ≤ n ∧ n ≤ s.length := by
  rw [reference.eq_def] at h
  split at h
  · next s =>
      obtain ⟨⟨c, m⟩, hn, heq⟩ := Option.map_eq_some_iff.mp h
      cases heq
      refine ⟨Nat.le_add_left 1 m, ?_⟩
      cases s with
      | nil => exact nomatch hn
      | cons c s =>
          rw [numeric] at hn
          split at hn
          · obtain ⟨⟨c', m'⟩, hd, heq⟩ := Option.map_eq_some_iff.mp hn
            cases heq
            have := (digits_le hd).2
            simp only [List.length_cons]
            omega
          · have := (digits_le hn).2
            simp only [List.length_cons] at this ⊢
            omega
  · obtain ⟨⟨m, d⟩, hl, hif⟩ := Option.bind_eq_some_iff.mp h
    split at hif
    · exact nomatch hif
    · cases hif
      have := longest_le E s [] m d hl
      rw [List.length_nil, Nat.zero_add] at this
      exact this

theorem length_decodeFrom_le : ∀ (s : List Char) (n : Nat), n ≤ s.length →
    (decodeFrom E attr n s).length + n ≤ s.length
  | [], n, h => by
      rw [decodeFrom]
      exact (Nat.zero_add n).symm ▸ h
  | c :: s, n + 1, h => by
      have := length_decodeFrom_le s n (Nat.le_of_succ_le_succ h)
      rw [decodeFrom, List.length_cons]
      omega
  | c :: s, 0, _ => by
      have hplain : (c :: decodeFrom E attr 0 s).length ≤ (c :: s).length :=
        Nat.succ_le_succ (length_decodeFrom_le s 0 (Nat.zero_le _))
      rw [decodeFrom]
      split
      · split
        · next out n href =>
            obtain ⟨hout, hn⟩ := reference_le E attr href
            have := length_decodeFrom_le s n hn
            rw [List.length_append, List.length_cons]
            omega
        · exact hplain
      · exact hplain

/-- **Decoding does not lengthen a text.** -/
theorem length_decode_le (s : List Char) : (decode E attr s).length ≤ s.length :=
  length_decodeFrom_le E attr s 0 (Nat.zero_le _)

/-- **Decoding that keeps the length changes nothing**: every reference is
shorter decoded than written. -/
theorem decode_eq_self : ∀ {s : List Char}, s.length ≤ (decode E attr s).length →
    decode E attr s = s
  | [], _ => rfl
  | c :: s, h => by
      have hplain : (c :: s).length ≤ (c :: decode E attr s).length →
          c :: decode E attr s = c :: s := fun hle =>
        congrArg (c :: ·) (decode_eq_self (Nat.le_of_succ_le_succ hle))
      rw [decode, decodeFrom] at h ⊢
      split at h
      · next hamp =>
          rw [if_pos hamp]
          split at h
          · next out n href =>
              obtain ⟨hout, hn⟩ := reference_le E attr href
              have := length_decodeFrom_le E attr s n hn
              rw [List.length_append, List.length_cons] at h
              omega
          · exact hplain h
      · next hamp =>
          rw [if_neg hamp]
          exact hplain h

/-! ## Where a reference ends -/

/-- A character of no name and no number. -/
def isBoundary (x : Char) : Bool := !x.isAlphanum && x ≠ ';' && x ≠ '#' && x ≠ '='

variable {x : Char} (hx : isBoundary x = true)
include hx

theorem isBoundary_spec : x.isAlphanum = false ∧ x ≠ ';' ∧ x ≠ '#' ∧ x ≠ '=' := by
  simp only [isBoundary, Bool.and_eq_true, Bool.not_eq_true', decide_eq_true_eq] at hx
  exact ⟨hx.1.1.1, hx.1.1.2, hx.1.2, hx.2⟩

theorem isHexDigit_boundary : isHexDigit x = false := by
  obtain ⟨halnum, -⟩ := isBoundary_spec hx
  by_contra h
  rw [Bool.not_eq_false, isHexDigit, Bool.or_eq_true, Bool.or_eq_true, Bool.and_eq_true,
    Bool.and_eq_true, decide_eq_true_eq, decide_eq_true_eq, decide_eq_true_eq, decide_eq_true_eq] at h
  have hno : ¬ x.isAlphanum = true := by rw [halnum]; decide
  refine hno ?_
  rw [Char.isAlphanum, Bool.or_eq_true]
  rcases h with (h | ⟨hlo, hhi⟩) | ⟨hlo, hhi⟩
  · exact .inr h
  · left
    have hlower : x.isLower = true := by
      show (decide ('a' ≤ x) && decide (x ≤ 'z')) = true
      rw [Bool.and_eq_true, decide_eq_true_eq, decide_eq_true_eq]
      exact ⟨hlo, Char.le_trans hhi (by decide)⟩
    show (x.isUpper || x.isLower) = true
    rw [hlower, Bool.or_true]
  · left
    have hupper : x.isUpper = true := decide_eq_true ⟨hlo, Char.le_trans hhi (by decide)⟩
    show (x.isUpper || x.isLower) = true
    rw [hupper, Bool.true_or]

/-- No name has the character in it. -/
theorem lookup_boundary {pre s : List Char} : E.lookup (pre ++ x :: s) = none := by
  obtain ⟨halnum, hsemi, -⟩ := isBoundary_spec hx
  cases h : E.lookup (pre ++ x :: s) with
  | none => rfl
  | some d =>
      rcases E.name _ _ h x (by simp) with h | h
      · exact nomatch halnum.symm.trans h
      · exact absurd h hsemi

theorem longest_boundary : ∀ (s pre r : List Char), E.longest (pre ++ x :: r) s = none
  | [], pre, r => by
      rw [Entities.longest, lookup_boundary E hx]
      rfl
  | c :: s, pre, r => by
      have := longest_boundary s pre (r ++ [c])
      rw [Entities.longest, List.append_assoc, List.cons_append, this, lookup_boundary E hx]
      rfl

theorem longest_append : ∀ (s pre b : List Char),
    E.longest pre (s ++ x :: b) = E.longest pre s
  | [], pre, b => by
      have hnone : E.longest (pre ++ [x]) b = none := longest_boundary E hx b pre []
      show (E.longest (pre ++ [x]) b).or _ = _
      rw [hnone]
      rfl
  | c :: s, pre, b => by
      rw [List.cons_append, Entities.longest, longest_append s, Entities.longest]

theorem digits_append {isDigit : Char → Bool} (base : Nat) (hd : isDigit x = false)
    (s b : List Char) : digits isDigit base (s ++ x :: b) = digits isDigit base s := by
  obtain ⟨-, hsemi, -⟩ := isBoundary_spec hx
  have htake : (s ++ x :: b).takeWhile isDigit = s.takeWhile isDigit := by
    induction s with
    | nil =>
        have : ¬ isDigit x = true := by rw [hd]; decide
        exact List.takeWhile_cons_of_neg this
    | cons c s ih =>
        rw [List.cons_append, List.takeWhile_cons, List.takeWhile_cons, ih]
  have hle : (s.takeWhile isDigit).length ≤ s.length := (List.takeWhile_sublist isDigit).length_le
  have hhead : ((s ++ x :: b).drop (s.takeWhile isDigit).length).head? = some ';' ↔
      (s.drop (s.takeWhile isDigit).length).head? = some ';' := by
    rw [List.drop_append_of_le_length hle]
    cases s.drop (s.takeWhile isDigit).length with
    | nil =>
        refine iff_of_false ?_ nofun
        rintro ⟨⟩
        exact hsemi rfl
    | cons c r => rfl
  simp only [digits, htake, hhead]

theorem numeric_append (s b : List Char) : numeric (s ++ x :: b) = numeric s := by
  have hhex := isHexDigit_boundary hx
  obtain ⟨halnum, -⟩ := isBoundary_spec hx
  have hdec : x.isDigit = false := by
    rw [Char.isAlphanum, Bool.or_eq_false_iff] at halnum
    exact halnum.2
  cases s with
  | nil =>
      have hxX : ¬ (x = 'x' ∨ x = 'X') := by
        rintro (rfl | rfl) <;> exact absurd halnum (by decide)
      have hnil : digits Char.isDigit 10 (x :: b) = none := digits_append hx 10 hdec [] b
      rw [List.nil_append, numeric, if_neg hxX, hnil]
      rfl
  | cons c s =>
      have hdigits : digits Char.isDigit 10 (c :: (s ++ x :: b)) = digits Char.isDigit 10 (c :: s) :=
        digits_append hx 10 hdec (c :: s) b
      rw [List.cons_append, numeric, numeric, digits_append hx 16 hhex, hdigits]

/-- **A reference ends** before a character of no name or number. -/
theorem reference_append (s b : List Char) :
    reference E attr (s ++ x :: b) = reference E attr s := by
  obtain ⟨halnum, -, hhash, heq⟩ := isBoundary_spec hx
  have hnamed : ∀ s : List Char,
      (E.longest [] (s ++ x :: b)).bind (fun p =>
        if attr && p.1.getLast? ≠ some ';' && continuesName ((s ++ x :: b).drop p.1.length) then none
        else some (p.2, p.1.length)) =
      (E.longest [] s).bind (fun p =>
        if attr && p.1.getLast? ≠ some ';' && continuesName (s.drop p.1.length) then none
        else some (p.2, p.1.length)) := by
    intro s
    rw [longest_append E hx]
    cases h : E.longest [] s with
    | none => rfl
    | some p =>
        have hle : p.1.length ≤ s.length := by
          have := (longest_le E s [] p.1 p.2 h).2
          rwa [List.length_nil, Nat.zero_add] at this
        have hnext : continuesName ((s ++ x :: b).drop p.1.length) =
            continuesName (s.drop p.1.length) := by
          rw [List.drop_append_of_le_length hle]
          cases s.drop p.1.length with
          | nil =>
              rw [List.nil_append, continuesName, continuesName, halnum, decide_eq_false heq]
              rfl
          | cons c r => rfl
        simp only [Option.bind_some, hnext]
  cases s with
  | nil =>
      have hne : ∀ s', x :: b = '#' :: s' → False := by
        rintro s' ⟨⟩
        exact hhash rfl
      rw [List.nil_append, reference, reference]
      · exact hnamed []
      · exact nofun
      · exact hne
  | cons c s =>
      by_cases hc : c = '#'
      · subst hc
        rw [List.cons_append, reference, reference, numeric_append hx]
      · have hne : ∀ r s', c :: r = '#' :: s' → False := by
          rintro r s' ⟨⟩
          exact hc rfl
        rw [reference, reference]
        · exact hnamed (c :: s)
        · exact hne _
        · exact hne _

theorem decodeFrom_append : ∀ (s : List Char) (n : Nat) (b : List Char), n ≤ s.length →
    decodeFrom E attr n (s ++ x :: b) = decodeFrom E attr n s ++ decode E attr (x :: b)
  | [], 0, b, _ => rfl
  | c :: s, n + 1, b, h => by
      rw [List.cons_append, decodeFrom, decodeFrom]
      exact decodeFrom_append s n b (Nat.le_of_succ_le_succ h)
  | c :: s, 0, b, _ => by
      have hplain := decodeFrom_append s 0 b (Nat.zero_le _)
      rw [List.cons_append, decodeFrom, decodeFrom, reference_append E attr hx, hplain]
      split
      · split
        · next out n href =>
            rw [decodeFrom_append s n b (reference_le E attr href).2, List.append_assoc]
        · rfl
      · rfl

/-- **Decoding is done piece by piece** between such characters; an `&` is one of
them, and begins a piece. -/
theorem decode_piece (s b : List Char) :
    decode E attr (s ++ x :: b) = decode E attr s ++ decode E attr (x :: b) :=
  decodeFrom_append E attr hx s 0 b (Nat.zero_le _)

theorem decode_append (hamp : x ≠ '&') (s b : List Char) :
    decode E attr (s ++ x :: b) = decode E attr s ++ x :: decode E attr b := by
  have hcons : decode E attr (x :: b) = x :: decode E attr b := by
    rw [decode, decodeFrom, if_neg hamp]
    rfl
  rw [decode_piece E attr hx, hcons]

end Lemmas

/-! ## The ampersand -/

section Ampersand
variable {E : Entities}

/-- `amp;` is a name, and no name goes on behind it. -/
structure Entities.HasAmp (E : Entities) : Prop where
  amp : E.lookup "amp;".toList = some ['&']
  ends : ∀ c s, E.lookup ("amp;".toList ++ c :: s) = none

theorem basic_hasAmp : Entities.basic.HasAmp where
  amp := by decide
  ends c s := by
    have hall : ∀ p ∈ basicTable, "amp;".toList <+: p.1 → p.1.length ≤ 4 := by decide
    have hnone : basicTable.find? (fun p => p.1 = "amp;".toList ++ c :: s) = none := by
      refine List.find?_eq_none.mpr fun p hp hname => ?_
      have hle := hall p hp
      rw [of_decide_eq_true hname, List.length_append] at hle
      have hle := hle (List.prefix_append _ _)
      have hamp : "amp;".toList.length = 4 := rfl
      rw [List.length_cons] at hle
      omega
    exact congrArg (Option.map Prod.snd) hnone

/-- Before an `&` there is no reference. -/
theorem decode_skip (attr : Bool) {s : List Char} (h : '&' ∉ s) (r : List Char) :
    decode E attr (s ++ r) = s ++ decode E attr r := by
  induction s with
  | nil => rfl
  | cons c s ih =>
      rw [List.mem_cons, not_or] at h
      have hcons : decode E attr (c :: (s ++ r)) = c :: decode E attr (s ++ r) := by
        rw [decode, decodeFrom, if_neg (Ne.symm h.1)]
        rfl
      rw [List.cons_append, hcons, ih h.2, List.cons_append]

/-- Where no name goes on, none is found. -/
theorem longest_eq_none {pre : List Char} (h : ∀ t, E.lookup (pre ++ t) = none) (s : List Char) :
    E.longest pre s = none := by
  have hpre : E.lookup pre = none := List.append_nil pre ▸ h []
  induction s generalizing pre with
  | nil => rw [Entities.longest, hpre, Option.map_none]
  | cons c s ih =>
      have hnext : ∀ t, E.lookup (pre ++ [c] ++ t) = none := fun t => by
        rw [List.append_assoc]
        exact h _
      rw [Entities.longest, ih hnext (List.append_nil (pre ++ [c]) ▸ hnext []), hpre]
      rfl

theorem longest_amp (h : E.HasAmp) (r : List Char) :
    E.longest [] ("amp;".toList ++ r) = some ("amp;".toList, ['&']) := by
  have hend : E.longest "amp;".toList r = some ("amp;".toList, ['&']) := by
    cases r with
    | nil => rw [Entities.longest, h.amp, Option.map_some]
    | cons c r =>
        have hnone : E.longest ("amp;".toList ++ [c]) r = none := by
          refine longest_eq_none (fun t => ?_) r
          rw [List.append_assoc]
          exact h.ends c t
        rw [Entities.longest, hnone, h.amp]
        rfl
  have hlonger : ∀ {pre r : List Char} {c : Char},
      E.longest (pre ++ [c]) r = some ("amp;".toList, ['&']) →
      E.longest pre (c :: r) = some ("amp;".toList, ['&']) := by
    intro pre r c hr
    rw [Entities.longest, hr]
    rfl
  exact hlonger (hlonger (hlonger (hlonger hend)))

/-- **An escaped `&`** becomes `&`; decoding goes on behind it. -/
theorem decode_amp (h : E.HasAmp) (attr : Bool) {s : List Char} (hs : '&' ∉ s) (r : List Char) :
    decode E attr (s ++ "&amp;".toList ++ r) = s ++ '&' :: decode E attr r := by
  have href : reference E attr ("amp;".toList ++ r) = some (['&'], 4) := by
    have hnamed : reference E attr ("amp;".toList ++ r) =
        (E.longest [] ("amp;".toList ++ r)).bind fun p =>
          if attr && p.1.getLast? ≠ some ';' && continuesName (("amp;".toList ++ r).drop p.1.length)
          then none else some (p.2, p.1.length) := by
      rw [reference]
      rintro s' ⟨⟩
    rw [hnamed, longest_amp h, Option.bind_some, if_neg (by simp)]
    rfl
  have hread : decode E attr ("&amp;".toList ++ r) = '&' :: decode E attr r := by
    show decodeFrom E attr 0 ('&' :: ("amp;".toList ++ r)) = _
    rw [decodeFrom, if_pos rfl, href]
    rfl
  rw [List.append_assoc, decode_skip attr hs, hread]

end Ampersand

end Html
