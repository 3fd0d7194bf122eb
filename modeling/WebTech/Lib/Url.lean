/-
# `WebTech.Lib.Url` — query strings, written and read

A query string is cut off at `#`, split at `&`, and each part at its first `=`.
Names and values are form-decoded: `+` is a space, and a run of escapes `%XX` is
a run of bytes in the charset of the reader.

    a text in which nothing is special is read as itself          (`readsAs_chars`)
    an escaped text is read as what was escaped                   (`units_percentEncode`)
    reading never lengthens, and keeps the length only of a
    text without escapes                                          (`formDecode_of_length`)
-/
import WebTech.Lib.Json
import WebTech.Lib.Utf8
import Mathlib.Data.List.TakeWhile

namespace Url

open Utf8

/-! ## Form decoding -/

/-- What a reader makes of a run of bytes: a text of at most as many characters,
and the text itself where it was written in UTF-8. -/
structure Charset where
  read : Bytes → List Char
  read_encode : ∀ t, read (encode t) = t
  length_le : ∀ b, (read b).length ≤ b.length

/-- UTF-8; what is no UTF-8 becomes replacement characters. -/
def Charset.utf8 : Charset where
  read b := (decode b).getD (b.map fun _ => '\ufffd')
  read_encode t := by rw [decode_encode]; rfl
  length_le b := by
    cases h : decode b with
    | none => exact Nat.le_of_eq (List.length_map _)
    | some t =>
        rw [← decode_eq_some.mp h]
        exact length_le_encode t

/-- A character, or a byte that was escaped. -/
inductive Piece where
  | char (c : Char)
  | byte (b : UInt8)
  deriving DecidableEq, Repr

/-- `+` is a space. -/
def plus (c : Char) : Char := if c = '+' then ' ' else c

/-- The byte of two hexadecimal digits. -/
def hexByte (a b : Char) : Option UInt8 :=
  match Rfc8259.hexVal a, Rfc8259.hexVal b with
  | some m, some n => some (UInt8.ofNat (16 * m + n))
  | _, _ => none

/-- The characters and the escapes of a text. -/
def units : List Char → List Piece
  | '%' :: a :: b :: s =>
      match hexByte a b with
      | some x => .byte x :: units s
      | none => .char '%' :: units (a :: b :: s)
  | c :: s => .char (plus c) :: units s
  | [] => []

section Charset
variable (C : Charset)

/-- Runs of bytes become characters: `run` is the one that is being read. -/
def assemble : Bytes → List Piece → List Char
  | run, .byte b :: us => assemble (run ++ [b]) us
  | run, .char c :: us => C.read run ++ c :: assemble [] us
  | run, [] => C.read run

/-- **Form decoding.** -/
def formDecode (s : List Char) : List Char := assemble C [] (units s)

/-! ## Parameters -/

/-- The query of a URL. -/
def query (url : List Char) : List Char :=
  ((url.takeWhile fun c => c ≠ '#').dropWhile fun c => c ≠ '?').drop 1

def splitAmp : List Char → List (List Char)
  | [] => [[]]
  | c :: s =>
      if c = '&' then [] :: splitAmp s
      else match splitAmp s with
        | p :: ps => (c :: p) :: ps
        | [] => [[c]]

/-- A part of a query, decoded. -/
def param (p : List Char) : List Char × List Char :=
  (formDecode C (p.takeWhile fun c => c ≠ '='),
    formDecode C ((p.dropWhile fun c => c ≠ '=').drop 1))

/-- **The parameters of a URL**; an empty part is none. -/
def params (url : List Char) : List (List Char × List Char) :=
  ((splitAmp (query url)).filter fun p => p ≠ []).map (param C)

/-- The first of the parameters of a name. -/
def first (k : String) (ps : List (List Char × List Char)) : Option (List Char) :=
  (ps.find? fun p => p.1 = k.toList).map Prod.snd

/-- The last of them. -/
def last (k : String) (ps : List (List Char × List Char)) : Option (List Char) :=
  first k ps.reverse

end Charset

/-! ## Escaping -/

def upperHex (n : Nat) : Char := if n < 10 then Char.ofNat (48 + n) else Char.ofNat (55 + n)

def escape (b : UInt8) : List Char := ['%', upperHex (b.toNat / 16), upperHex (b.toNat % 16)]

/-- The characters that are not kept are written as their bytes. -/
def percentEncode (keep : Char → Bool) (t : List Char) : List Char :=
  t.flatMap fun c => if keep c then [c] else (String.utf8EncodeChar c).flatMap escape

/-- The characters of `encodeURI` and `encodeURIComponent` that stand for themselves. -/
def isMark (c : Char) : Bool :=
  c = '-' || c = '_' || c = '.' || c = '!' || c = '~' || c = '*' || c = '\'' || c = '(' || c = ')'

/-- The characters that separate the parts of a URL. -/
def isReserved (c : Char) : Bool :=
  c = ';' || c = '/' || c = '?' || c = ':' || c = '@' || c = '&' || c = '=' || c = '+' || c = '$'
    || c = ','

def isUnescaped (c : Char) : Bool := c.isAlphanum || isMark c

def encodeURI (t : List Char) : List Char :=
  percentEncode (fun c => isUnescaped c || isReserved c || c = '#') t

def encodeURIComponent (t : List Char) : List Char := percentEncode isUnescaped t

/-! ## Reading -/

theorem hexVal_upperHex {n : Nat} (h : n < 16) : Rfc8259.hexVal (upperHex n) = some n := by
  have hall : ∀ k < 16, Rfc8259.hexVal (upperHex k) = some k := by decide
  exact hall n h

/-- An escape is read as its byte. -/
theorem units_escape (b : UInt8) (s : List Char) : units (escape b ++ s) = .byte b :: units s := by
  have hbyte : hexByte (upperHex (b.toNat / 16)) (upperHex (b.toNat % 16)) = some b := by
    have hlt : b.toNat < 256 := b.toNat_lt
    rw [hexByte, hexVal_upperHex (by omega), hexVal_upperHex (by omega)]
    show some (UInt8.ofNat (16 * (b.toNat / 16) + b.toNat % 16)) = some b
    rw [Nat.div_add_mod, UInt8.ofNat_toNat]
  show units ('%' :: upperHex (b.toNat / 16) :: upperHex (b.toNat % 16) :: s) = _
  rw [units, hbyte]

theorem units_escapes (bs : Bytes) (s : List Char) :
    units (bs.flatMap escape ++ s) = bs.map .byte ++ units s := by
  induction bs with
  | nil => rfl
  | cons b bs ih =>
      rw [List.flatMap_cons, List.append_assoc, units_escape, ih]
      rfl

theorem units_cons {c : Char} (hc : c ≠ '%') (s : List Char) :
    units (c :: s) = .char (plus c) :: units s := by
  rw [units]
  rintro a b r rfl
  exact absurd rfl hc

/-- What a text becomes that is written with some characters escaped. -/
def pieces (keep : Char → Bool) (t : List Char) : List Piece :=
  t.flatMap fun c => if keep c then [.char (plus c)] else (String.utf8EncodeChar c).map .byte

/-- **An escaped text**, and what follows it. -/
theorem units_percentEncode {keep : Char → Bool} (hkeep : keep '%' = false) (t s : List Char) :
    units (percentEncode keep t ++ s) = pieces keep t ++ units s := by
  induction t with
  | nil => rfl
  | cons c t ih =>
      rw [percentEncode, pieces, List.flatMap_cons, List.flatMap_cons, List.append_assoc,
        List.append_assoc]
      by_cases hc : keep c = true
      · have hne : c ≠ '%' := by
          rintro rfl
          rw [hkeep] at hc
          exact nomatch hc
        rw [if_pos hc, if_pos hc, List.singleton_append, units_cons hne, ← percentEncode, ih]
        rfl
      · rw [if_neg hc, if_neg hc, units_escapes, ← percentEncode, ih]
        rfl

/-! ## Pieces that are read as a text -/

/-- **Pieces of a text**, whatever is read before and after them. -/
def ReadsAs (us : List Piece) (t : List Char) : Prop :=
  ∀ (C : Charset) (u : List Char) (rest : List Piece), ∃ pre u', pre ++ u' = u ++ t ∧
    assemble C (encode u) (us ++ rest) = pre ++ assemble C (encode u') rest

theorem ReadsAs.nil : ReadsAs [] [] := fun _ u _ => ⟨[], u, (List.append_nil u).symm, rfl⟩

theorem ReadsAs.append {us vs : List Piece} {t t' : List Char} (h : ReadsAs us t)
    (h' : ReadsAs vs t') : ReadsAs (us ++ vs) (t ++ t') := by
  intro C u rest
  obtain ⟨pre, u', hu, hus⟩ := h C u (vs ++ rest)
  obtain ⟨pre', u'', hu', hvs⟩ := h' C u' rest
  refine ⟨pre ++ pre', u'', ?_, ?_⟩
  · rw [List.append_assoc, hu', ← List.append_assoc, hu, List.append_assoc]
  · rw [List.append_assoc, hus, hvs, List.append_assoc]

theorem readsAs_char (c : Char) : ReadsAs [.char c] [c] := by
  intro C u rest
  refine ⟨u ++ [c], [], List.append_nil _, ?_⟩
  show C.read (encode u) ++ c :: assemble C [] rest = u ++ [c] ++ assemble C (encode []) rest
  rw [C.read_encode, List.append_assoc]
  rfl

theorem readsAs_chars (t : List Char) : ReadsAs (t.map .char) t := by
  induction t with
  | nil => exact ReadsAs.nil
  | cons c t ih => exact (readsAs_char c).append ih

/-- Bytes are added to the run. -/
theorem assemble_bytes (C : Charset) (bs run : Bytes) (rest : List Piece) :
    assemble C run (bs.map .byte ++ rest) = assemble C (run ++ bs) rest := by
  induction bs generalizing run with
  | nil => rw [List.append_nil]; rfl
  | cons b bs ih =>
      show assemble C (run ++ [b]) (bs.map .byte ++ rest) = _
      rw [ih, List.append_assoc]
      rfl

theorem readsAs_bytes (t : List Char) : ReadsAs ((encode t).map .byte) t := by
  intro C u rest
  refine ⟨[], u ++ t, rfl, ?_⟩
  rw [assemble_bytes, encode_append]
  rfl

/-- **An escaped text is read as itself**, its own `+` apart. -/
theorem readsAs_pieces (keep : Char → Bool) (t : List Char) :
    ReadsAs (pieces keep t) (t.map fun c => if keep c then plus c else c) := by
  induction t with
  | nil => exact ReadsAs.nil
  | cons c t ih =>
      have hone : ReadsAs (if keep c then [.char (plus c)] else (String.utf8EncodeChar c).map .byte)
          [if keep c then plus c else c] := by
        by_cases hc : keep c = true
        · rw [if_pos hc, if_pos hc]
          exact readsAs_char (plus c)
        · have hbytes : encode [c] = String.utf8EncodeChar c := List.append_nil _
          rw [if_neg hc, if_neg hc, ← hbytes]
          exact readsAs_bytes [c]
      exact hone.append ih

/-- What is read in the end. -/
theorem ReadsAs.assemble_eq {us : List Piece} {t : List Char} (h : ReadsAs us t) (C : Charset) :
    assemble C [] us = t := by
  obtain ⟨pre, u', hu, hus⟩ := h C [] []
  rw [List.append_nil] at hus
  have hread : assemble C (encode []) us = pre ++ C.read (encode u') := hus
  rw [C.read_encode, hu] at hread
  exact hread

/-! ## Texts without escapes -/

/-- Two hexadecimal digits. -/
def opensEscape : List Char → Bool
  | a :: b :: _ => (hexByte a b).isSome
  | _ => false

def hasEscape : List Char → Bool
  | [] => false
  | c :: s => (c = '%' && opensEscape s) || hasEscape s

theorem units_char {c : Char} {s : List Char} (h : (c = '%' && opensEscape s) = false) :
    units (c :: s) = .char (plus c) :: units s := by
  by_cases hc : c = '%'
  · subst hc
    replace h : opensEscape s = false := h
    match s, h with
    | [], _ => rfl
    | [a], _ => rfl
    | a :: b :: r, h =>
        have hnone : hexByte a b = none := Option.isNone_iff_eq_none.mp (by
          rw [← Option.not_isSome, Bool.not_eq_true']
          exact h)
        rw [units, hnone]
        rfl
  · exact units_cons hc s

theorem hexByte_none {a b : Char} (h : Rfc8259.hexVal a = none ∨ Rfc8259.hexVal b = none) :
    hexByte a b = none := by
  rw [hexByte]
  rcases h with h | h
  · rw [h]
  · rw [h]
    cases Rfc8259.hexVal a with
    | none => rfl
    | some m => rfl

section Append
variable {x : List Char} (hx : ∀ c ∈ x.head?, Rfc8259.hexVal c = none)
include hx

/-- No escape goes on into a text that begins with no digit. -/
theorem opensEscape_append (s : List Char) : opensEscape (s ++ x) = opensEscape s := by
  match s with
  | [] =>
      match x, hx with
      | [], _ => rfl
      | [a], _ => rfl
      | a :: b :: r, hx =>
          show (hexByte a b).isSome = false
          rw [hexByte_none (.inl (hx a rfl))]
          rfl
  | [a] =>
      match x, hx with
      | [], _ => rfl
      | b :: r, hx =>
          show (hexByte a b).isSome = false
          rw [hexByte_none (.inr (hx b rfl))]
          rfl
  | a :: b :: r => rfl

/-- **A text without escapes**, and what follows it. -/
theorem units_append {s : List Char} (h : hasEscape s = false) :
    units (s ++ x) = s.map (fun c => .char (plus c)) ++ units x := by
  induction s with
  | nil => rfl
  | cons c s ih =>
      rw [hasEscape, Bool.or_eq_false_iff] at h
      rw [List.cons_append, units_char, ih h.2]
      · rfl
      · rw [opensEscape_append hx]
        exact h.1

end Append

/-- An escape is shorter read than written. -/
theorem length_units_le (s : List Char) :
    (units s).length ≤ s.length ∧ (hasEscape s = true → (units s).length < s.length) := by
  induction s using units.induct with
  | case1 a b s x hx ih =>
      rw [units, hx]
      simp only [List.length_cons]
      exact ⟨by omega, fun _ => by omega⟩
  | case2 a b s hx ih =>
      have hno : opensEscape (a :: b :: s) = false := by
        rw [opensEscape, hx]
        rfl
      rw [units, hx, hasEscape, hno, Bool.and_false, Bool.false_or]
      simp only [List.length_cons] at ih ⊢
      exact ⟨by omega, fun h => by have := ih.2 h; omega⟩
  | case3 c s hc ih =>
      have hno : (c = '%' && opensEscape s) = false := by
        by_contra hyes
        rw [Bool.not_eq_false, Bool.and_eq_true, decide_eq_true_eq] at hyes
        obtain ⟨rfl, hopens⟩ := hyes
        match s, hc, hopens with
        | a :: b :: r, hc, _ => exact hc a b r rfl rfl
      rw [units_char hno, hasEscape, hno, Bool.false_or]
      simp only [List.length_cons]
      exact ⟨by omega, fun h => by have := ih.2 h; omega⟩
  | case4 => exact ⟨Nat.le_refl 0, nofun⟩

section Length
variable (C : Charset)

theorem length_assemble_le (us : List Piece) (run : Bytes) :
    (assemble C run us).length ≤ run.length + us.length := by
  induction us generalizing run with
  | nil => exact C.length_le run
  | cons p us ih =>
      cases p with
      | byte b =>
          have := ih (run ++ [b])
          rw [List.length_append] at this
          show (assemble C (run ++ [b]) us).length ≤ _
          simp only [List.length_cons, List.length_nil] at this ⊢
          omega
      | char c =>
          have hrun := C.length_le run
          have := ih []
          show (C.read run ++ c :: assemble C [] us).length ≤ _
          simp only [List.length_append, List.length_cons, List.length_nil] at this ⊢
          omega

/-- **Reading never lengthens.** -/
theorem length_formDecode_le (s : List Char) : (formDecode C s).length ≤ s.length := by
  have hunits := (length_units_le s).1
  have hread := length_assemble_le C (units s) []
  rw [formDecode]
  simp only [List.length_nil] at hread
  omega

/-- A text without escapes is read as itself, with spaces for `+`. -/
theorem formDecode_plain {s : List Char} (h : hasEscape s = false) :
    formDecode C s = s.map plus := by
  have hunits := units_append (x := []) nofun h
  rw [List.append_nil] at hunits
  have hmap : s.map (fun c => Piece.char (plus c)) ++ units [] = (s.map plus).map .char := by
    rw [List.map_map]
    exact List.append_nil _
  rw [formDecode, hunits, hmap]
  exact (readsAs_chars (s.map plus)).assemble_eq C

/-- **A text that keeps its length** has no escapes. -/
theorem formDecode_of_length {s : List Char} (h : s.length ≤ (formDecode C s).length) :
    hasEscape s = false ∧ formDecode C s = s.map plus := by
  have hno : hasEscape s = false := by
    by_contra hyes
    rw [Bool.not_eq_false] at hyes
    have hunits := (length_units_le s).2 hyes
    have hread := length_assemble_le C (units s) []
    rw [formDecode] at h
    simp only [List.length_nil] at hread
    omega
  exact ⟨hno, formDecode_plain C hno⟩

end Length

theorem plus_plus (c : Char) : plus (plus c) = plus c := by
  rw [plus, plus]
  by_cases hc : c = '+'
  · rw [if_pos hc, if_neg (by decide)]
  · rw [if_neg hc, if_neg hc]

theorem map_plus_plus (s : List Char) : (s.map plus).map plus = s.map plus := by
  rw [List.map_map]
  exact List.map_congr_left fun c _ => plus_plus c

/-- Only `+` is changed. -/
theorem map_plus_eq_self_iff {s : List Char} : s.map plus = s ↔ '+' ∉ s := by
  induction s with
  | nil => exact iff_of_true rfl List.not_mem_nil
  | cons c s ih =>
      rw [List.map_cons, List.cons.injEq, ih, List.mem_cons, not_or]
      refine and_congr_left fun _ => ?_
      rw [plus]
      by_cases hc : c = '+'
      · rw [if_pos hc, hc]
        decide
      · rw [if_neg hc]
        exact iff_of_true rfl (Ne.symm hc)

/-! ## Parts of a query -/

theorem splitAmp_of_not_mem {s : List Char} (h : '&' ∉ s) : splitAmp s = [s] := by
  induction s with
  | nil => rfl
  | cons c s ih =>
      rw [List.mem_cons, not_or] at h
      rw [splitAmp, if_neg (Ne.symm h.1), ih h.2]

theorem splitAmp_append {s : List Char} (h : '&' ∉ s) (t : List Char) :
    splitAmp (s ++ '&' :: t) = s :: splitAmp t := by
  induction s with
  | nil => exact if_pos rfl
  | cons c s ih =>
      rw [List.mem_cons, not_or] at h
      rw [List.cons_append, splitAmp, if_neg (Ne.symm h.1), ih h.2]

/-- No part is longer than the whole. -/
theorem length_le_of_mem_splitAmp {s p : List Char} (h : p ∈ splitAmp s) : p.length ≤ s.length := by
  induction s generalizing p with
  | nil => rw [List.mem_singleton.mp h]
  | cons c s ih =>
      rw [splitAmp] at h
      split at h
      · rcases List.mem_cons.mp h with rfl | h
        · exact Nat.zero_le _
        · exact Nat.le_succ_of_le (ih h)
      · split at h
        · next q qs hq =>
            rw [hq] at ih
            rcases List.mem_cons.mp h with rfl | h
            · exact Nat.succ_le_succ (ih List.mem_cons_self)
            · exact Nat.le_succ_of_le (ih (List.mem_cons_of_mem _ h))
        · rw [List.mem_singleton.mp h]
          exact Nat.succ_le_succ (Nat.zero_le _)

/-- What is left of a value that is written into a query. -/
def cut (v : List Char) : List Char := v.takeWhile fun c => c ≠ '&' && c ≠ '#'

theorem length_cut_le (v : List Char) : (cut v).length ≤ v.length :=
  (List.takeWhile_sublist _).length_le

theorem cut_eq_self {v : List Char} (hamp : '&' ∉ v) (hhash : '#' ∉ v) : cut v = v := by
  refine List.takeWhile_eq_self_iff.mpr fun c hc => ?_
  rw [Bool.and_eq_true, decide_eq_true_eq, decide_eq_true_eq]
  constructor
  · rintro rfl
    exact hamp hc
  · rintro rfl
    exact hhash hc

/-- A value that keeps its length has no separator. -/
theorem not_mem_of_length_cut {v : List Char} (h : v.length ≤ (cut v).length) :
    '&' ∉ v ∧ '#' ∉ v := by
  have hself : cut v = v := (List.takeWhile_prefix _).eq_of_length_le h
  have hall := List.takeWhile_eq_self_iff.mp hself
  constructor
  · intro hc
    exact absurd (hall '&' hc) (by decide)
  · intro hc
    exact absurd (hall '#' hc) (by decide)

/-- The place and the name of a value in a URL. -/
structure Slot (base name : List Char) : Prop where
  base : ∀ c ∈ base, c ≠ '#' ∧ c ≠ '?'
  name : ∀ c ∈ name, c ≠ '#' ∧ c ≠ '&' ∧ c ≠ '=' ∧ c ≠ '+' ∧ c ≠ '%'

instance decSlot (base name : List Char) : Decidable (Slot base name) :=
  decidable_of_iff ((∀ c ∈ base, c ≠ '#' ∧ c ≠ '?') ∧
      ∀ c ∈ name, c ≠ '#' ∧ c ≠ '&' ∧ c ≠ '=' ∧ c ≠ '+' ∧ c ≠ '%')
    ⟨fun h => ⟨h.1, h.2⟩, fun h => ⟨h.1, h.2⟩⟩

/-- A URL with a value in it. -/
def urlWith (base name v : List Char) : List Char := base ++ '?' :: (name ++ '=' :: v)

/-- A URL that ends before a value. -/
theorem append_urlWith {front base name : List Char} (h : front = base ++ '?' :: (name ++ ['=']))
    (v : List Char) : front ++ v = urlWith base name v := by
  rw [h, urlWith]
  simp

theorem hasEscape_of_not_mem {s : List Char} (h : '%' ∉ s) : hasEscape s = false := by
  induction s with
  | nil => rfl
  | cons c s ih =>
      rw [List.mem_cons, not_or] at h
      rw [hasEscape, ih h.2, decide_eq_false (Ne.symm h.1)]
      rfl

section Slot
variable {base name : List Char} (h : Slot base name) (C : Charset)
include h

theorem query_urlWith (v : List Char) :
    query (urlWith base name v) = name ++ '=' :: v.takeWhile fun c => c ≠ '#' := by
  have hbase : ∀ c ∈ base ++ ['?'], decide (c ≠ '#') = true := by
    intro c hc
    rcases List.mem_append.mp hc with hc | hc
    · exact decide_eq_true (h.base c hc).1
    · rw [List.mem_singleton.mp hc]
      decide
  have hname : ∀ c ∈ name ++ ['='], decide (c ≠ '#') = true := by
    intro c hc
    rcases List.mem_append.mp hc with hc | hc
    · exact decide_eq_true (h.name c hc).1
    · rw [List.mem_singleton.mp hc]
      decide
  have hdrop : ∀ c ∈ base, decide (c ≠ '?') = true := fun c hc => decide_eq_true (h.base c hc).2
  have hsplit : urlWith base name v = (base ++ ['?']) ++ ((name ++ ['=']) ++ v) := by
    rw [urlWith]
    simp
  rw [query, hsplit, List.takeWhile_append_of_pos hbase, List.takeWhile_append_of_pos hname,
    List.append_assoc, List.dropWhile_append_of_pos hdrop]
  show name ++ ['='] ++ _ = _
  rw [List.append_assoc]
  rfl

theorem formDecode_name : formDecode C name = name := by
  have hplus : '+' ∉ name := fun hc => (h.name '+' hc).2.2.2.1 rfl
  have hpercent : '%' ∉ name := fun hc => (h.name '%' hc).2.2.2.2 rfl
  rw [formDecode_plain C (hasEscape_of_not_mem hpercent), map_plus_eq_self_iff.mpr hplus]

/-- A part with a name and a value. -/
theorem param_append (v : List Char) : param C (name ++ '=' :: v) = (name, formDecode C v) := by
  have hname : ∀ c ∈ name, decide (c ≠ '=') = true :=
    fun c hc => decide_eq_true (h.name c hc).2.2.1
  rw [param, List.takeWhile_append_of_pos hname, List.dropWhile_append_of_pos hname]
  show (formDecode C (name ++ []), formDecode C v) = _
  rw [List.append_nil, formDecode_name h]

/-- **The first parameter** is the value up to a separator. -/
theorem params_urlWith (v : List Char) : ∃ rest,
    params C (urlWith base name v) = (name, formDecode C (cut v)) :: rest ∧
      ∀ p ∈ rest, p.2.length < v.length := by
  have hamp : '&' ∉ name ++ ['='] := by
    rw [List.mem_append, not_or]
    exact ⟨fun hc => (h.name '&' hc).2.1 rfl, by decide⟩
  have hfilter : ∀ (r : List Char) (ps : List (List Char)),
      ((name ++ '=' :: r) :: ps).filter (fun p => decide (p ≠ [])) =
        (name ++ '=' :: r) :: ps.filter (fun p => decide (p ≠ [])) := by
    intro r ps
    refine List.filter_cons_of_pos (decide_eq_true ?_)
    exact List.append_ne_nil_of_right_ne_nil _ (List.cons_ne_nil _ _)
  have hcut : cut v = (v.takeWhile fun c => c ≠ '#').takeWhile fun c => c ≠ '&' := by
    rw [List.takeWhile_takeWhile, cut]
    congr 1
    funext c
    rw [Bool.decide_and, Bool.decide_eq_true, Bool.decide_eq_true]
  have hlen : (v.takeWhile fun c => c ≠ '#').length ≤ v.length :=
    (List.takeWhile_sublist _).length_le
  rw [params, query_urlWith h]
  generalize (v.takeWhile fun c => c ≠ '#') = w at hcut hlen ⊢
  by_cases hw : '&' ∈ w
  · obtain ⟨a, b, rfl, ha⟩ := List.eq_append_cons_of_mem hw
    have hfirst : '&' ∉ name ++ '=' :: a := by
      rw [← List.singleton_append, ← List.append_assoc, List.mem_append, not_or]
      exact ⟨hamp, ha⟩
    have htake : (a ++ '&' :: b).takeWhile (fun c => decide (c ≠ '&')) = a := by
      have hall : ∀ c ∈ a, decide (c ≠ '&') = true := by
        intro c hc
        refine decide_eq_true ?_
        rintro rfl
        exact ha hc
      rw [List.takeWhile_append_of_pos hall]
      exact List.append_nil a
    have hshape : name ++ '=' :: (a ++ '&' :: b) = (name ++ '=' :: a) ++ '&' :: b := by simp
    rw [hcut, htake, hshape, splitAmp_append hfirst, hfilter, List.map_cons,
      param_append h]
    refine ⟨_, rfl, fun p hp => ?_⟩
    obtain ⟨part, hpart, rfl⟩ := List.mem_map.mp hp
    have hmem := length_le_of_mem_splitAmp (List.mem_filter.mp hpart).1
    have hread := length_formDecode_le C ((part.dropWhile fun c => c ≠ '=').drop 1)
    have hdrop : ((part.dropWhile fun c => c ≠ '=').drop 1).length ≤ part.length := by
      rw [List.length_drop]
      have := (List.dropWhile_sublist (l := part) fun c => decide (c ≠ '=')).length_le
      omega
    rw [List.length_append, List.length_cons] at hlen
    show (formDecode C ((part.dropWhile fun c => c ≠ '=').drop 1)).length < v.length
    omega
  · have hwhole : '&' ∉ name ++ '=' :: w := by
      rw [← List.singleton_append, ← List.append_assoc, List.mem_append, not_or]
      exact ⟨hamp, hw⟩
    have htake : w.takeWhile (fun c => decide (c ≠ '&')) = w := by
      refine List.takeWhile_eq_self_iff.mpr fun c hc => decide_eq_true ?_
      rintro rfl
      exact hw hc
    rw [hcut, htake, splitAmp_of_not_mem hwhole, hfilter, List.map_cons,
      param_append h]
    exact ⟨_, rfl, nofun⟩

/-- **The only parameter**, when the value has no separator. -/
theorem params_single {v : List Char} (hamp : '&' ∉ v) (hhash : '#' ∉ v) :
    params C (urlWith base name v) = [(name, formDecode C v)] := by
  have hwhole : '&' ∉ name ++ '=' :: v := by
    rw [List.mem_append, List.mem_cons, not_or, not_or]
    exact ⟨fun hc => (h.name '&' hc).2.1 rfl, by decide, hamp⟩
  have htake : v.takeWhile (fun c => decide (c ≠ '#')) = v := by
    refine List.takeWhile_eq_self_iff.mpr fun c hc => decide_eq_true ?_
    rintro rfl
    exact hhash hc
  have hne : name ++ '=' :: v ≠ [] := List.append_ne_nil_of_right_ne_nil _ (List.cons_ne_nil _ _)
  rw [params, query_urlWith h, htake, splitAmp_of_not_mem hwhole, List.filter_cons,
    if_pos (decide_eq_true hne), List.filter_nil, List.map_singleton, param_append h]

/-- **A value between its name and other parameters.** -/
theorem params_followed {v r : List Char} (hamp : '&' ∉ v) (hhash : '#' ∉ v) (hr : '#' ∉ r) :
    params C (urlWith base name (v ++ '&' :: r)) =
      (name, formDecode C v) :: ((splitAmp r).filter fun p => p ≠ []).map (param C) := by
  have hpart : '&' ∉ name ++ '=' :: v := by
    rw [List.mem_append, List.mem_cons, not_or, not_or]
    exact ⟨fun hc => (h.name '&' hc).2.1 rfl, by decide, hamp⟩
  have htake : (v ++ '&' :: r).takeWhile (fun c => decide (c ≠ '#')) = v ++ '&' :: r := by
    refine List.takeWhile_eq_self_iff.mpr fun c hc => decide_eq_true ?_
    rintro rfl
    rcases List.mem_append.mp hc with hc | hc
    · exact hhash hc
    · rcases List.mem_cons.mp hc with hc | hc
      · exact absurd hc (by decide)
      · exact hr hc
  have hshape : name ++ '=' :: (v ++ '&' :: r) = (name ++ '=' :: v) ++ '&' :: r := by simp
  have hne : name ++ '=' :: v ≠ [] := List.append_ne_nil_of_right_ne_nil _ (List.cons_ne_nil _ _)
  rw [params, query_urlWith h, htake, hshape, splitAmp_append hpart, List.filter_cons,
    if_pos (decide_eq_true hne), List.map_cons, param_append h]

/-- The first of the parameters of the name. -/
theorem first_urlWith {k : String} (hk : k.toList = name) (v : List Char) :
    first k (params C (urlWith base name v)) = some (formDecode C (cut v)) := by
  obtain ⟨rest, hparams, -⟩ := params_urlWith h C v
  rw [hparams, first, List.find?_cons, hk, decide_eq_true rfl]
  rfl

/-- **The last of them** is no longer than the value, and as long only when the
value has no separator. -/
theorem last_urlWith (k : String) (v : List Char) :
    ((last k (params C (urlWith base name v))).getD []).length ≤ v.length ∧
      (v.length ≤ ((last k (params C (urlWith base name v))).getD []).length →
        '&' ∉ v ∧ '#' ∉ v ∧ (last k (params C (urlWith base name v))).getD [] = formDecode C v) := by
  obtain ⟨rest, hparams, hrest⟩ := params_urlWith h C v
  have hcut := length_cut_le v
  have hread := length_formDecode_le C (cut v)
  rw [last, first, hparams]
  cases hfind : ((name, formDecode C (cut v)) :: rest).reverse.find? fun p => p.1 = k.toList with
  | none =>
      refine ⟨Nat.zero_le _, fun hlen => ?_⟩
      obtain rfl := List.eq_nil_of_length_eq_zero (Nat.le_zero.mp hlen)
      have hnil : formDecode C [] = [] := formDecode_plain C (s := []) rfl
      exact ⟨List.not_mem_nil, List.not_mem_nil, hnil.symm⟩
  | some p =>
      have hmem := List.mem_reverse.mp (List.mem_of_find?_eq_some hfind)
      rcases List.mem_cons.mp hmem with rfl | hmem
      · refine ⟨hread.trans hcut, fun hlen => ?_⟩
        have hself : v.length ≤ (cut v).length := hlen.trans hread
        obtain ⟨hamp, hhash⟩ := not_mem_of_length_cut hself
        exact ⟨hamp, hhash, congrArg (formDecode C) (cut_eq_self hamp hhash)⟩
      · have hlt := hrest p hmem
        exact ⟨Nat.le_of_lt hlt, fun hlen => absurd hlt (Nat.not_lt.mpr hlen)⟩

end Slot

theorem cut_append (v r : List Char) : cut (v ++ '&' :: r) = cut v := by
  induction v with
  | nil => exact List.takeWhile_cons_of_neg (by decide)
  | cons c v ih =>
      rw [List.cons_append, cut, cut, List.takeWhile_cons, List.takeWhile_cons]
      split
      · exact congrArg _ ih
      · rfl

/-! ## Escapes and separators -/

theorem upperHex_ne {n : Nat} (h : n < 16) : upperHex n ≠ '&' ∧ upperHex n ≠ '#' := by
  have hall : ∀ k < 16, upperHex k ≠ '&' ∧ upperHex k ≠ '#' := by decide
  exact hall n h

/-- No separator in an escape. -/
theorem escape_ne (b : UInt8) : ∀ c ∈ escape b, c ≠ '&' ∧ c ≠ '#' := by
  have hlt : b.toNat < 256 := b.toNat_lt
  rw [escape, List.forall_mem_cons, List.forall_mem_cons, List.forall_mem_singleton]
  exact ⟨by decide, upperHex_ne (by omega), upperHex_ne (by omega)⟩

/-- No separator in an escaped text that keeps none. -/
theorem not_mem_percentEncode {keep : Char → Bool} {c : Char} (hkeep : keep c = false)
    (hc : c = '&' ∨ c = '#') (t : List Char) : c ∉ percentEncode keep t := by
  intro hmem
  obtain ⟨d, -, hd⟩ := List.mem_flatMap.mp hmem
  split at hd
  · next hyes =>
      rw [← List.mem_singleton.mp hd, hkeep] at hyes
      exact Bool.noConfusion hyes
  · obtain ⟨b, -, hb⟩ := List.mem_flatMap.mp hd
    obtain ⟨hamp, hhash⟩ := escape_ne b c hb
    exact hc.elim hamp hhash

/-- A value is cut before or after it is escaped. -/
theorem cut_percentEncode {keep : Char → Bool} (hamp : keep '&' = true) (hhash : keep '#' = true)
    (s : List Char) : cut (percentEncode keep s) = percentEncode keep (cut s) := by
  induction s with
  | nil => rfl
  | cons c s ih =>
      by_cases hsep : c = '&' ∨ c = '#'
      · have hkeep : keep c = true := by
          rcases hsep with rfl | rfl
          · exact hamp
          · exact hhash
        have hstop : ∀ r, cut (c :: r) = [] := by
          intro r
          refine List.takeWhile_cons_of_neg ?_
          rw [Bool.and_eq_true, decide_eq_true_eq, decide_eq_true_eq]
          rintro ⟨h, h'⟩
          exact hsep.elim h h'
        rw [hstop, percentEncode, List.flatMap_cons, if_pos hkeep]
        exact hstop _
      · have hc : (c ≠ '&' && c ≠ '#') = true := by
          rw [Bool.and_eq_true, decide_eq_true_eq, decide_eq_true_eq]
          exact not_or.mp hsep
        have hcut : cut (c :: s) = c :: cut s := List.takeWhile_cons_of_pos hc
        have hwritten : ∀ x ∈ (if keep c then [c] else (String.utf8EncodeChar c).flatMap escape),
            (x ≠ '&' && x ≠ '#') = true := by
          intro x hx
          split at hx
          · rw [List.mem_singleton.mp hx]
            exact hc
          · obtain ⟨b, -, hx⟩ := List.mem_flatMap.mp hx
            rw [Bool.and_eq_true, decide_eq_true_eq, decide_eq_true_eq]
            exact escape_ne b x hx
        rw [hcut, percentEncode, percentEncode, List.flatMap_cons, List.flatMap_cons, cut,
          List.takeWhile_append_of_pos hwritten]
        exact congrArg _ ih

/-- **An escaped text is read back**, with spaces for `+`, which it keeps. -/
theorem formDecode_escaped (C : Charset) {keep : Char → Bool} (hpercent : keep '%' = false)
    (hplus : keep '+' = true) (s : List Char) : formDecode C (percentEncode keep s) = s.map plus := by
  have hunits := units_percentEncode hpercent s []
  have hmap : (s.map fun c => if keep c then plus c else c) = s.map plus := by
    refine List.map_congr_left fun c _ => ?_
    split
    · rfl
    · next hc =>
        rw [plus, if_neg]
        rintro rfl
        exact hc hplus
  have hnil : units [] = [] := rfl
  rw [List.append_nil, hnil, List.append_nil] at hunits
  rw [formDecode, hunits, ← hmap]
  exact (readsAs_pieces keep s).assemble_eq C

/-- The pieces of a text of `encodeURIComponent` are read as the text. -/
theorem readsAs_component (t : List Char) : ReadsAs (pieces isUnescaped t) t := by
  have hmap : (t.map fun c => if isUnescaped c then plus c else c) = t := by
    refine (List.map_congr_left fun c _ => ?_).trans (List.map_id t)
    split
    · next hc =>
        rw [plus, if_neg]
        · rfl
        · rintro rfl
          exact absurd hc (by decide)
    · rfl
  have hread := readsAs_pieces isUnescaped t
  rwa [hmap] at hread

theorem formDecode_encodeURIComponent (C : Charset) (t : List Char) :
    formDecode C (encodeURIComponent t) = t := by
  have hunits := @units_percentEncode isUnescaped (by decide) t []
  have hnil : units [] = [] := rfl
  rw [List.append_nil, hnil, List.append_nil] at hunits
  rw [formDecode, encodeURIComponent, hunits]
  exact (readsAs_component t).assemble_eq C

/-- **A text between two escaped ones** is read with them. -/
theorem formDecode_between (C : Charset) {s : List Char} (hplus : '+' ∉ s) (hesc : hasEscape s = false)
    (t : List Char) {t' : List Char} (ht' : ∀ c ∈ (encodeURIComponent t').head?, c = '%') :
    formDecode C (encodeURIComponent t ++ (s ++ encodeURIComponent t')) = t ++ (s ++ t') := by
  have hfront := @units_percentEncode isUnescaped (by decide) t (s ++ encodeURIComponent t')
  have hback := @units_percentEncode isUnescaped (by decide) t' []
  have hnil : units [] = [] := rfl
  have hmiddle : units (s ++ encodeURIComponent t') =
      s.map (fun c => .char (plus c)) ++ units (encodeURIComponent t') := by
    refine units_append (fun c hc => ?_) hesc
    rw [ht' c hc]
    rfl
  have hchars : s.map (fun c => Piece.char (plus c)) = s.map .char := by
    have hself := map_plus_eq_self_iff.mpr hplus
    calc s.map (fun c => Piece.char (plus c)) = (s.map plus).map .char := (List.map_map ..).symm
      _ = s.map .char := by rw [hself]
  rw [List.append_nil, hnil, List.append_nil] at hback
  rw [formDecode, encodeURIComponent, hfront, hmiddle, hchars, encodeURIComponent, hback]
  exact ((readsAs_component t).append ((readsAs_chars s).append (readsAs_component t'))).assemble_eq C

end Url
