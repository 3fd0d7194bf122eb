/-
# `WebTech.Lib.Delivery` — what becomes of a URL on its way

A program writes a URL as a text.  A browser takes blanks off its ends and
escapes what may not stand in a query.  A server's connection escapes nothing:
it sends what may stand in a URL, and of anything else its platform makes what
it does.

    the end of a URL is opened by itself                        (`opened_append`)
    no more is read of it than was written, and as much only
    where nothing was special but `+`                           (`formDecode_opened`)
    a value without escapes is sent with its URL exactly when
    each of its characters is                                   (`sends_between`)
-/
import WebTech.Lib.Url
import Mathlib.Data.List.DropRight

namespace Url

open Utf8

/-! ## Readers -/

def Piece.bytes : Piece → Bytes
  | .char c => String.utf8EncodeChar c
  | .byte b => [b]

/-- A charset in which a run of bytes is at most as many characters as it was
made of, characters and single bytes together. -/
structure Decoder extends Charset where
  length_pieces_le : ∀ ps : List Piece, (read (ps.flatMap Piece.bytes)).length ≤ ps.length

/-- A byte a character begins with, if it is one of a text. -/
def isLead (b : UInt8) : Bool := b.toNat < 0x80 || 0xc0 ≤ b.toNat

/-- A character begins once. -/
theorem countP_isLead (c : Char) : (String.utf8EncodeChar c).countP isLead = 1 := by
  have hbyte : ∀ {m n : Nat}, m + n < 256 → (UInt8.ofNat (m + n)).toNat = m + n := by
    intro m n h
    rw [UInt8.toNat_ofNat', Nat.mod_eq_of_lt h]
  have hlead : ∀ {m n : Nat}, 0xc0 ≤ n → m + n < 256 → isLead (UInt8.ofNat (m + n)) = true := by
    intro m n hn hlt
    rw [isLead, hbyte hlt, Bool.or_eq_true, decide_eq_true_eq, decide_eq_true_eq]
    exact .inr (by omega)
  have hnext : ∀ {m : Nat}, m < 64 → isLead (UInt8.ofNat (m + 0x80)) = false := by
    intro m hm
    rw [isLead, hbyte (by omega), Bool.or_eq_false_iff, decide_eq_false_iff_not,
      decide_eq_false_iff_not]
    omega
  have hmod : ∀ n : Nat, n % 64 < 64 := fun n => Nat.mod_lt n (by decide)
  by_cases hc : c.toNat < 128
  · have htrue : isLead c.toNat.toUInt8 = true := by
      rw [isLead, Nat.toUInt8, UInt8.toNat_ofNat', Nat.mod_eq_of_lt (by omega), Bool.or_eq_true,
        decide_eq_true_eq]
      exact .inl hc
    rw [encodeChar_ascii hc, List.countP_cons_of_pos htrue]
    rfl
  · have hv : ¬ c.val.toNat ≤ 0x7f := fun h => hc (Nat.lt_succ_of_le h)
    rw [String.utf8EncodeChar]
    simp only [if_neg hv]
    split
    · rw [List.countP_cons_of_pos (hlead (by decide) (by omega)),
        List.countP_cons_of_neg (by rw [hnext (hmod _)]; decide)]
      rfl
    · split
      · rw [List.countP_cons_of_pos (hlead (by decide) (by omega)),
          List.countP_cons_of_neg (by rw [hnext (hmod _)]; decide),
          List.countP_cons_of_neg (by rw [hnext (hmod _)]; decide)]
        rfl
      · rw [List.countP_cons_of_pos (hlead (by decide) (by omega)),
          List.countP_cons_of_neg (by rw [hnext (hmod _)]; decide),
          List.countP_cons_of_neg (by rw [hnext (hmod _)]; decide),
          List.countP_cons_of_neg (by rw [hnext (hmod _)]; decide)]
        rfl

theorem countP_encode (t : List Char) : (encode t).countP isLead = t.length := by
  induction t with
  | nil => rfl
  | cons c t ih =>
      rw [encode_cons, List.countP_append, countP_isLead, ih, List.length_cons, Nat.add_comm]

theorem countP_pieces_le (ps : List Piece) :
    (ps.flatMap Piece.bytes).countP isLead ≤ ps.length := by
  induction ps with
  | nil => exact Nat.le_refl 0
  | cons p ps ih =>
      have hone : p.bytes.countP isLead ≤ 1 := by
        cases p with
        | char c => exact Nat.le_of_eq (countP_isLead c)
        | byte b => exact List.countP_le_length
      rw [List.flatMap_cons, List.countP_append, List.length_cons]
      omega

/-- UTF-8; a run that is no UTF-8 becomes a replacement character. -/
def Decoder.utf8 : Decoder where
  read b := (decode b).getD ['\ufffd']
  read_encode t := by rw [decode_encode]; rfl
  length_le b := by
    cases h : decode b with
    | none =>
        have hne : b ≠ [] := by
          rintro rfl
          rw [← encode_nil, decode_encode] at h
          exact nomatch h
        exact List.length_pos_iff.mpr hne
    | some t =>
        rw [← decode_eq_some.mp h]
        exact length_le_encode t
  length_pieces_le ps := by
    cases h : decode (ps.flatMap Piece.bytes) with
    | none =>
        have hne : ps ≠ [] := by
          rintro rfl
          rw [List.flatMap_nil, ← encode_nil, decode_encode] at h
          exact nomatch h
        exact List.length_pos_iff.mpr hne
    | some t =>
        have hcount := countP_pieces_le ps
        rw [← decode_eq_some.mp h, countP_encode] at hcount
        exact hcount

/-! ## Escaping what is not kept -/

theorem percentEncode_append (keep : Char → Bool) (s t : List Char) :
    percentEncode keep (s ++ t) = percentEncode keep s ++ percentEncode keep t :=
  List.flatMap_append

theorem percentEncode_cons (keep : Char → Bool) (c : Char) (s : List Char) :
    percentEncode keep (c :: s) =
      (if keep c then [c] else (String.utf8EncodeChar c).flatMap escape) ++ percentEncode keep s :=
  List.flatMap_cons

/-- A text that is kept. -/
theorem percentEncode_self {keep : Char → Bool} {s : List Char} (h : ∀ c ∈ s, keep c = true) :
    percentEncode keep s = s := by
  induction s with
  | nil => rfl
  | cons c s ih =>
      obtain ⟨hc, hs⟩ := List.forall_mem_cons.mp h
      rw [percentEncode_cons, if_pos hc, ih hs]
      rfl

/-- A character is escaped with `%` and more. -/
theorem escapes_front (c : Char) :
    ∃ a r, (String.utf8EncodeChar c).flatMap escape = '%' :: a :: r := by
  have hlen : 0 < (String.utf8EncodeChar c).length := by
    rw [String.length_utf8EncodeChar]
    exact Char.utf8Size_pos c
  obtain ⟨b, bs, hb⟩ := List.exists_cons_of_length_pos hlen
  rw [hb]
  exact ⟨_, _, rfl⟩

section Keep
variable {keep : Char → Bool} (hpercent : keep '%' = true)
  (hhex : ∀ c, (Rfc8259.hexVal c).isSome = true → keep c = true)
include hpercent hhex

/-- An escape is kept. -/
theorem keep_escape (b : UInt8) : ∀ c ∈ escape b, keep c = true := by
  have hlt : b.toNat < 256 := b.toNat_lt
  have hdigit : ∀ n < 16, keep (upperHex n) = true := fun n hn =>
    hhex _ (by rw [hexVal_upperHex hn]; rfl)
  rw [escape, List.forall_mem_cons, List.forall_mem_cons, List.forall_mem_singleton]
  exact ⟨hpercent, hdigit _ (by omega), hdigit _ (by omega)⟩

/-- **Escaping twice**: what the first time leaves, the second may escape. -/
theorem percentEncode_percentEncode (k : Char → Bool) (s : List Char) :
    percentEncode keep (percentEncode k s) = percentEncode (fun c => k c && keep c) s := by
  induction s with
  | nil => rfl
  | cons c s ih =>
      rw [percentEncode_cons, percentEncode_cons, percentEncode_append, ih]
      congr 1
      by_cases hk : k c = true
      · rw [if_pos hk, hk, Bool.true_and, percentEncode, List.flatMap_singleton]
      · rw [if_neg hk, Bool.not_eq_true] at *
        rw [hk, Bool.false_and, if_neg Bool.false_ne_true]
        refine percentEncode_self fun d hd => ?_
        obtain ⟨b, -, hb⟩ := List.mem_flatMap.mp hd
        exact keep_escape hpercent hhex b d hb

omit hpercent in
/-- No escape begins where none began before. -/
theorem opensEscape_percentEncode (s : List Char) :
    opensEscape (percentEncode keep s) = opensEscape s := by
  have hnone : ∀ {c : Char}, ¬ keep c = true → Rfc8259.hexVal c = none := by
    intro c hc
    by_contra hsome
    exact hc (hhex c (Option.isSome_iff_ne_none.mpr hsome))
  have hmark : ∀ {a b : Char}, Rfc8259.hexVal a = none ∨ Rfc8259.hexVal b = none →
      ∀ r, opensEscape (a :: b :: r) = false := by
    intro a b hab r
    rw [opensEscape, hexByte_none hab]
    rfl
  rcases s with _ | ⟨a, s⟩
  · rfl
  rw [percentEncode_cons]
  by_cases ha : keep a = true
  · rw [if_pos ha, List.singleton_append]
    rcases s with _ | ⟨b, s⟩
    · rfl
    rw [percentEncode_cons]
    by_cases hb : keep b = true
    · rw [if_pos hb]
      rfl
    · obtain ⟨d, r, hr⟩ := escapes_front b
      rw [if_neg hb, hr, List.cons_append, hmark (.inr rfl), hmark (.inr (hnone hb))]
  · obtain ⟨d, r, hr⟩ := escapes_front a
    rw [if_neg ha, hr, List.cons_append, List.cons_append, hmark (.inl rfl)]
    rcases s with _ | ⟨b, s⟩
    · rfl
    · rw [hmark (.inl (hnone ha))]

/-- **What is read** of an escaped text: no more characters than its own
characters and escapes.  The bytes of the escapes before it are in `ps`. -/
theorem length_assemble_percentEncode_le (C : Decoder) (s : List Char) (ps : List Piece) :
    (assemble C.toCharset (ps.flatMap Piece.bytes) (units (percentEncode keep s))).length ≤
      ps.length + (units s).length := by
  have hsnoc : ∀ (ps : List Piece) (p : Piece),
      (ps ++ [p]).flatMap Piece.bytes = ps.flatMap Piece.bytes ++ p.bytes := by
    intro ps p
    rw [List.flatMap_append, List.flatMap_singleton]
  -- a character that is kept, and is no escape's
  have hchar : ∀ {c : Char} {s : List Char} {ps : List Piece},
      (assemble C.toCharset (([] : List Piece).flatMap Piece.bytes)
        (units (percentEncode keep s))).length ≤ 0 + (units s).length →
      (c = '%' && opensEscape s) = false →
      (assemble C.toCharset (ps.flatMap Piece.bytes) (units (c :: percentEncode keep s))).length ≤
        ps.length + (units (c :: s)).length := by
    intro c s ps ih hc
    have hread := C.length_pieces_le ps
    rw [units_char hc, units_char (by rwa [opensEscape_percentEncode hhex])]
    show (C.read _ ++ _ :: assemble C.toCharset [] _).length ≤ _
    rw [List.length_append, List.length_cons, List.length_cons]
    rw [List.flatMap_nil] at ih
    omega
  induction s using units.induct generalizing ps with
  | case1 a b s x hx ih =>
      have hdigits : keep a = true ∧ keep b = true := by
        rw [hexByte] at hx
        split at hx
        · next m n hm hn => exact ⟨hhex a (by rw [hm]; rfl), hhex b (by rw [hn]; rfl)⟩
        · cases hx
      have hkeep : percentEncode keep ('%' :: a :: b :: s) =
          '%' :: a :: b :: percentEncode keep s := by
        rw [percentEncode_cons, percentEncode_cons, percentEncode_cons, if_pos hpercent,
          if_pos hdigits.1, if_pos hdigits.2]
        rfl
      have hlen := ih (ps ++ [.byte x])
      rw [hsnoc, List.length_append, List.length_singleton] at hlen
      rw [hkeep, units, hx, units, hx, List.length_cons]
      show (assemble C.toCharset (ps.flatMap Piece.bytes ++ [x]) _).length ≤ _
      exact hlen.trans (by omega)
  | case2 a b s hx ih =>
      have hno : opensEscape (a :: b :: s) = false := by
        rw [opensEscape, hx]
        rfl
      rw [percentEncode_cons, if_pos hpercent]
      exact hchar (ih []) (by rw [hno, Bool.and_false])
  | case3 c s hc ih =>
      rw [percentEncode_cons]
      by_cases hk : keep c = true
      · rw [if_pos hk]
        refine hchar (ih []) ?_
        by_contra hyes
        rw [Bool.not_eq_false, Bool.and_eq_true, decide_eq_true_eq] at hyes
        obtain ⟨rfl, hopens⟩ := hyes
        rcases s with _ | ⟨a, _ | ⟨b, r⟩⟩
        · exact Bool.noConfusion hopens
        · exact Bool.noConfusion hopens
        · exact hc a b r rfl rfl
      · have hne : c ≠ '%' := by
          rintro rfl
          exact hk hpercent
        have hlen := ih (ps ++ [.char c])
        rw [hsnoc, List.length_append, List.length_singleton] at hlen
        rw [if_neg hk, units_escapes, assemble_bytes, units_cons hne, List.length_cons]
        exact hlen.trans (by omega)
  | case4 => exact C.length_pieces_le ps

omit hpercent in
/-- **A text without escapes** is read as itself, with spaces for `+`. -/
theorem formDecode_percentEncode (C : Charset) (hplus : keep '+' = true) {s : List Char}
    (h : hasEscape s = false) : formDecode C (percentEncode keep s) = s.map plus := by
  have hread : ReadsAs (units (percentEncode keep s)) (s.map plus) := by
    induction s with
    | nil => exact ReadsAs.nil
    | cons c s ih =>
        rw [hasEscape, Bool.or_eq_false_iff] at h
        have ih := ih h.2
        rw [percentEncode_cons, List.map_cons]
        by_cases hk : keep c = true
        · have hopens : (c = '%' && opensEscape (percentEncode keep s)) = false := by
            rw [opensEscape_percentEncode hhex]
            exact h.1
          rw [if_pos hk, List.singleton_append, units_char hopens]
          exact (readsAs_char (plus c)).append ih
        · have hc : plus c = c := by
            rw [plus, if_neg]
            rintro rfl
            exact hk hplus
          have hbytes : encode [c] = String.utf8EncodeChar c := List.append_nil _
          rw [if_neg hk, units_escapes, hc, ← hbytes]
          exact (readsAs_bytes [c]).append ih
  exact hread.assemble_eq C

end Keep

/-! ## A browser -/

/-- The characters that a query of an http URL keeps. -/
def isQueryChar (c : Char) : Bool :=
  0x21 ≤ c.toNat && c.toNat ≤ 0x7e && c ≠ '"' && c ≠ '<' && c ≠ '>' && c ≠ '\''

/-- A blank or a control, which is taken off the ends of a URL. -/
def isC0OrSpace (c : Char) : Bool := c.toNat ≤ 0x20

/-- A tab or a line end, which is dropped. -/
def isDropped (c : Char) : Bool := c = '\t' || c = '\n' || c = '\r'

/-- What is left of the end of a URL. -/
def trimEnd (s : List Char) : List Char :=
  (s.rdropWhile isC0OrSpace).filter fun c => !isDropped c

/-- **`open`**: the URL that is requested.  What stands before the query consists
of characters that are kept, and what comes after `#` is not sent. -/
def opened (url : List Char) : List Char :=
  percentEncode isQueryChar (trimEnd (url.dropWhile isC0OrSpace))

theorem isQueryChar_hex (c : Char) (h : (Rfc8259.hexVal c).isSome = true) :
    isQueryChar c = true := by
  have hne : ∀ d ∈ ['"', '<', '>', '\''], c ≠ d := by
    have hall : ∀ d ∈ ['"', '<', '>', '\''], (Rfc8259.hexVal d).isSome = false := by decide
    rintro d hd rfl
    exact Bool.noConfusion (h.symm.trans (hall c hd))
  have hrange : 0x30 ≤ c.toNat ∧ c.toNat ≤ 0x66 := by
    have htoNat : ∀ {a b : Char}, a ≤ c ∧ c ≤ b → a.toNat ≤ c.toNat ∧ c.toNat ≤ b.toNat :=
      fun h => ⟨h.1, h.2⟩
    rw [Rfc8259.hexVal] at h
    split at h
    · next hd => exact ⟨(htoNat hd).1, (htoNat hd).2.trans (by decide)⟩
    · split at h
      · next hd => exact ⟨Nat.le_trans (by decide) (htoNat hd).1, (htoNat hd).2⟩
      · split at h
        · next hd => exact ⟨Nat.le_trans (by decide) (htoNat hd).1, (htoNat hd).2.trans (by decide)⟩
        · exact nomatch h
  simp only [List.forall_mem_cons] at hne
  obtain ⟨hquote, hless, hgreater, happostrophe, -⟩ := hne
  simp only [isQueryChar, Bool.and_eq_true, decide_eq_true_eq]
  exact ⟨⟨⟨⟨⟨by omega, by omega⟩, hquote⟩, hless⟩, hgreater⟩, happostrophe⟩

theorem not_isC0OrSpace {c : Char} (h : isQueryChar c = true) : isC0OrSpace c = false := by
  simp only [isQueryChar, Bool.and_eq_true, decide_eq_true_eq] at h
  rw [isC0OrSpace, decide_eq_false_iff_not]
  omega

/-- What is dropped is a control. -/
theorem not_isDropped {c : Char} (h : isC0OrSpace c = false) : isDropped c = false := by
  have hall : ∀ d ∈ ['\t', '\n', '\r'], isC0OrSpace d = true := by decide
  have hne : ∀ d ∈ ['\t', '\n', '\r'], c ≠ d := by
    rintro d hd rfl
    exact Bool.noConfusion (h.symm.trans (hall c hd))
  simp only [List.forall_mem_cons] at hne
  obtain ⟨htab, hlf, hcr, -⟩ := hne
  simp [isDropped, htab, hlf, hcr]

theorem trimEnd_sublist (s : List Char) : (trimEnd s).Sublist s :=
  List.filter_sublist.trans (List.rdropWhile_prefix _ _).sublist

/-- Nothing is taken off. -/
theorem trimEnd_eq_self {s : List Char} (h : ∀ c ∈ s, isC0OrSpace c = false) : trimEnd s = s := by
  have hend : s.rdropWhile isC0OrSpace = s := by
    refine List.rdropWhile_eq_self_iff.mpr fun hne hlast => ?_
    rw [h _ (List.getLast_mem hne)] at hlast
    exact Bool.noConfusion hlast
  rw [trimEnd, hend, List.filter_eq_self]
  intro c hc
  rw [not_isDropped (h c hc)]
  rfl

/-- What is kept stays, whatever is taken off after it. -/
theorem rdropWhile_append_kept {front : List Char} (h : ∀ c ∈ front, isC0OrSpace c = false)
    (s : List Char) : (front ++ s).rdropWhile isC0OrSpace = front ++ s.rdropWhile isC0OrSpace := by
  induction s using List.reverseRecOn with
  | nil =>
      rw [List.append_nil, List.rdropWhile_nil, List.append_nil]
      refine List.rdropWhile_eq_self_iff.mpr fun hl => ?_
      rw [h _ (List.getLast_mem hl)]
      decide
  | append_singleton s c ih =>
      rw [← List.append_assoc, List.rdropWhile_concat, List.rdropWhile_concat, ih]
      split
      · rfl
      · exact List.append_assoc ..

/-- The end of a URL is opened by itself. -/
theorem opened_append {front : List Char} (hfront : ∀ c ∈ front, isQueryChar c = true)
    (hne : front ≠ []) (s : List Char) :
    opened (front ++ s) = front ++ percentEncode isQueryChar (trimEnd s) := by
  have hkept : ∀ c ∈ front, isC0OrSpace c = false := fun c hc => not_isC0OrSpace (hfront c hc)
  have hstart : (front ++ s).dropWhile isC0OrSpace = front ++ s := by
    obtain ⟨c, r, rfl⟩ := List.exists_cons_of_ne_nil hne
    refine List.dropWhile_cons_of_neg ?_
    rw [hkept c List.mem_cons_self]
    decide
  have hfilter : front.filter (fun c => !isDropped c) = front := by
    refine List.filter_eq_self.mpr fun c hc => ?_
    rw [not_isDropped (hkept c hc)]
    rfl
  rw [opened, hstart, trimEnd, rdropWhile_append_kept hkept, List.filter_append, hfilter,
    percentEncode_append, percentEncode_self hfront, trimEnd]

/-- Nothing is taken off an escaped text that keeps no blanks and controls. -/
theorem trimEnd_percentEncode {keep : Char → Bool}
    (hkeep : ∀ c, isC0OrSpace c = true → keep c = false) (s : List Char) : trimEnd (percentEncode keep s) = percentEncode keep s := by
  refine trimEnd_eq_self fun c hc => ?_
  obtain ⟨d, -, hd⟩ := List.mem_flatMap.mp hc
  split at hd
  · next hyes =>
      obtain rfl := List.mem_singleton.mp hd
      by_contra hblank
      rw [hkeep c (Bool.not_eq_false _ ▸ hblank)] at hyes
      exact Bool.noConfusion hyes
  · obtain ⟨b, -, hb⟩ := List.mem_flatMap.mp hd
    exact not_isC0OrSpace (keep_escape (by decide) isQueryChar_hex b c hb)

/-- **What is read of the end of an opened URL**: no more characters than were
written, and as many only if nothing in it was special but `+`. -/
theorem formDecode_opened (C : Decoder) (s : List Char) :
    (formDecode C.toCharset (cut (percentEncode isQueryChar (trimEnd s)))).length ≤ s.length ∧
      (s.length ≤ (formDecode C.toCharset (cut (percentEncode isQueryChar (trimEnd s)))).length →
        '&' ∉ s ∧ '#' ∉ s ∧ hasEscape s = false ∧
          formDecode C.toCharset (cut (percentEncode isQueryChar (trimEnd s))) = s.map plus) := by
  have hcut := @cut_percentEncode isQueryChar (by decide) (by decide) (trimEnd s)
  have hread := @length_assemble_percentEncode_le isQueryChar (by decide) isQueryChar_hex C
    (cut (trimEnd s)) []
  obtain ⟨hunits, hescape⟩ := length_units_le (cut (trimEnd s))
  have hcutLen := length_cut_le (trimEnd s)
  have htrim := (trimEnd_sublist s).length_le
  rw [List.flatMap_nil, List.length_nil, Nat.zero_add, ← formDecode, ← hcut] at hread
  refine ⟨by omega, fun hlen => ?_⟩
  have hs : trimEnd s = s := (trimEnd_sublist s).eq_of_length_le (by omega)
  have hfree : hasEscape (cut (trimEnd s)) = false := by
    by_contra hyes
    have := hescape (Bool.not_eq_false _ ▸ hyes)
    omega
  obtain ⟨hamp, hhash⟩ := not_mem_of_length_cut (v := trimEnd s) (by omega)
  rw [cut_eq_self hamp hhash] at hfree hcut
  rw [hs] at hamp hhash hfree hcut ⊢
  refine ⟨hamp, hhash, hfree, ?_⟩
  rw [hcut]
  exact formDecode_percentEncode isQueryChar_hex C.toCharset (by decide) hfree

theorem toNat_of_isAlphanum {c : Char} (h : c.isAlphanum = true) :
    0x30 ≤ c.toNat ∧ c.toNat ≤ 0x7a := by
  have hval : c.toNat = c.val.toNat := rfl
  replace h : (((decide (c.val ≥ 'A'.val ∧ c.val ≤ 'Z'.val)) ||
    (c.val ≥ 'a'.val && c.val ≤ 'z'.val)) || (c.val ≥ '0'.val && c.val ≤ '9'.val)) = true := h
  simp [UInt32.le_iff_toNat_le] at h
  omega

/-! ## Connections -/

/-- The characters of a query, by the standard for URLs; escapes have `%` too. -/
def isUrlChar (c : Char) : Bool := c.isAlphanum || c ∈ "-._~!$&'()*+,;=:@/?".toList

/-- White space and controls. -/
def isBlank (c : Char) : Bool := c.toNat ≤ 0x20 || c.toNat = 0x7f

/-- **A connection** sends what may stand in a URL, and no white space.  Which of
the other characters it sends, and what its receiver is sent in place of a URL
with one that it does not send, is the platform's. -/
structure Connection where
  carries : Char → Bool
  altered : List Char → List Char
  carries_url : ∀ c, isUrlChar c = true → carries c = true
  carries_blank : ∀ c, isBlank c = true → carries c = false

/-- A URL in which every character is carried or begins an escape. -/
def sends (carries : Char → Bool) : List Char → Bool
  | [] => true
  | c :: s => ((c = '%' && opensEscape s) || carries c) && sends carries s

/-- What the receiver is sent. -/
def Connection.delivers (C : Connection) (url : List Char) : List Char :=
  if sends C.carries url then url else C.altered url

/-- Nothing but the characters of URLs. -/
def Connection.strict : Connection where
  carries := isUrlChar
  altered _ := []
  carries_url _ h := h
  carries_blank c h := by
    have hlow : ∀ n < 0x21, isUrlChar (Char.ofNat n) = false := by decide
    rw [isBlank, Bool.or_eq_true, decide_eq_true_eq, decide_eq_true_eq] at h
    rw [← Char.ofNat_toNat c]
    rcases h with h | h
    · exact hlow _ (Nat.lt_succ_of_le h)
    · rw [h]
      decide

theorem opensEscape_append_of {s : List Char} (h : opensEscape s = true) (x : List Char) :
    opensEscape (s ++ x) = true := by
  match s, h with
  | _ :: _ :: _, h => exact h

/-- **The front of a URL**, written in the characters of URLs. -/
theorem sends_front (C : Connection) {front : List Char} (h : sends isUrlChar front = true)
    (s : List Char) : sends C.carries (front ++ s) = sends C.carries s := by
  induction front with
  | nil => rfl
  | cons c front ih =>
      rw [sends, Bool.and_eq_true, Bool.or_eq_true, Bool.and_eq_true] at h
      have hc : ((c = '%' && opensEscape (front ++ s)) || C.carries c) = true := by
        rw [Bool.or_eq_true, Bool.and_eq_true]
        exact h.1.imp (fun h => ⟨h.1, opensEscape_append_of h.2 s⟩) (C.carries_url c)
      rw [List.cons_append, sends, hc, Bool.true_and, ih h.2]

/-- **A text without escapes**, and what follows it. -/
theorem sends_append (C : Connection) {x : List Char} (hx : ∀ c ∈ x.head?, Rfc8259.hexVal c = none)
    {s : List Char} (h : hasEscape s = false) :
    sends C.carries (s ++ x) = (s.all C.carries && sends C.carries x) := by
  induction s with
  | nil => rfl
  | cons c s ih =>
      rw [hasEscape, Bool.or_eq_false_iff] at h
      rw [List.cons_append, sends, opensEscape_append hx, h.1, Bool.false_or, ih h.2, List.all_cons,
        Bool.and_assoc]

/-- **A value between the parts of a URL.** -/
theorem sends_between (C : Connection) {front tail : List Char}
    (hfront : sends isUrlChar front = true) (htail : sends isUrlChar tail = true)
    (hx : ∀ c ∈ tail.head?, Rfc8259.hexVal c = none)
    {s : List Char} (h : hasEscape s = false) :
    sends C.carries (front ++ (s ++ tail)) = s.all C.carries := by
  have hnil := sends_front C htail []
  rw [List.append_nil] at hnil
  rw [sends_front C hfront, sends_append C hx h, hnil, sends, Bool.and_true]

theorem Connection.delivers_of_sends {C : Connection} {url : List Char}
    (h : sends C.carries url = true) : C.delivers url = url := if_pos h

end Url
