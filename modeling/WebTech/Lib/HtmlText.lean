/-
# `WebTech.Lib.HtmlText` — what a text becomes before an end tag

A text that is written in front of a tag or of a reference comes back as its
characters when it is plain: no reference, no character 0, and no `<` that opens
markup.  Any other comes back shorter, or is cut by a tag or a comment.

    inside markup the next token is no character            (`run_markup`)
    inside a start tag the attributes read so far stay       (`run_startTag`)
    a text before markup or a reference                      (`read_before`)
    a text before an end tag                                 (`read_text`)
-/
import WebTech.Lib.Html

namespace Html

/-! ## Inside markup -/

/-- The tag that is being read. -/
def State.tag : State → Option Tag
  | .tagName t => some t
  | .beforeAttrName t => some t
  | .attrName t _ => some t
  | .afterAttrName t _ => some t
  | .beforeAttrValue t _ => some t
  | .attrValueDouble t _ _ => some t
  | .attrValueSingle t _ _ => some t
  | .attrValueUnquoted t _ _ => some t
  | .afterAttrValue t => some t
  | .selfClosing t => some t
  | _ => none

/-- The states of comments, doctypes and of content that is no markup. -/
def State.isComment : State → Bool
  | .markup _ => true
  | .comment _ => true
  | .bogusComment _ => true
  | .doctype _ => true
  | .raw _ => true
  | _ => false

/-- The next token is no character. -/
def NoChar (ts : List Token) : Prop := ∀ c ts', ts ≠ .char c :: ts'

theorem NoChar.nil : NoChar [] := nofun

/-- The characters before the next token are determined. -/
theorem map_char_append_inj {s t : List Char} {xs ys : List Token} (hx : NoChar xs) (hy : NoChar ys)
    (h : s.map .char ++ xs = t.map .char ++ ys) : s = t ∧ xs = ys := by
  induction s generalizing t with
  | nil =>
      cases t with
      | nil => exact ⟨rfl, h⟩
      | cons c t => exact absurd h (hx c _)
  | cons c s ih =>
      cases t with
      | nil => exact absurd h.symm (hy c _)
      | cons d t =>
          obtain ⟨hcd, htail⟩ := List.cons.inj h
          cases hcd
          obtain ⟨rfl, hrest⟩ := ih htail
          exact ⟨rfl, hrest⟩

section Markup
variable (E : Entities)

/-- The attributes of a tag after another was added to it. -/
theorem attrs_add (t : Tag) (n v : List Char) :
    t.attrs <+: (t.add E n v).attrs ∧ (t.add E n v).isEnd = t.isEnd := by
  rw [Tag.add]
  split
  · exact ⟨List.prefix_rfl, rfl⟩
  · exact ⟨List.prefix_append _ _, rfl⟩

/-- **What a step inside a tag does**: the tag grows, or it is emitted. -/
def Grows (t : Tag) (r : List Token × State) : Prop :=
  (∃ t', r.1 = [] ∧ r.2.tag = some t' ∧ t.attrs <+: t'.attrs ∧ t'.isEnd = t.isEnd) ∨
  (∃ t' selfClosing, r = emit t' selfClosing ∧ t.attrs <+: t'.attrs ∧ t'.isEnd = t.isEnd)

theorem Grows.stay {t t' : Tag} {st : State} (h : st.tag = some t') (hp : t.attrs <+: t'.attrs)
    (he : t'.isEnd = t.isEnd) : Grows t ([], st) :=
  .inl ⟨t', rfl, h, hp, he⟩

theorem Grows.same {t : Tag} {st : State} (h : st.tag = some t) : Grows t ([], st) :=
  Grows.stay h List.prefix_rfl rfl

theorem Grows.added {t : Tag} {st : State} {n v : List Char} (h : st.tag = some (t.add E n v)) :
    Grows t ([], st) :=
  Grows.stay h (attrs_add E t n v).1 (attrs_add E t n v).2

theorem Grows.emit (t : Tag) (selfClosing : Bool) : Grows t (emit t selfClosing) :=
  .inr ⟨t, selfClosing, rfl, List.prefix_rfl, rfl⟩

theorem Grows.emitAdded (t : Tag) (n v : List Char) (selfClosing : Bool) :
    Grows t (Html.emit (t.add E n v) selfClosing) :=
  .inr ⟨t.add E n v, selfClosing, rfl, (attrs_add E t n v).1, (attrs_add E t n v).2⟩

theorem grows_beforeAttrName (t : Tag) (c : Char) : Grows t (beforeAttrNameStep t c) := by
  rw [beforeAttrNameStep]
  repeat' split
  · exact Grows.same rfl
  · exact Grows.same rfl
  · exact Grows.emit t false
  · exact Grows.same rfl

theorem grows_afterAttrName (t : Tag) (n : List Char) (c : Char) :
    Grows t (afterAttrNameStep E t n c) := by
  rw [afterAttrNameStep]
  repeat' split
  · exact Grows.same rfl
  · exact Grows.added E rfl
  · exact Grows.same rfl
  · exact Grows.emitAdded E t n [] false
  · exact Grows.added E rfl

theorem grows_step {st : State} {t : Tag} (h : st.tag = some t) (c : Char) :
    Grows t (step E st c) := by
  cases st with
  | tagName t =>
      cases h
      rw [step, tagNameStep]
      repeat' split
      · exact Grows.same rfl
      · exact Grows.same rfl
      · exact Grows.emit t false
      · exact Grows.stay rfl List.prefix_rfl rfl
  | beforeAttrName t =>
      cases h
      exact grows_beforeAttrName t c
  | attrName t n =>
      cases h
      rw [step, attrNameStep]
      repeat' split
      · exact grows_afterAttrName E t n c
      · exact Grows.same rfl
      · exact Grows.same rfl
  | afterAttrName t n =>
      cases h
      exact grows_afterAttrName E t n c
  | beforeAttrValue t n =>
      cases h
      rw [step, beforeAttrValueStep]
      repeat' split
      · exact Grows.same rfl
      · exact Grows.same rfl
      · exact Grows.same rfl
      · exact Grows.emitAdded E t n [] false
      · exact Grows.same rfl
  | attrValueDouble t n v =>
      cases h
      rw [step]
      split
      · exact Grows.added E rfl
      · exact Grows.same rfl
  | attrValueSingle t n v =>
      cases h
      rw [step]
      split
      · exact Grows.added E rfl
      · exact Grows.same rfl
  | attrValueUnquoted t n v =>
      cases h
      rw [step, unquotedStep]
      repeat' split
      · exact Grows.added E rfl
      · exact Grows.emitAdded E t n v false
      · exact Grows.same rfl
  | afterAttrValue t =>
      cases h
      rw [step, afterAttrValueStep]
      repeat' split
      · exact Grows.same rfl
      · exact Grows.same rfl
      · exact Grows.emit t false
      · exact grows_beforeAttrName t c
  | selfClosing t =>
      cases h
      rw [step, selfClosingStep]
      split
      · exact Grows.emit t true
      · exact grows_beforeAttrName t c
  | data _ | tagOpen | endTagOpen | markup _ | comment _ | bogusComment _ | doctype _ | raw _ =>
      exact nomatch h

/-- Inside a tag the text ends, or the tag does. -/
theorem run_tag : ∀ (s : List Char) {st : State} {t : Tag}, st.tag = some t →
    run E st s = [] ∨ ∃ t' selfClosing rest, run E st s = (emit t' selfClosing).1 ++ rest ∧
      t.attrs <+: t'.attrs ∧ t'.isEnd = t.isEnd
  | [], st, t, h => by
      refine .inl ?_
      cases st with
      | data _ | tagOpen | endTagOpen | markup _ | comment _ | bogusComment _ | doctype _ | raw _ =>
          exact nomatch h
      | _ => rfl
  | c :: s, st, t, h => by
      rw [run]
      rcases grows_step E h c with ⟨t', hout, htag, hp, he⟩ | ⟨t', sc, hemit, hp, he⟩
      · rw [hout, List.nil_append]
        rcases run_tag s htag with hnil | ⟨t'', sc, rest, hrun, hp', he'⟩
        · exact .inl hnil
        · exact .inr ⟨t'', sc, rest, hrun, hp.trans hp', he'.trans he⟩
      · rw [hemit]
        exact .inr ⟨t', sc, _, rfl, hp, he⟩

/-- **Inside a start tag** the attributes read so far stay the first ones. -/
theorem run_startTag (s : List Char) {st : State} {t : Tag} (h : st.tag = some t)
    (hstart : t.isEnd = false) :
    run E st s = [] ∨ ∃ name attrs selfClosing rest,
      run E st s = .startTag name attrs selfClosing :: rest ∧ t.attrs <+: attrs := by
  rcases run_tag E s h with hnil | ⟨t', sc, rest, hrun, hp, he⟩
  · exact .inl hnil
  · rw [emit, he, hstart] at hrun
    exact .inr ⟨t'.name, t'.attrs, sc, rest, hrun, hp⟩

theorem noChar_tag (s : List Char) {st : State} {t : Tag} (h : st.tag = some t) :
    NoChar (run E st s) := by
  rcases run_tag E s h with hnil | ⟨t', sc, rest, hrun, -, -⟩
  · rw [hnil]
    exact NoChar.nil
  · rw [hrun, emit]
    split
    · exact nofun
    · exact nofun

/-- A step inside a comment: no token, or the comment. -/
theorem step_comment {st : State} (h : st.isComment = true) (c : Char) :
    ((step E st c).1 = [] ∧ (step E st c).2.isComment = true) ∨
      ∃ tok, (step E st c).1 = [tok] ∧ NoChar [tok] := by
  have hbogus : ∀ s, ((bogusCommentStep s c).1 = [] ∧ (bogusCommentStep s c).2.isComment = true) ∨
      ∃ tok, (bogusCommentStep s c).1 = [tok] ∧ NoChar [tok] := by
    intro s
    rw [bogusCommentStep]
    split
    · exact .inr ⟨_, rfl, nofun⟩
    · exact .inl ⟨rfl, rfl⟩
  cases st with
  | markup s =>
      rw [step, markupStep]
      repeat' split
      · exact .inl ⟨rfl, rfl⟩
      · exact .inl ⟨rfl, rfl⟩
      · exact .inl ⟨rfl, rfl⟩
      · exact hbogus s
  | comment s =>
      rw [step, commentStep]
      split
      · exact .inr ⟨_, rfl, nofun⟩
      · exact .inl ⟨rfl, rfl⟩
  | bogusComment s => exact hbogus s
  | doctype s =>
      rw [step, doctypeStep]
      split
      · exact .inr ⟨_, rfl, nofun⟩
      · exact .inl ⟨rfl, rfl⟩
  | raw s => exact .inl ⟨rfl, rfl⟩
  | _ => exact nomatch h

theorem noChar_comment : ∀ (s : List Char) {st : State}, st.isComment = true → NoChar (run E st s)
  | [], st, h => by
      cases st with
      | markup _ | comment _ | bogusComment _ | doctype _ | raw _ => exact nofun
      | _ => exact nomatch h
  | c :: s, st, h => by
      rw [run]
      rcases step_comment E h c with ⟨hout, hst⟩ | ⟨tok, hout, htok⟩
      · rw [hout, List.nil_append]
        exact noChar_comment s hst
      · rw [hout]
        rintro d ts' ⟨⟩
        exact htok d [] rfl

/-! ## A text before a tag or a reference -/

/-- After such a character a `<` opens markup. -/
def startsMarkup (c : Char) : Bool := c = '!' || c = '/' || isAlpha c || c = '?'

def opensMarkup : List Char → Bool
  | [] => false
  | c :: s => (c = '<' && s.head?.any startsMarkup) || opensMarkup s

/-- **A plain text**: no reference, no character 0, no markup. -/
structure IsPlain (s : List Char) : Prop where
  noReference : decode E false s = s
  noNull : '\x00' ∉ s
  noMarkup : opensMarkup s = false

/-- What a text in front of `after` comes back as: its decoded characters, when
it opens no markup, or fewer than these. -/
def ReadAs (s : List Char) (after ts : List Token) : Prop :=
  ∃ u rest, ts = u.map .char ++ rest ∧
    (opensMarkup s = false ∧ u = textOf E s ∧ rest = after ∨
      opensMarkup s = true ∧ u.length < (textOf E s).length ∧ (rest = after ∨ NoChar rest))

theorem isBoundary_lt : isBoundary '<' = true := by decide

theorem isBoundary_amp : isBoundary '&' = true := by decide

theorem decode_cons_lt (s : List Char) : decode E false ('<' :: s) = '<' :: decode E false s :=
  decode_append E false isBoundary_lt (by decide) [] s

theorem textOf_cons_lt (s : List Char) : textOf E ('<' :: s) = '<' :: textOf E s := by
  rw [textOf, decode_cons_lt]
  rfl

/-- A run of text is decoded piece by piece. -/
theorem textOf_piece {x : Char} (hx : isBoundary x = true) (s t : List Char) :
    textOf E (s ++ x :: t) = textOf E s ++ textOf E (x :: t) := by
  rw [textOf, decode_piece E false hx, List.filter_append]
  rfl

theorem textOf_append_lt (s t : List Char) :
    textOf E (s ++ '<' :: t) = textOf E s ++ '<' :: textOf E t := by
  rw [textOf_piece E isBoundary_lt, textOf_cons_lt]

theorem opensMarkup_append {s : List Char} (h : '<' ∉ s) (t : List Char) :
    opensMarkup (s ++ t) = opensMarkup t := by
  induction s with
  | nil => rfl
  | cons c s ih =>
      rw [List.mem_cons, not_or] at h
      rw [List.cons_append, opensMarkup, decide_eq_false fun hc => h.1 hc.symm, ih h.2]
      rfl

theorem opensMarkup_eq_false {s : List Char} (h : '<' ∉ s) : opensMarkup s = false := by
  have happ := opensMarkup_append h []
  rwa [List.append_nil] at happ

/-- A `<` that opens nothing. -/
theorem opensMarkup_cons {c : Char} (hc : startsMarkup c = false) (s : List Char) :
    opensMarkup ('<' :: c :: s) = opensMarkup (c :: s) := by
  rw [opensMarkup, List.head?_cons, Option.any_some, hc, Bool.and_false, Bool.false_or]

theorem opensMarkup_lt {c : Char} (hc : startsMarkup c = true) (s : List Char) :
    opensMarkup ('<' :: c :: s) = true := by
  rw [opensMarkup, List.head?_cons, Option.any_some, hc]
  rfl

/-- The characters of a run of text. -/
theorem textOf_plain {s : List Char} (h : IsPlain E s) : textOf E s = s := by
  rw [textOf, h.noReference]
  refine List.filter_eq_self.mpr fun c hc => decide_eq_true ?_
  rintro rfl
  exact h.noNull hc

theorem length_textOf_le (s : List Char) : (textOf E s).length ≤ s.length :=
  Nat.le_trans (List.length_filter_le _ _) (length_decode_le E false s)

theorem length_textOf_lt {s : List Char} (hs : opensMarkup s = false) (h : ¬ IsPlain E s) :
    (textOf E s).length < s.length := by
  by_contra hge
  have hle := length_decode_le E false s
  have hfilter : (textOf E s).length ≤ (decode E false s).length := List.length_filter_le _ _
  have href : decode E false s = s := decode_eq_self E false (by omega)
  refine h ⟨href, ?_, hs⟩
  intro hnull
  have hlen : ((decode E false s).filter fun c => c ≠ '\x00').length < (decode E false s).length := by
    rw [href]
    exact List.length_filter_lt_length_iff_exists.mpr ⟨_, hnull, by decide⟩
  rw [href] at hlen
  exact hge (by rw [textOf, href]; exact hlen)

/-- **Where a text stops**: what follows is read as it would be without the text
in front of it, and makes no markup of a `<`. -/
structure Stops (r : List Char) : Prop where
  data : ∀ acc, run E (.data acc) r = (textOf E acc).map .char ++ run E (.data []) r
  tagOpen : run E .tagOpen r = .char '<' :: run E (.data []) r
  head : ∃ c r', r = c :: r' ∧ isAlpha c = false ∧ c ≠ '>'

theorem stops_lt (r : List Char) : Stops E ('<' :: r) where
  data _ := rfl
  tagOpen := rfl
  head := ⟨'<', r, rfl, rfl, by decide⟩

/-- Where decoding is done piece by piece, so is reading. -/
theorem run_data_piece {acc p u : List Char}
    (h : ∀ t, textOf E (acc ++ (p ++ t)) = u ++ textOf E (p ++ t)) (t r : List Char) :
    run E (.data (acc ++ (p ++ t))) r = u.map .char ++ run E (.data (p ++ t)) r := by
  induction r generalizing t with
  | nil =>
      show (textOf E (acc ++ (p ++ t))).map Token.char = _ ++ (textOf E (p ++ t)).map .char
      rw [h, List.map_append]
  | cons c r ih =>
      by_cases hc : c = '<'
      · subst hc
        show (textOf E (acc ++ (p ++ t))).map Token.char ++ run E .tagOpen r =
          _ ++ ((textOf E (p ++ t)).map .char ++ run E .tagOpen r)
        rw [h, List.map_append, List.append_assoc]
      · have hdata : ∀ t, run E (.data t) (c :: r) = run E (.data (t ++ [c])) r := by
          intro t
          rw [run, step, dataStep, if_neg hc]
          rfl
        rw [hdata, hdata, List.append_assoc, List.append_assoc]
        exact ih (t ++ [c])

theorem stops_amp (r : List Char) : Stops E ('&' :: r) where
  data acc := run_data_piece E (p := ['&']) (textOf_piece E isBoundary_amp acc) [] r
  tagOpen := rfl
  head := ⟨'&', r, rfl, rfl, by decide⟩

/-- A run of text, and what follows its `<`. -/
theorem readAs_append {s t : List Char} {after ts : List Token} (hs : '<' ∉ s)
    (h : ReadAs E ('<' :: t) after ts) :
    ReadAs E (s ++ '<' :: t) after ((textOf E s).map .char ++ ts) := by
  obtain ⟨u, rest, rfl, hcase⟩ := h
  refine ⟨textOf E s ++ u, rest, by rw [List.map_append, List.append_assoc], ?_⟩
  rw [opensMarkup_append hs, textOf_append_lt, ← textOf_cons_lt, List.length_append,
    List.length_append]
  rcases hcase with ⟨hmark, rfl, rfl⟩ | ⟨hmark, hlt, hrest⟩
  · exact .inl ⟨hmark, rfl, rfl⟩
  · exact .inr ⟨hmark, by omega, hrest⟩

/-- A `<` before a character that makes no markup of it. -/
theorem readAs_cons {c : Char} {s : List Char} {after ts : List Token} (hc : startsMarkup c = false)
    (h : ReadAs E (c :: s) after ts) : ReadAs E ('<' :: c :: s) after (.char '<' :: ts) := by
  obtain ⟨u, rest, rfl, hcase⟩ := h
  refine ⟨'<' :: u, rest, rfl, ?_⟩
  rw [opensMarkup_cons hc, textOf_cons_lt]
  rcases hcase with ⟨hmark, rfl, rfl⟩ | ⟨hmark, hlt, hrest⟩
  · exact .inl ⟨hmark, rfl, rfl⟩
  · exact .inr ⟨hmark, Nat.succ_lt_succ hlt, hrest⟩

/-- Markup in the place of a text: nothing of the text comes back before it. -/
theorem readAs_markup {c : Char} {s : List Char} {after ts : List Token} (h : NoChar ts)
    (hc : startsMarkup c = true) : ReadAs E ('<' :: c :: s) after ts := by
  refine ⟨[], ts, rfl, .inr ⟨opensMarkup_lt hc s, ?_, .inr h⟩⟩
  rw [textOf_cons_lt]
  exact Nat.succ_pos _

/-- An end tag without a name is left out. -/
theorem readAs_dropped {s : List Char} {after ts : List Token} (h : ReadAs E s after ts) :
    ReadAs E ('<' :: '/' :: '>' :: s) after ts := by
  obtain ⟨u, rest, rfl, hcase⟩ := h
  have hdecode : decode E false ('/' :: '>' :: s) = '/' :: '>' :: decode E false s := by
    rw [decode, decodeFrom, if_neg (by decide), decodeFrom, if_neg (by decide)]
    rfl
  have htext : textOf E ('<' :: '/' :: '>' :: s) = '<' :: '/' :: '>' :: textOf E s := by
    rw [textOf_cons_lt, textOf, hdecode]
    rfl
  refine ⟨u, rest, rfl, .inr ⟨opensMarkup_lt rfl _, ?_, ?_⟩⟩
  · rw [htext]
    simp only [List.length_cons]
    rcases hcase with ⟨-, rfl, -⟩ | ⟨-, hlt, -⟩
    · omega
    · omega
  · rcases hcase with ⟨-, -, hrest⟩ | ⟨-, -, hrest⟩
    · exact .inl hrest
    · exact hrest

section Before
variable {r : List Char} (hr : Stops E r)
include hr

/-- The texts up to a length, after a run of text and after a `<`. -/
theorem read_upTo (n : Nat) : ∀ s : List Char, s.length ≤ n →
    (∀ acc : List Char, '<' ∉ acc → ReadAs E (acc ++ s) (run E (.data []) r)
      (run E (.data acc) (s ++ r))) ∧
    ReadAs E ('<' :: s) (run E (.data []) r) (run E .tagOpen (s ++ r)) := by
  induction n with
  | zero =>
      intro s hs
      obtain rfl := List.eq_nil_of_length_eq_zero (Nat.le_zero.mp hs)
      constructor
      · intro acc hacc
        rw [List.append_nil]
        exact ⟨textOf E acc, _, hr.data acc, .inl ⟨opensMarkup_eq_false hacc, rfl, rfl⟩⟩
      · exact ⟨['<'], _, hr.tagOpen, .inl ⟨rfl, rfl, rfl⟩⟩
  | succ n ih =>
      intro s hs
      cases s with
      | nil => exact ih [] (Nat.zero_le _)
      | cons c s =>
          have hs' : s.length ≤ n := Nat.le_of_succ_le_succ hs
          constructor
          · intro acc hacc
            rw [List.cons_append, run, step, dataStep]
            split
            · next hc =>
                subst hc
                exact readAs_append E hacc (ih s hs').2
            · next hc =>
                have hacc' : '<' ∉ acc ++ [c] := by
                  rw [List.mem_append, List.mem_singleton, not_or]
                  exact ⟨hacc, fun h => hc h.symm⟩
                have hrec := (ih s hs').1 (acc ++ [c]) hacc'
                rw [List.append_assoc] at hrec
                exact hrec
          · rw [List.cons_append, run, step, tagOpenStep]
            split
            · next hc =>
                subst hc
                exact readAs_markup E (noChar_comment E _ rfl) rfl
            · split
              · next hc =>
                  subst hc
                  -- an end tag, nothing at all, or a bogus comment
                  show ReadAs E _ _ (run E .endTagOpen (s ++ r))
                  cases s with
                  | nil =>
                      obtain ⟨d, r', heq, hd, hgt⟩ := hr.head
                      rw [List.nil_append]
                      generalize run E (.data []) r = after
                      rw [heq, run, step, endTagOpenStep, if_neg (by rw [hd]; decide), if_neg hgt]
                      exact readAs_markup E (noChar_comment E _ rfl) rfl
                  | cons d s =>
                      rw [List.cons_append, run, step, endTagOpenStep]
                      split
                      · exact readAs_markup E (noChar_tag E _ rfl) rfl
                      · split
                        · next hd =>
                            subst hd
                            exact readAs_dropped E ((ih s (by
                              simp only [List.length_cons] at hs'
                              omega)).1 [] List.not_mem_nil)
                        · exact readAs_markup E (noChar_comment E _ rfl) rfl
              · split
                · next hc =>
                    refine readAs_markup E (noChar_tag E _ rfl) ?_
                    rw [startsMarkup, hc, Bool.or_true, Bool.true_or]
                · next hbang hslash halpha =>
                    split
                    · next hc =>
                        subst hc
                        exact readAs_markup E (noChar_comment E _ rfl) rfl
                    · next hquery =>
                        have hc : startsMarkup c = false := by
                          rw [Bool.not_eq_true] at halpha
                          rw [startsMarkup, decide_eq_false hbang, decide_eq_false hslash, halpha,
                            decide_eq_false hquery]
                          rfl
                        refine readAs_cons E hc ?_
                        rw [dataStep]
                        split
                        · next hlt =>
                            subst hlt
                            exact (ih s hs').2
                        · next hlt =>
                            have hacc : '<' ∉ [c] := fun h => hlt (List.mem_singleton.mp h).symm
                            exact (ih s hs').1 [c] hacc

/-- **A text where it stops** comes back decoded, or shorter. -/
theorem read_before (s : List Char) :
    ReadAs E s (run E (.data []) r) (run E (.data []) (s ++ r)) :=
  (read_upTo E hr s.length s (Nat.le_refl _)).1 [] List.not_mem_nil

end Before

/-! ## A text before an end tag -/

/-- What follows the text: an end tag. -/
theorem noChar_endTag {a : Char} (ha : isAlpha a = true) (r : List Char) :
    NoChar (run E .tagOpen ('/' :: a :: r)) := by
  have hopen : run E .tagOpen ('/' :: a :: r) = run E (.tagName ⟨true, [nameChar a], []⟩) r := by
    show (endTagOpenStep a).1 ++ run E (endTagOpenStep a).2 r = _
    rw [endTagOpenStep, if_pos ha]
    rfl
  rw [hopen]
  exact noChar_tag E r rfl

/-- **A text before an end tag** comes back as itself when it is plain, and
shorter otherwise. -/
theorem read_text {a : Char} (ha : isAlpha a = true) (r s : List Char) :
    ∃ u rest, run E (.data []) (s ++ '<' :: '/' :: a :: r) = u.map .char ++ rest ∧ NoChar rest ∧
      (IsPlain E s ∧ u = s ∧ rest = run E .tagOpen ('/' :: a :: r) ∨
        ¬ IsPlain E s ∧ u.length < s.length) := by
  obtain ⟨u, rest, hrun, hcase⟩ := read_before E (stops_lt E ('/' :: a :: r)) s
  have hafter : run E (.data []) ('<' :: '/' :: a :: r) = run E .tagOpen ('/' :: a :: r) := rfl
  have hend := noChar_endTag E ha r
  rw [hafter] at hcase
  refine ⟨u, rest, hrun, ?_, ?_⟩
  · rcases hcase with ⟨-, -, rfl⟩ | ⟨-, -, rfl | hno⟩
    · exact hend
    · exact hend
    · exact hno
  · rcases hcase with ⟨hmark, rfl, hrest⟩ | ⟨hmark, hlt, -⟩
    · by_cases hplain : IsPlain E s
      · exact .inl ⟨hplain, textOf_plain E hplain, hrest⟩
      · exact .inr ⟨hplain, length_textOf_lt E hmark hplain⟩
    · refine .inr ⟨fun hplain => ?_, Nat.lt_of_lt_of_le hlt (length_textOf_le E s)⟩
      rw [hplain.noMarkup] at hmark
      exact nomatch hmark

end Markup

end Html
