/-
# `WebTech.Lib.HtmlValue` — what a value becomes in an attribute

A string that is written where an attribute's value is expected comes back as
the value when nothing in it ends the value, stands for another character or is
replaced.  Any other comes back as another value, if the tag ends at all.

    without quotes   no space, no `>`, no quote in front           (`run_bare`, `lost_bare`)
    in quotes        no quote                                      (`run_quoted`, `lost_quoted`)
    both             no reference, no character 0

The string is compared as it was before its line ends were normalised.
-/
import WebTech.Lib.HtmlText
import Mathlib.Data.List.TakeWhile

namespace Html

/-! ## Line ends -/

theorem length_normalize_le (s : List Char) : (normalize s).length ≤ s.length := by
  induction s using normalize.induct with
  | case1 s ih =>
      rw [normalize, List.length_cons, List.length_cons, List.length_cons]
      omega
  | case2 s hs ih =>
      rw [normalize, List.length_cons, List.length_cons]
      · omega
      · exact hs
  | case3 c s hc hr ih =>
      rw [normalize, List.length_cons, List.length_cons]
      · omega
      · exact hc
      · exact hr
  | case4 => exact Nat.le_refl 0

/-- No carriage return is left. -/
theorem not_mem_normalize (s : List Char) : '\r' ∉ normalize s := by
  induction s using normalize.induct with
  | case1 s ih =>
      rw [normalize, List.mem_cons, not_or]
      exact ⟨by decide, ih⟩
  | case2 s hs ih =>
      rw [normalize, List.mem_cons, not_or]
      · exact ⟨by decide, ih⟩
      · exact hs
  | case3 c s hc hr ih =>
      rw [normalize, List.mem_cons, not_or]
      · exact ⟨fun h => hr h.symm, ih⟩
      · exact hc
      · exact hr
  | case4 => exact List.not_mem_nil

/-- Only line feeds come in. -/
theorem mem_of_mem_normalize {c : Char} (hc : c ≠ '\n') {s : List Char} (h : c ∈ normalize s) :
    c ∈ s := by
  induction s using normalize.induct with
  | case1 s ih =>
      rw [normalize, List.mem_cons] at h
      exact List.mem_cons_of_mem _ (List.mem_cons_of_mem _ (ih (h.resolve_left hc)))
  | case2 s hs ih =>
      rw [normalize, List.mem_cons] at h
      · exact List.mem_cons_of_mem _ (ih (h.resolve_left hc))
      · exact hs
  | case3 d s hd hr ih =>
      rw [normalize, List.mem_cons] at h
      · exact List.mem_cons.mpr (h.imp_right ih)
      · exact hd
      · exact hr
  | case4 => exact h

theorem normalize_eq_self {s : List Char} (h : '\r' ∉ s) : normalize s = s := by
  induction s with
  | nil => rfl
  | cons c s ih =>
      rw [List.mem_cons, not_or] at h
      rw [normalize, ih h.2]
      · rintro s' rfl
        exact absurd rfl h.1
      · exact fun hc => h.1 hc.symm

theorem normalize_cons {c : Char} (hc : c ≠ '\r') (s : List Char) :
    normalize (c :: s) = c :: normalize s := by
  rw [normalize]
  · rintro s' rfl
    exact absurd rfl hc
  · exact hc

/-- A text is what it was before when it has no carriage return. -/
theorem normalize_eq_self_iff {s : List Char} : normalize s = s ↔ '\r' ∉ s :=
  ⟨fun h => h ▸ not_mem_normalize s, normalize_eq_self⟩

/-- Line ends are normalised piece by piece. -/
theorem normalize_append {s t : List Char} (h : '\r' ∉ s ∨ t.head? ≠ some '\n') :
    normalize (s ++ t) = normalize s ++ normalize t := by
  induction s using normalize.induct with
  | case1 s ih =>
      have h' : '\r' ∉ s ∨ t.head? ≠ some '\n' := by
        refine h.imp ?_ id
        intro hno hs
        exact hno (List.mem_cons_of_mem _ (List.mem_cons_of_mem _ hs))
      rw [List.cons_append, List.cons_append, normalize, normalize, ih h', List.cons_append]
  | case2 s hs ih =>
      have hhead : t.head? ≠ some '\n' := h.resolve_left (fun hno => hno List.mem_cons_self)
      rw [List.cons_append, normalize, normalize, ih (.inr hhead), List.cons_append]
      · exact hs
      · intro s' heq
        cases s with
        | nil =>
            rw [List.nil_append] at heq
            rw [heq] at hhead
            exact hhead rfl
        | cons d s =>
            cases heq
            exact hs s rfl
  | case3 c s hc hr ih =>
      have h' : '\r' ∉ s ∨ t.head? ≠ some '\n' := by
        refine h.imp ?_ id
        intro hno hs
        exact hno (List.mem_cons_of_mem _ hs)
      rw [List.cons_append, normalize, normalize, ih h', List.cons_append]
      · exact hc
      · exact hr
      · rintro s' rfl
        exact absurd rfl hr
      · exact hr
  | case4 => rfl

/-- The first `>` does not move to the right. -/
theorem takeWhile_normalize_le (s : List Char) :
    ((normalize s).takeWhile fun c => c ≠ '>').length ≤ (s.takeWhile fun c => c ≠ '>').length := by
  induction s using normalize.induct with
  | case1 s ih =>
      rw [normalize, List.takeWhile_cons_of_pos (by decide), List.takeWhile_cons_of_pos (by decide),
        List.takeWhile_cons_of_pos (by decide)]
      simp only [List.length_cons]
      omega
  | case2 s hs ih =>
      rw [normalize, List.takeWhile_cons_of_pos (by decide), List.takeWhile_cons_of_pos (by decide)]
      · exact Nat.succ_le_succ ih
      · exact hs
  | case3 c s hc hr ih =>
      rw [normalize, List.takeWhile_cons, List.takeWhile_cons]
      · split
        · exact Nat.succ_le_succ ih
        · exact Nat.le_refl _
      · exact hc
      · exact hr
  | case4 => exact Nat.le_refl 0

/-- A list up to its first element of a kind. -/
theorem exists_first (p : Char → Bool) {s : List Char} (h : ∃ d ∈ s, p d = true) :
    ∃ s₁ d s₂, s = s₁ ++ d :: s₂ ∧ (∀ x ∈ s₁, p x = false) ∧ p d = true := by
  induction s with
  | nil =>
      obtain ⟨d, hd, -⟩ := h
      exact nomatch hd
  | cons c s ih =>
      by_cases hc : p c = true
      · exact ⟨[], c, s, rfl, nofun, hc⟩
      · obtain ⟨d, hd, hp⟩ := h
        rcases List.mem_cons.mp hd with rfl | hd
        · exact absurd hp hc
        · obtain ⟨s₁, d', s₂, rfl, hs₁, hp'⟩ := ih ⟨d, hd, hp⟩
          rw [Bool.not_eq_true] at hc
          exact ⟨c :: s₁, d', s₂, rfl, List.forall_mem_cons.mpr ⟨hc, hs₁⟩, hp'⟩

section Value
variable (E : Entities)

/-! ## Values -/

theorem length_valueOf_le (v : List Char) : (valueOf E v).length ≤ v.length := by
  rw [valueOf, List.length_map]
  exact length_decode_le E true v

/-- **A value that is what was written**: no reference in it, no character 0, no
carriage return. -/
theorem value_eq {s L : List Char} (hs : normalize L = s) (h : valueOf E s = L) :
    decode E true s = s ∧ '\x00' ∉ s ∧ L = s := by
  have hle := length_decode_le E true s
  have hnorm : s.length ≤ L.length := hs ▸ length_normalize_le L
  have hlen : (decode E true s).length = L.length := by rw [← h, valueOf, List.length_map]
  have href : decode E true s = s := decode_eq_self E true (by omega)
  have hmap : s.map replaceNull = L := by rw [← h, valueOf, href]
  have hcr : '\r' ∉ L := by
    rw [← hmap]
    intro hmem
    obtain ⟨c, hc, heq⟩ := List.mem_map.mp hmem
    rw [replaceNull] at heq
    split at heq
    · exact absurd heq (by decide)
    · exact not_mem_normalize L (hs ▸ heq ▸ hc)
  have hL : L = s := (normalize_eq_self hcr).symm.trans hs
  refine ⟨href, ?_, hL⟩
  intro hnull
  have hzero : '\x00' ∈ s.map replaceNull := by rw [hmap, hL]; exact hnull
  obtain ⟨c, -, heq⟩ := List.mem_map.mp hzero
  rw [replaceNull] at heq
  split at heq
  · exact absurd heq (by decide)
  · next hc => exact hc heq

theorem valueOf_eq_self {s : List Char} (href : decode E true s = s) (hnull : '\x00' ∉ s) :
    valueOf E s = s := by
  rw [valueOf, href]
  refine (List.map_congr_left fun c hc => ?_).trans (List.map_id s)
  rw [replaceNull, if_neg]
  · rfl
  · rintro rfl
    exact hnull hc

/-- A tag with one attribute more. -/
def Tag.withAttr (t : Tag) (n v : List Char) : Tag := { t with attrs := t.attrs ++ [(n, v)] }

/-- No attribute of the name yet. -/
def Tag.Fresh (t : Tag) (n : List Char) : Prop := (t.attrs.any fun a => a.1 = n) = false

theorem add_fresh {t : Tag} {n : List Char} (h : t.Fresh n) (v : List Char) :
    t.add E n v = t.withAttr n (valueOf E v) := by
  rw [Tag.add, if_neg (by rw [h]; decide)]
  rfl

/-- **The value is lost**: the text ends inside the tag, or the tag has another
value than any text that was normalised to `s`. -/
def ValueLost (t : Tag) (n s : List Char) (ts : List Token) : Prop :=
  ts = [] ∨ ∃ name attrs selfClosing rest v, ts = .startTag name attrs selfClosing :: rest ∧
    t.attrs ++ [(n, v)] <+: attrs ∧ ∀ L, normalize L = s → v ≠ L

/-- A tag with another value, whatever comes after it. -/
theorem valueLost_run {t : Tag} {n s v : List Char} (hstart : t.isEnd = false)
    (hv : ∀ L, normalize L = s → v ≠ L) {st : State} (hst : st.tag = some (t.withAttr n v))
    (r : List Char) : ValueLost t n s (run E st r) := by
  rcases run_startTag E r hst hstart with hnil | ⟨name, attrs, sc, rest, hrun, hp⟩
  · exact .inl hnil
  · exact .inr ⟨name, attrs, sc, rest, v, hrun, hp, hv⟩

theorem valueLost_emit {t : Tag} {n s v : List Char} (hstart : t.isEnd = false)
    (hv : ∀ L, normalize L = s → v ≠ L) (r : List Char) :
    ValueLost t n s ((emit (t.withAttr n v) false).1 ++ run E (emit (t.withAttr n v) false).2 r) := by
  have hno : (t.withAttr n v).isEnd ≠ true := by
    show t.isEnd ≠ true
    rw [hstart]
    decide
  rw [emit, if_neg hno]
  exact .inr ⟨_, _, _, _, v, rfl, List.prefix_rfl, hv⟩

/-- A value shorter than the text. -/
theorem ne_of_shorter {s v : List Char} (h : v.length < s.length) (L : List Char)
    (hL : normalize L = s) : v ≠ L := by
  rintro rfl
  have := length_normalize_le v
  rw [hL] at this
  omega

/-! ## In quotes -/

/-- A string that comes back from between two quotes. -/
structure IsQuoted (q : Char) (s : List Char) : Prop where
  noReference : decode E true s = s
  noNull : '\x00' ∉ s
  noQuote : q ∉ s

/-- Reading between quotes: `st v` with `v` read so far. -/
theorem run_quotedChars (st' : List Char → State) {q : Char} {st : List Char → State}
    (hstep : ∀ v c, step E (st v) c = if c = q then ([], st' v) else ([], st (v ++ [c])))
    (raw : List Char) (hraw : q ∉ raw) (r : List Char) :
    ∀ v, run E (st v) (raw ++ q :: r) = run E (st' (v ++ raw)) r := by
  induction raw with
  | nil =>
      intro v
      rw [List.nil_append, run, hstep, if_pos rfl, List.append_nil]
      rfl
  | cons c raw ih =>
      intro v
      rw [List.mem_cons, not_or] at hraw
      rw [List.cons_append, run, hstep, if_neg fun h => hraw.1 h.symm]
      show run E (st (v ++ [c])) (raw ++ q :: r) = _
      rw [ih hraw.2, List.append_assoc]
      rfl

/-- Between quotes that are never closed. -/
theorem run_unclosed (st' : List Char → State) {q : Char} {st : List Char → State}
    (hstep : ∀ v c, step E (st v) c = if c = q then ([], st' v) else ([], st (v ++ [c])))
    (heof : ∀ v, eof E (st v) = []) (s : List Char) (hs : q ∉ s) : ∀ v, run E (st v) s = [] := by
  induction s with
  | nil => exact heof
  | cons c s ih =>
      intro v
      rw [List.mem_cons, not_or] at hs
      rw [run, hstep, if_neg fun h => hs.1 h.symm]
      exact ih hs.2 (v ++ [c])

theorem step_double (t : Tag) (n v : List Char) (c : Char) :
    step E (.attrValueDouble t n v) c = if c = '"' then ([], .afterAttrValue (t.add E n v))
      else ([], .attrValueDouble t n (v ++ [c])) := rfl

theorem step_single (t : Tag) (n v : List Char) (c : Char) :
    step E (.attrValueSingle t n v) c = if c = '\'' then ([], .afterAttrValue (t.add E n v))
      else ([], .attrValueSingle t n (v ++ [c])) := rfl

section Tag
variable {t : Tag} {n : List Char}

/-- **A string in double quotes** comes back. -/
theorem run_quoted (hfresh : t.Fresh n) {s : List Char} (h : IsQuoted E '"' s) (r : List Char) :
    run E (.attrValueDouble t n []) (s ++ '"' :: r) =
      run E (.afterAttrValue (t.withAttr n s)) r := by
  rw [run_quotedChars E _ (step_double E t n) s h.noQuote r [], List.nil_append, add_fresh E hfresh,
    valueOf_eq_self E h.noReference h.noNull]

/-- **Any other string in double quotes** is lost. -/
theorem lost_quoted (hfresh : t.Fresh n) (hstart : t.isEnd = false) {s : List Char}
    (h : ¬ IsQuoted E '"' s) (r : List Char) :
    ValueLost t n s (run E (.attrValueDouble t n []) (s ++ '"' :: r)) := by
  by_cases hq : '"' ∈ s
  · obtain ⟨raw, rest, rfl, hraw⟩ := List.eq_append_cons_of_mem hq
    rw [List.append_assoc, List.cons_append, run_quotedChars E _ (step_double E t n) raw hraw _ [],
      List.nil_append, add_fresh E hfresh]
    refine valueLost_run E hstart (ne_of_shorter ?_) rfl _
    have := length_valueOf_le E raw
    rw [List.length_append, List.length_cons]
    omega
  · rw [run_quotedChars E _ (step_double E t n) s hq r [], List.nil_append, add_fresh E hfresh]
    refine valueLost_run E hstart (fun L hL heq => h ?_) rfl r
    obtain ⟨href, hnull, -⟩ := value_eq E hL heq
    exact ⟨href, hnull, hq⟩

/-! ## Without quotes -/

/-- **A string that comes back without quotes.** -/
structure IsBare (s : List Char) : Prop where
  noReference : decode E true s = s
  noNull : '\x00' ∉ s
  noEnd : ∀ c ∈ s, isSpace c = false ∧ c ≠ '>'
  noQuote : ∀ c ∈ s.head?, c ≠ '"' ∧ c ≠ '\''

/-- Reading without quotes, up to a space or a `>`. -/
theorem run_unquotedChars (raw : List Char) (hraw : ∀ c ∈ raw, isSpace c = false ∧ c ≠ '>')
    (r : List Char) : ∀ v,
      run E (.attrValueUnquoted t n v) (raw ++ r) = run E (.attrValueUnquoted t n (v ++ raw)) r := by
  induction raw with
  | nil =>
      intro v
      rw [List.append_nil]
      rfl
  | cons c raw ih =>
      intro v
      obtain ⟨⟨hspace, hgt⟩, hraw⟩ := List.forall_mem_cons.mp hraw
      have hno : ¬ isSpace c = true := by rw [hspace]; decide
      rw [List.cons_append, run, step, unquotedStep, if_neg hno, if_neg hgt]
      show run E (.attrValueUnquoted t n (v ++ [c])) (raw ++ r) = _
      rw [ih hraw, List.append_assoc]
      rfl

/-- Spaces in front of a value are skipped. -/
theorem run_spaces (ws : List Char) (hws : ∀ c ∈ ws, isSpace c = true) (r : List Char) :
    run E (.beforeAttrValue t n) (ws ++ r) = run E (.beforeAttrValue t n) r := by
  induction ws with
  | nil => rfl
  | cons c ws ih =>
      obtain ⟨hspace, hws⟩ := List.forall_mem_cons.mp hws
      rw [List.cons_append, run, step, beforeAttrValueStep, if_pos hspace]
      exact ih hws

/-- The first character of a value without quotes. -/
theorem run_firstChar {c : Char} (hspace : isSpace c = false) (hdouble : c ≠ '"')
    (hsingle : c ≠ '\'') (hgt : c ≠ '>') (r : List Char) :
    run E (.beforeAttrValue t n) (c :: r) = run E (.attrValueUnquoted t n [c]) r := by
  have hno : ¬ isSpace c = true := by rw [hspace]; decide
  rw [run, step, beforeAttrValueStep, if_neg hno, if_neg hdouble, if_neg hsingle, if_neg hgt]
  rfl

/-- The `>` after a value. -/
theorem run_unquotedEnd (hfresh : t.Fresh n) (v r : List Char) :
    run E (.attrValueUnquoted t n v) ('>' :: r) =
      (emit (t.withAttr n (valueOf E v)) false).1 ++
        run E (emit (t.withAttr n (valueOf E v)) false).2 r := by
  rw [run, step, unquotedStep, if_neg (by decide), if_pos rfl, add_fresh E hfresh]

/-- A `>` in the place of a value. -/
theorem run_emptyEnd (hfresh : t.Fresh n) (r : List Char) :
    run E (.beforeAttrValue t n) ('>' :: r) =
      (emit (t.withAttr n []) false).1 ++ run E (emit (t.withAttr n []) false).2 r := by
  rw [run, step, beforeAttrValueStep, if_neg (by decide), if_neg (by decide), if_neg (by decide),
    if_pos rfl, add_fresh E hfresh]
  rfl

/-- **A bare string** comes back, and its tag ends at the `>`. -/
theorem run_bare (hfresh : t.Fresh n) {s : List Char} (h : IsBare E s) (r : List Char) :
    run E (.beforeAttrValue t n) (s ++ '>' :: r) =
      (emit (t.withAttr n s) false).1 ++ run E (emit (t.withAttr n s) false).2 r := by
  cases s with
  | nil => exact run_emptyEnd E hfresh r
  | cons c s =>
      obtain ⟨⟨hspace, hgt⟩, hs⟩ := List.forall_mem_cons.mp h.noEnd
      obtain ⟨hdouble, hsingle⟩ := h.noQuote c rfl
      rw [List.cons_append, run_firstChar E hspace hdouble hsingle hgt, run_unquotedChars E s hs,
        run_unquotedEnd E hfresh, List.singleton_append, valueOf_eq_self E h.noReference h.noNull]

/-- The value of a text with a `>` in it. -/
theorem valueOf_append_gt (p r : List Char) :
    valueOf E (p ++ '>' :: r) = valueOf E p ++ '>' :: valueOf E r := by
  rw [valueOf, decode_append E true (by decide) (by decide), List.map_append, List.map_cons]
  rfl

theorem takeWhile_gt_le (p r : List Char) :
    ((p ++ '>' :: r).takeWhile fun c => c ≠ '>').length ≤ p.length := by
  induction p with
  | nil => exact Nat.le_refl 0
  | cons c p ih =>
      rw [List.cons_append, List.takeWhile_cons]
      split
      · exact Nat.succ_le_succ ih
      · exact Nat.zero_le _

/-- A string that begins with a quote and is closed behind the `>` of its tag has
its first `>` too early in the value. -/
theorem ne_of_quoteLed {q : Char} {ws s r : List Char} (hq : q ≠ '>')
    (hws : ∀ c ∈ ws, isSpace c = true) (L : List Char) (hL : normalize L = ws ++ q :: s) :
    valueOf E (s ++ '>' :: r) ≠ L := by
  intro heq
  have hcut : ∃ r', s ++ '>' :: r = (s.takeWhile fun c => c ≠ '>') ++ '>' :: r' := by
    by_cases hgt : ∃ d ∈ s, decide (d = '>') = true
    · obtain ⟨s₁, d, s₂, rfl, hs₁, hd⟩ := exists_first (fun c => c = '>') hgt
      cases of_decide_eq_true hd
      have hs₁' : ∀ c ∈ s₁, decide (c ≠ '>') = true :=
        fun c hc => decide_eq_true (of_decide_eq_false (hs₁ c hc))
      refine ⟨s₂ ++ '>' :: r, ?_⟩
      rw [List.takeWhile_append_of_pos hs₁', List.append_assoc, List.append_assoc]
      rfl
    · refine ⟨r, ?_⟩
      rw [List.takeWhile_eq_self_iff.mpr]
      intro c hc
      exact decide_eq_true fun h => hgt ⟨c, hc, decide_eq_true h⟩
  obtain ⟨r', hr'⟩ := hcut
  have hvalue : (L.takeWhile fun c => c ≠ '>').length ≤ (s.takeWhile fun c => c ≠ '>').length := by
    rw [← heq, hr', valueOf_append_gt]
    exact Nat.le_trans (takeWhile_gt_le _ _) (length_valueOf_le E _)
  have hspace : ∀ c ∈ ws, decide (c ≠ '>') = true := by
    intro c hc
    refine decide_eq_true ?_
    rintro rfl
    exact absurd (hws _ hc) (by decide)
  have htext : ((normalize L).takeWhile fun c => c ≠ '>').length =
      ws.length + ((s.takeWhile fun c => c ≠ '>').length + 1) := by
    have hcons : ((q :: s).takeWhile fun c => decide (c ≠ '>')) =
        q :: s.takeWhile fun c => decide (c ≠ '>') :=
      List.takeWhile_cons_of_pos (p := fun c => decide (c ≠ '>')) (decide_eq_true hq)
    rw [hL, List.takeWhile_append_of_pos hspace, hcons, List.length_append, List.length_cons]
  have := takeWhile_normalize_le L
  omega

/-- A string that begins with a quote. -/
theorem lost_quoteLed (hfresh : t.Fresh n) (hstart : t.isEnd = false) {q : Char} (hq : q ≠ '>')
    {st : List Char → State}
    (hstep : ∀ v c, step E (st v) c = if c = q then ([], .afterAttrValue (t.add E n v))
      else ([], st (v ++ [c])))
    (heof : ∀ v, eof E (st v) = []) {ws s : List Char} (hws : ∀ c ∈ ws, isSpace c = true)
    (r : List Char) : ValueLost t n (ws ++ q :: s) (run E (st []) (s ++ '>' :: r)) := by
  by_cases hclosed : q ∈ s ++ '>' :: r
  · obtain ⟨raw, rest, happ, hraw⟩ := List.eq_append_cons_of_mem hclosed
    rw [happ, run_quotedChars E (fun v => .afterAttrValue (t.add E n v)) hstep raw hraw rest [],
      List.nil_append, add_fresh E hfresh]
    refine valueLost_run E hstart ?_ rfl rest
    rcases Nat.lt_or_ge s.length raw.length with hlong | hshort
    · -- the quotes take in the end of the tag
      intro L hL
      obtain ⟨raw', rfl⟩ : ∃ raw', raw = s ++ '>' :: raw' := by
        have htag : s ++ ['>'] <+: s ++ '>' :: r := ⟨r, by rw [List.append_assoc]; rfl⟩
        have hquote : raw <+: s ++ '>' :: r := ⟨q :: rest, happ.symm⟩
        have hpre : s ++ ['>'] <+: raw := by
          refine List.prefix_of_prefix_length_le htag hquote ?_
          rw [List.length_append]
          exact hlong
        obtain ⟨raw', hraw'⟩ := hpre
        exact ⟨raw', by rw [← hraw', List.append_assoc]; rfl⟩
      exact ne_of_quoteLed E hq hws L hL
    · refine ne_of_shorter ?_
      have := length_valueOf_le E raw
      rw [List.length_append, List.length_cons]
      omega
  · rw [run_unclosed E (fun v => .afterAttrValue (t.add E n v)) hstep heof _ hclosed]
    exact .inl rfl

/-- A string that begins with neither a space nor a quote. -/
theorem lost_unquoted (hfresh : t.Fresh n) (hstart : t.isEnd = false) {c : Char} {ws s : List Char}
    (h : ¬ IsBare E (ws ++ c :: s)) (hdouble : c ≠ '"') (hsingle : c ≠ '\'')
    (hspace : isSpace c = false) (hgt : c ≠ '>') (r : List Char) :
    ValueLost t n (ws ++ c :: s) (run E (.attrValueUnquoted t n [c]) (s ++ '>' :: r)) := by
  let ends : Char → Bool := fun c => isSpace c || c = '>'
  by_cases hends : ∃ d ∈ s, ends d = true
  · -- the value stops inside the string
    obtain ⟨raw, d, s', rfl, hraw, hstop⟩ := exists_first ends hends
    have hchars : ∀ d ∈ raw, isSpace d = false ∧ d ≠ '>' := by
      intro d hd
      have hno := hraw d hd
      simp only [ends, Bool.or_eq_false_iff, decide_eq_false_iff_not] at hno
      exact hno
    have hshort : (valueOf E (c :: raw)).length < (ws ++ c :: (raw ++ d :: s')).length := by
      have := length_valueOf_le E (c :: raw)
      simp only [List.length_cons, List.length_append] at this ⊢
      omega
    rw [List.append_assoc, List.cons_append, run_unquotedChars E raw hchars, List.singleton_append]
    by_cases hd : isSpace d = true
    · rw [run, step, unquotedStep, if_pos hd, add_fresh E hfresh]
      exact valueLost_run E hstart (ne_of_shorter hshort) rfl _
    · obtain rfl : d = '>' := by
        simp only [ends, Bool.or_eq_true, decide_eq_true_eq] at hstop
        exact hstop.resolve_left hd
      rw [run_unquotedEnd E hfresh]
      exact valueLost_emit E hstart (ne_of_shorter hshort) _
  · have hchars : ∀ d ∈ s, isSpace d = false ∧ d ≠ '>' := by
      intro d hd
      have hno : ¬ ends d = true := fun h => hends ⟨d, hd, h⟩
      simp only [ends, Bool.or_eq_true, decide_eq_true_eq, not_or, Bool.not_eq_true] at hno
      exact hno
    rw [run_unquotedChars E s hchars, run_unquotedEnd E hfresh, List.singleton_append]
    refine valueLost_emit E hstart ?_ r
    cases ws with
    | nil =>
        intro L hL heq
        obtain ⟨href, hnull, -⟩ := value_eq E hL heq
        refine h ⟨href, hnull, List.forall_mem_cons.mpr ⟨⟨hspace, hgt⟩, hchars⟩, ?_⟩
        rintro d ⟨⟩
        exact ⟨hdouble, hsingle⟩
    | cons w ws =>
        refine ne_of_shorter ?_
        have := length_valueOf_le E (c :: s)
        simp only [List.length_cons, List.length_append] at this ⊢
        omega

/-- **Any other string without quotes** is lost. -/
theorem lost_bare (hfresh : t.Fresh n) (hstart : t.isEnd = false) {s : List Char}
    (h : ¬ IsBare E s) (r : List Char) :
    ValueLost t n s (run E (.beforeAttrValue t n) (s ++ '>' :: r)) := by
  obtain ⟨ws, s', rfl, hws, hhead⟩ : ∃ ws s', s = ws ++ s' ∧ (∀ c ∈ ws, isSpace c = true) ∧
      ∀ c ∈ s'.head?, isSpace c = false := by
    refine ⟨s.takeWhile isSpace, s.dropWhile isSpace, List.takeWhile_append_dropWhile.symm,
      fun c hc => List.mem_takeWhile_imp hc, ?_⟩
    intro c hc
    have := List.head?_dropWhile_not isSpace s
    rw [Option.mem_def.mp hc] at this
    simpa using this
  rw [List.append_assoc, run_spaces E ws hws]
  cases s' with
  | nil =>
      -- nothing but spaces, and the value is empty
      rw [List.append_nil] at h ⊢
      have hpos : 0 < ws.length := by
        refine List.length_pos_iff.mpr ?_
        rintro rfl
        exact h ⟨rfl, List.not_mem_nil, nofun, nofun⟩
      rw [List.nil_append, run_emptyEnd E hfresh]
      exact valueLost_emit E hstart (ne_of_shorter (show ([] : List Char).length < ws.length from hpos)) r
  | cons c s' =>
      have hspace := hhead c rfl
      by_cases hdouble : c = '"'
      · subst hdouble
        exact lost_quoteLed E hfresh hstart (by decide) (step_double E t n) (fun _ => rfl) hws r
      · by_cases hsingle : c = '\''
        · subst hsingle
          exact lost_quoteLed E hfresh hstart (by decide) (step_single E t n) (fun _ => rfl) hws r
        · by_cases hgt : c = '>'
          · subst hgt
            rw [List.cons_append, run_emptyEnd E hfresh]
            refine valueLost_emit E hstart (ne_of_shorter ?_) _
            rw [List.length_append, List.length_cons]
            exact Nat.succ_pos _
          · rw [List.cons_append, run_firstChar E hspace hdouble hsingle hgt]
            exact lost_unquoted E hfresh hstart h hdouble hsingle hspace hgt r

end Tag

/-! ## Texts -/

section Written
variable {a : Char} (ha : isAlpha a = true) {r : List Char} {ys : List Token} (hy : NoChar ys)
include ha hy

/-- **A text that is written where another is to be shown**, before an end tag.  A
text that is not plain shows fewer characters than it has. -/
theorem written_iff {v w : List Char} (h : (IsPlain E v ∧ '\r' ∉ v) ∨ v <+: w) :
    run E (.data []) (normalize v ++ '<' :: '/' :: a :: r) = w.map .char ++ ys ↔
      (v = w ∧ IsPlain E v ∧ '\r' ∉ v) ∧ run E .tagOpen ('/' :: a :: r) = ys := by
  obtain ⟨u, rest, hrun, hrest, hcase⟩ := read_text E ha r (normalize v)
  rw [hrun]
  constructor
  · intro heq
    obtain ⟨rfl, rfl⟩ := map_char_append_inj hrest hy heq
    have hnorm := length_normalize_le v
    rcases h with ⟨hplain, hcr⟩ | hp
    · rw [normalize_eq_self hcr] at hcase
      rcases hcase with ⟨-, rfl, rfl⟩ | ⟨hno, -⟩
      · exact ⟨⟨rfl, hplain, hcr⟩, rfl⟩
      · exact absurd hplain hno
    · have hle := hp.length_le
      rcases hcase with ⟨hplain, hu, rfl⟩ | ⟨-, hlt⟩
      · have hv : v = u := hp.eq_of_length_le (by rw [hu]; exact hnorm)
        rw [← hu, ← hv] at hplain
        exact ⟨⟨hv, hplain, normalize_eq_self_iff.mp (hu.symm.trans hv.symm)⟩, rfl⟩
      · exact absurd hle (by omega)
  · rintro ⟨⟨rfl, hplain, hcr⟩, rfl⟩
    rw [normalize_eq_self hcr] at hcase
    rcases hcase with ⟨-, rfl, rfl⟩ | ⟨hno, -⟩
    · rfl
    · exact absurd hplain hno

/-- **A text before an end tag** is read as itself exactly when it is plain. -/
theorem text_iff (v : List Char) :
    run E (.data []) (normalize v ++ '<' :: '/' :: a :: r) = v.map .char ++ ys ↔
      (IsPlain E v ∧ '\r' ∉ v) ∧ run E .tagOpen ('/' :: a :: r) = ys := by
  rw [written_iff E ha hy (.inr List.prefix_rfl), eq_self_iff_true, true_and]

end Written

end Value

end Html
