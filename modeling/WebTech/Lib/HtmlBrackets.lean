/-
# `WebTech.Lib.HtmlBrackets` — two texts, the second one in brackets

A page writes `a&#40;b&#41;` for the texts `t` and `s`, where `a` and `b` are
what has become of them on the way.  It is read as `t(s)` exactly when nothing
has become of them and both are plain (`brackets_iff`).

A text may have become another one in two ways (`Written`).  Some of its
characters may be replaced, and it keeps its length: then a text that is not
plain is read as too short a text.  Or it is a text of free characters that has
become another such text, which is read as it is: then the brackets tell where
it ends.
-/
import WebTech.Lib.HtmlTemplate

namespace Html

/-! ## Where a list is cut -/

/-- The first place of an element. -/
theorem cut_first {α : Type} {a : α} {x t y s : List α} (hx : a ∉ x) (ht : a ∉ t)
    (h : x ++ a :: y = t ++ a :: s) : x = t ∧ y = s := by
  induction x generalizing t with
  | nil =>
      cases t with
      | nil => exact ⟨rfl, (List.cons.inj h).2⟩
      | cons b t => exact absurd ((List.cons.inj h).1 ▸ List.mem_cons_self) ht
  | cons b x ih =>
      cases t with
      | nil => exact absurd ((List.cons.inj h).1 ▸ List.mem_cons_self) hx
      | cons c t =>
          rw [List.mem_cons, not_or] at hx ht
          obtain ⟨rfl, htail⟩ := List.cons.inj h
          obtain ⟨rfl, hrest⟩ := ih hx.2 ht.2 htail
          exact ⟨rfl, hrest⟩

/-- The last place of an element. -/
theorem cut_last {α : Type} {a : α} {x t y s : List α} (hy : a ∉ y) (hs : a ∉ s)
    (h : x ++ a :: y = t ++ a :: s) : x = t ∧ y = s := by
  have hrev : y.reverse ++ a :: x.reverse = s.reverse ++ a :: t.reverse := by
    have := congrArg List.reverse h
    simpa using this
  obtain ⟨hyx, hxt⟩ := cut_first (by simpa using hy) (by simpa using hs) hrev
  exact ⟨List.reverse_injective hxt, List.reverse_injective hyx⟩

/-! ## Texts as they are written -/

/-- A character that means nothing in a text, and no bracket. -/
def isFree (c : Char) : Bool := isHarmless c && c ≠ '(' && c ≠ ')'

theorem isFree_spec {c : Char} (h : isFree c = true) :
    isHarmless c = true ∧ c ≠ '(' ∧ c ≠ ')' := by
  simpa [isFree, and_assoc] using h

theorem isFree_of {p : Char → Bool} (hp : p '<' = false ∧ p '&' = false ∧ p '\x00' = false ∧
    p '\r' = false ∧ p '(' = false ∧ p ')' = false) {c : Char} (h : p c = true) :
    isFree c = true := by
  obtain ⟨hlt, hamp, hnull, hcr, hopen, hclose⟩ := hp
  have hharmless := isHarmless_of ⟨hlt, hamp, hnull, hcr⟩ h
  simp only [isFree, Bool.and_eq_true, decide_eq_true_eq]
  refine ⟨⟨hharmless, ?_⟩, ?_⟩ <;> rintro rfl
  · exact Bool.false_ne_true (hopen.symm.trans h)
  · exact Bool.false_ne_true (hclose.symm.trans h)

/-- What may become of a text before it is written. -/
inductive Written (u t : List Char) : Prop
  | free : (∀ c ∈ u, isFree c = true) → (∀ c ∈ t, isFree c = true) → Written u t
  | replaced (f : Char → Char) : (∀ c, f c = '\r' → c = '\r') → u = t.map f → Written u t

theorem not_mem_open {u : List Char} (h : ∀ c ∈ u, isFree c = true) : '(' ∉ u :=
  fun hm => (isFree_spec (h _ hm)).2.1 rfl

theorem not_mem_close {u : List Char} (h : ∀ c ∈ u, isFree c = true) : ')' ∉ u :=
  fun hm => (isFree_spec (h _ hm)).2.2 rfl

section Slot
variable (E : Entities)

/-- **Read as itself.** -/
def Inert (t : List Char) : Prop := IsPlain E t ∧ '\r' ∉ t

theorem inert_of_free {u : List Char} (h : ∀ c ∈ u, isFree c = true) : Inert E u :=
  inert_of_harmless E fun c hc => (isFree_spec (h c hc)).1

variable {E} {stop : List Char} (hstop : Stops E stop)
include hstop

theorem read_inert {u : List Char} (h : Inert E u) :
    run E (.data []) (normalize u ++ stop) = u.map .char ++ run E (.data []) stop := by
  rw [normalize_eq_self h.2]
  obtain ⟨x, rest, hrun, ⟨-, rfl, rfl⟩ | ⟨hmark, -⟩⟩ := read_before E hstop u
  · rw [hrun, textOf_plain E h.1]
  · rw [h.1.noMarkup] at hmark
    exact nomatch hmark

/-- What is read of any text: no more characters than it has, and as many only
if it is read as itself. -/
theorem read_slot (u : List Char) : ∃ x rest,
    run E (.data []) (normalize u ++ stop) = x.map .char ++ rest ∧ x.length ≤ u.length ∧
      (rest = run E (.data []) stop ∨ NoChar rest ∧ x.length < u.length) ∧
      (x.length = u.length → '\r' ∉ x ∧ ('\r' ∉ u → IsPlain E u ∧ x = u)) := by
  obtain ⟨x, rest, hrun, hcase⟩ := read_before E hstop (normalize u)
  have htext := length_textOf_le E (normalize u)
  have hnorm := length_normalize_le u
  refine ⟨x, rest, hrun, ?_⟩
  rcases hcase with ⟨hmark, rfl, rfl⟩ | ⟨-, hlt, hrest⟩
  · refine ⟨by omega, .inl rfl, fun hlen => ?_⟩
    have hplain : IsPlain E (normalize u) := by
      by_contra hno
      have := length_textOf_lt E hmark hno
      omega
    rw [textOf_plain E hplain]
    refine ⟨not_mem_normalize u, fun hcr => ?_⟩
    rw [normalize_eq_self hcr] at hplain ⊢
    exact ⟨hplain, rfl⟩
  · refine ⟨by omega, ?_, fun hlen => ?_⟩
    · rcases hrest with hafter | hno
      · exact .inl hafter
      · exact .inr ⟨hno, by omega⟩
    · omega

omit hstop in
/-- A replaced text of which all is read back was not replaced. -/
theorem eq_of_read {u t x : List Char} {f : Char → Char} (hf : ∀ c, f c = '\r' → c = '\r')
    (hu : u = t.map f) (hx : x = t)
    (hread : x.length = u.length → '\r' ∉ x ∧ ('\r' ∉ u → IsPlain E u ∧ x = u)) :
    u = t ∧ Inert E t := by
  have hlen : x.length = u.length := by rw [hx, hu, List.length_map]
  obtain ⟨hcr, hplain⟩ := hread hlen
  have hcr' : '\r' ∉ u := by
    rw [hu]
    intro hmem
    obtain ⟨c, hc, hfc⟩ := List.mem_map.mp hmem
    exact hcr (hx ▸ hf c hfc ▸ hc)
  obtain ⟨hplain, hxu⟩ := hplain hcr'
  have hut : u = t := hxu.symm.trans hx
  exact ⟨hut, hut ▸ hplain, hut ▸ hcr'⟩

end Slot

/-! ## Brackets -/

section Brackets
variable (E : Entities)

/-- A text is collected up to the first `<`. -/
theorem run_collect {s : List Char} (hs : '<' ∉ s) (acc r : List Char) :
    run E (.data acc) (s ++ r) = run E (.data (acc ++ s)) r := by
  induction s generalizing acc with
  | nil =>
      rw [List.append_nil]
      rfl
  | cons c s ih =>
      rw [List.mem_cons, not_or] at hs
      rw [List.cons_append, run, step, dataStep, if_neg (Ne.symm hs.1)]
      show run E (.data (acc ++ [c])) (s ++ r) = _
      rw [ih hs.2, List.append_assoc]
      rfl

/-- A text and the tag behind it. -/
def textTag (s r : List Char) (tag : Token) : Markup :=
  ⟨s ++ '<' :: r, (textOf E s).map .char ++ [tag]⟩

theorem alone_textTag {s r : List Char} {tag : Token} (hs : '<' ∉ s) (hcr : '\r' ∉ s)
    (hcr' : '\r' ∉ r) (h : ∀ x, run E .tagOpen (r ++ x) = tag :: run E (.data []) x) :
    (textTag E s r tag).Alone E where
  reads x := by
    have hstop : run E (.data s) ('<' :: (r ++ x)) =
        (textOf E s).map .char ++ run E .tagOpen (r ++ x) := rfl
    rw [textTag, List.append_assoc, List.append_assoc, List.cons_append, run_collect E hs,
      List.nil_append, hstop, h, List.singleton_append]
  noReturn := by
    rw [textTag, List.mem_append, List.mem_cons, not_or, not_or]
    exact ⟨hcr, by decide, hcr'⟩

/-- The reference of a bracket, wherever it stands. -/
theorem run_bracket {b : List Char} {c : Char} (hamp : ∃ b', b = '&' :: b' ∧ '<' ∉ b')
    (h : ∀ t, textOf E (b ++ t) = c :: textOf E t) (r : List Char) :
    run E (.data []) (b ++ r) = .char c :: run E (.data []) r := by
  obtain ⟨b', rfl, hb'⟩ := hamp
  have hlt : '<' ∉ '&' :: b' := by
    rw [List.mem_cons, not_or]
    exact ⟨by decide, hb'⟩
  have htext : ∀ t, textOf E ('&' :: b' ++ ([] ++ t)) = [c] ++ textOf E ([] ++ t) := h
  have hpiece := run_data_piece E htext [] r
  rw [run_collect E hlt, List.nil_append, ← List.append_nil ('&' :: b')]
  exact hpiece

def opening : List Char := "&#40;".toList
def closing : List Char := "&#41;".toList

theorem run_opening (r : List Char) :
    run E (.data []) (opening ++ r) = .char '(' :: run E (.data []) r :=
  run_bracket E ⟨_, rfl, by decide⟩ (fun _ => rfl) r

theorem run_closing (r : List Char) :
    run E (.data []) (closing ++ r) = .char ')' :: run E (.data []) r :=
  run_bracket E ⟨_, rfl, by decide⟩ (fun _ => rfl) r

theorem stops_opening (r : List Char) : Stops E (opening ++ r) := stops_amp E _
theorem stops_closing (r : List Char) : Stops E (closing ++ r) := stops_amp E _

/-- What is written. -/
def bracketed (u v : List Char) : List Char := u ++ (opening ++ (v ++ closing))

/-- What it should be read as. -/
def bracketTokens (t s : List Char) : List Token :=
  t.map .char ++ .char '(' :: (s.map .char ++ [.char ')'])

variable {E} {r : List Char}

/-- The two texts and what stands behind them, with their line ends normalised. -/
theorem normalize_bracketed (u v r : List Char) : normalize (bracketed u v ++ r) =
    normalize u ++ (opening ++ (normalize v ++ (closing ++ normalize r))) := by
  have hopening : '\r' ∉ opening := by decide
  have hclosing : '\r' ∉ closing := by decide
  have hhead : ∀ x, (opening ++ x).head? ≠ some '\n' := fun x h => nomatch Option.some.inj h
  have hhead' : (closing ++ r).head? ≠ some '\n' := fun h => nomatch Option.some.inj h
  rw [bracketed, List.append_assoc, List.append_assoc, List.append_assoc,
    normalize_append (.inr (hhead _)), normalize_append (.inl hopening),
    normalize_append (.inr hhead'), normalize_append (.inl hclosing), normalize_eq_self hopening,
    normalize_eq_self hclosing]

/-- **Texts that are inert** are read as themselves. -/
theorem read_brackets {t s : List Char} (ht : Inert E t) (hs : Inert E s) :
    run E (.data []) (normalize (bracketed t s ++ r)) =
      bracketTokens t s ++ run E (.data []) (normalize r) := by
  rw [normalize_bracketed, read_inert (stops_opening E _) ht, run_opening,
    read_inert (stops_closing E _) hs, run_closing, bracketTokens]
  simp only [List.append_assoc, List.cons_append, List.nil_append]

/-- **A text of free characters** ends at its bracket. -/
theorem read_free {u t b x : List Char} {c : Char} {ys : List Token}
    (hu : ∀ c ∈ u, isFree c = true) (ht : ∀ c ∈ t, isFree c = true)
    (hc : ∀ {w : List Char}, (∀ c ∈ w, isFree c = true) → c ∉ w) (hb : Stops E (b ++ x))
    (hrun : run E (.data []) (b ++ x) = .char c :: run E (.data []) x)
    (h : run E (.data []) (normalize u ++ (b ++ x)) = t.map .char ++ .char c :: ys) :
    u = t ∧ Inert E t ∧ run E (.data []) x = ys := by
  have hinert := inert_of_free E hu
  have hno : ∀ {w : List Char}, (∀ c ∈ w, isFree c = true) → Token.char c ∉ w.map Token.char := by
    intro w hw hmem
    obtain ⟨d, hd, heq⟩ := List.mem_map.mp hmem
    cases heq
    exact hc hw hd
  rw [read_inert hb hinert, hrun] at h
  obtain ⟨hut, hrest⟩ := cut_first (hno hu) (hno ht) h
  have hut : u = t := List.map_injective_iff.mpr (fun _ _ => Token.char.inj) hut
  exact ⟨hut, hut ▸ hinert, hrest⟩

/-- The second text, when the first one is read. -/
theorem second_of_read {v s : List Char} {ys : List Token} (hv : Written v s) (hys : NoChar ys)
    (hafter : NoChar (run E (.data []) r))
    (h : run E (.data []) (normalize v ++ (closing ++ r)) = s.map .char ++ .char ')' :: ys) :
    v = s ∧ Inert E s ∧ run E (.data []) r = ys := by
  cases hv with
  | free hv hs => exact read_free hv hs not_mem_close (stops_closing E r) (run_closing E r) h
  | replaced f hf hvs =>
      obtain ⟨x, rest, hrun, hle, hrest, hread⟩ := read_slot (stops_closing E r) v
      rw [hrun] at h
      have hchars : s.map Token.char ++ .char ')' :: ys = (s ++ [')']).map Token.char ++ ys := by
        rw [List.map_append, List.append_assoc]
        rfl
      have hlen : v.length = s.length := by rw [hvs, List.length_map]
      rw [hchars] at h
      rcases hrest with rfl | ⟨hno, hlt⟩
      · rw [run_closing] at h
        have hx : x.map Token.char ++ .char ')' :: run E (.data []) r =
            (x ++ [')']).map Token.char ++ run E (.data []) r := by
          rw [List.map_append, List.append_assoc]
          rfl
        rw [hx] at h
        obtain ⟨hxs, htail⟩ := map_char_append_inj hafter hys h
        obtain ⟨hvs', hinert⟩ := eq_of_read hf hvs (List.append_cancel_right hxs) hread
        exact ⟨hvs', hinert, htail⟩
      · obtain ⟨hxs, -⟩ := map_char_append_inj hno hys h
        have := congrArg List.length hxs
        rw [List.length_append, List.length_singleton] at this
        omega

/-- The second text, when both are read as characters: a text of free characters
has no bracket, and a replaced one its length. -/
theorem second_of_chars {v s x t y : List Char} (hv : Written v s) (hx : x.length ≤ t.length)
    (hy : y.length ≤ v.length)
    (hrun : run E (.data []) (normalize v ++ (closing ++ r)) =
      y.map .char ++ run E (.data []) (closing ++ r))
    (hread : y.length = v.length → '\r' ∉ y ∧ ('\r' ∉ v → IsPlain E v ∧ y = v))
    (h : x ++ '(' :: y = t ++ '(' :: s) : x = t ∧ v = s ∧ Inert E s := by
  cases hv with
  | free hv hs =>
      have hyv : y = v := by
        have hsame := hrun.symm.trans (read_inert (stops_closing E r) (inert_of_free E hv))
        rw [List.append_cancel_right_eq] at hsame
        exact List.map_injective_iff.mpr (fun _ _ => Token.char.inj) hsame
      subst hyv
      obtain ⟨hxt, hys⟩ := cut_last (not_mem_open hv) (not_mem_open hs) h
      exact ⟨hxt, hys, hys ▸ inert_of_free E hv⟩
  | replaced g hg hvs =>
      have hlen : v.length = s.length := by rw [hvs, List.length_map]
      have hsum := congrArg List.length h
      rw [List.length_append, List.length_append, List.length_cons, List.length_cons] at hsum
      obtain ⟨hxt, hcons⟩ := List.append_inj h (by omega)
      exact ⟨hxt, eq_of_read hg hvs (List.cons.inj hcons).2 hread⟩

/-- Where there is markup in the second text, it is read as too short a one. -/
theorem second_of_markup {v s y : List Char} {rest : List Token} (hv : Written v s)
    (hafter : NoChar (run E (.data []) r))
    (hrun : run E (.data []) (normalize v ++ (closing ++ r)) = y.map .char ++ rest)
    (hno : NoChar rest) (hlt : y.length < v.length) : y.length < s.length := by
  cases hv with
  | free hv hs =>
      have hsame := hrun.symm.trans (read_inert (stops_closing E r) (inert_of_free E hv))
      have hchars : v.map Token.char ++ run E (.data []) (closing ++ r) =
          (v ++ [')']).map Token.char ++ run E (.data []) r := by
        rw [run_closing, List.map_append, List.append_assoc]
        rfl
      have hlong := congrArg List.length
        (map_char_append_inj hno hafter (hsame.trans hchars)).1
      rw [List.length_append, List.length_singleton] at hlong
      omega
  | replaced g hg hvs =>
      have hlen : v.length = s.length := by rw [hvs, List.length_map]
      omega

/-- Both texts, when the first one keeps its length. -/
theorem both_of_read {u v t s : List Char} {f : Char → Char} {ys : List Token}
    (hf : ∀ c, f c = '\r' → c = '\r') (hut : u = t.map f) (hv : Written v s) (hys : NoChar ys)
    (hafter : NoChar (run E (.data []) r))
    (h : run E (.data []) (normalize u ++ (opening ++ (normalize v ++ (closing ++ r)))) =
      (t ++ '(' :: (s ++ [')'])).map .char ++ ys) :
    (u = t ∧ Inert E t) ∧ (v = s ∧ Inert E s) ∧ run E (.data []) r = ys := by
  obtain ⟨x, rest, hrun, hx, hrest, hread⟩ :=
    read_slot (stops_opening E (normalize v ++ (closing ++ r))) u
  obtain ⟨y, rest', hrun', hy, hrest', hread'⟩ := read_slot (stops_closing E r) v
  have hlen : u.length = t.length := by rw [hut, List.length_map]
  rw [hrun] at h
  rcases hrest with rfl | ⟨hno, hlt⟩
  · rw [run_opening, hrun'] at h
    rcases hrest' with rfl | ⟨hno, hlt⟩
    · -- everything is read as characters, up to the markup behind it
      have hchars : x.map Token.char ++ .char '(' :: (y.map Token.char ++
          run E (.data []) (closing ++ r)) =
          (x ++ '(' :: (y ++ [')'])).map Token.char ++ run E (.data []) r := by
        rw [run_closing]
        simp only [List.map_append, List.map_cons, List.map_nil, List.append_assoc,
          List.cons_append, List.nil_append]
      rw [hchars] at h
      obtain ⟨htexts, hend⟩ := map_char_append_inj hafter hys h
      have htexts : x ++ '(' :: y = t ++ '(' :: s := by
        have : (x ++ '(' :: y) ++ [')'] = (t ++ '(' :: s) ++ [')'] := by simpa using htexts
        exact List.append_cancel_right this
      obtain ⟨hxt, hsecond⟩ := second_of_chars hv (by omega) hy hrun' hread' htexts
      exact ⟨eq_of_read hf hut hxt hread, hsecond, hend⟩
    · have hchars : x.map Token.char ++ .char '(' :: (y.map Token.char ++ rest') =
          (x ++ '(' :: y).map Token.char ++ rest' := by
        simp only [List.map_append, List.map_cons, List.append_assoc, List.cons_append]
      rw [hchars] at h
      have hsum := congrArg List.length (map_char_append_inj hno hys h).1
      have hshort := second_of_markup hv hafter hrun' hno hlt
      simp only [List.length_append, List.length_cons, List.length_nil] at hsum
      omega
  · have hsum := congrArg List.length (map_char_append_inj hno hys h).1
    simp only [List.length_append, List.length_cons] at hsum
    omega

/-- **Two texts, one in brackets**, are read as themselves exactly when nothing
has become of them and both are inert. -/
theorem brackets_iff {u v t s : List Char} {ys : List Token} (hu : Written u t) (hv : Written v s)
    (hys : NoChar ys) (hafter : NoChar (run E (.data []) (normalize r))) :
    run E (.data []) (normalize (bracketed u v ++ r)) = bracketTokens t s ++ ys ↔
      (u = t ∧ Inert E t) ∧ (v = s ∧ Inert E s) ∧ run E (.data []) (normalize r) = ys := by
  constructor
  · rw [normalize_bracketed, bracketTokens]
    intro h
    cases hu with
    | free hu ht =>
        rw [List.append_assoc, List.cons_append, List.append_assoc, List.singleton_append] at h
        obtain ⟨hut, hinert, hrest⟩ := read_free hu ht not_mem_open (stops_opening E _)
          (run_opening E _) h
        exact ⟨⟨hut, hinert⟩, and_assoc.mpr (second_of_read hv hys hafter hrest)⟩
    | replaced f hf hut =>
        have htokens : t.map Token.char ++ .char '(' :: (s.map Token.char ++ [.char ')']) =
            (t ++ '(' :: (s ++ [')'])).map Token.char := by
          rw [List.map_append, List.map_cons, List.map_append, List.map_singleton]
        exact both_of_read hf hut hv hys hafter (h.trans (congrArg (· ++ ys) htokens))
  · rintro ⟨⟨rfl, ht⟩, ⟨rfl, hs⟩, rfl⟩
    exact read_brackets ht hs

end Brackets

end Html
