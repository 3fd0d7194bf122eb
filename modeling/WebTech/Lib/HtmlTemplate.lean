/-
# `WebTech.Lib.HtmlTemplate` — markup with texts written into it

A template is markup and slots; a slot is a text and the end tag behind it.  The
markup is read as its tokens wherever it stands, so what is left to ask of a
filled-in template is whether each text is read as itself.

    one part                        `part_iff`
    a template                      `template_iff`
    a text without `<` and `&`      `inert_of_harmless`
-/
import WebTech.Lib.HtmlValue

namespace Html

/-- Markup, and the tokens it should be read as. -/
structure Markup where
  text : List Char
  tokens : List Token

namespace Markup

def append (m m' : Markup) : Markup := ⟨m.text ++ m'.text, m.tokens ++ m'.tokens⟩

variable (E : Entities)

/-- **Markup that stands alone**: it is read as its tokens, whatever follows. -/
structure Alone (m : Markup) : Prop where
  reads : ∀ r, run E (.data []) (m.text ++ r) = m.tokens ++ run E (.data []) r
  noReturn : '\r' ∉ m.text

/-- **Markup that ends a text**: it stands alone, and begins with an end tag. -/
structure Ends (m : Markup) : Prop extends m.Alone E where
  endTag : ∃ a s, isAlpha a = true ∧ m.text = '<' :: '/' :: a :: s
  noChar : ∀ ys, NoChar (m.tokens ++ ys)

variable {E} {m m' : Markup}

theorem Alone.append (h : m.Alone E) (h' : m'.Alone E) : (m.append m').Alone E where
  reads r := by
    rw [Markup.append, List.append_assoc, h.reads, h'.reads, List.append_assoc]
  noReturn hmem := by
    rcases List.mem_append.mp hmem with hmem | hmem
    · exact h.noReturn hmem
    · exact h'.noReturn hmem

/-- Its line ends are normalised already. -/
theorem Alone.read (h : m.Alone E) (r : List Char) :
    run E (.data []) (normalize (m.text ++ r)) = m.tokens ++ run E (.data []) (normalize r) := by
  rw [normalize_append (.inl h.noReturn), normalize_eq_self h.noReturn, h.reads]

theorem Ends.append (h : m.Ends E) (h' : m'.Alone E) : (m.append m').Ends E where
  toAlone := h.toAlone.append h'
  endTag := by
    obtain ⟨a, s, ha, hs⟩ := h.endTag
    exact ⟨a, s ++ m'.text, ha, by rw [Markup.append, hs]; rfl⟩
  noChar ys := by
    rw [Markup.append, List.append_assoc]
    exact h.noChar _

end Markup

/-- A part of a template. -/
inductive Part where
  | markup (m : Markup)
  /-- A text, and the markup that ends it. -/
  | slot (v : List Char) (m : Markup)

namespace Part

def text : Part → List Char
  | markup m => m.text
  | slot v m => v ++ m.text

def tokens : Part → List Token
  | markup m => m.tokens
  | slot v m => v.map .char ++ m.tokens

variable (E : Entities)

/-- The markup is what it should be. -/
def Sound : Part → Prop
  | markup m => m.Alone E
  | slot _ m => m.Ends E

/-- The text is read as itself. -/
def Inert : Part → Prop
  | markup _ => True
  | slot v _ => IsPlain E v ∧ '\r' ∉ v

end Part

section Reading
variable {E : Entities}

/-- **One part** is read as its tokens exactly when its text is inert. -/
theorem part_iff {p : Part} (h : p.Sound E) (r : List Char) (ys : List Token) :
    run E (.data []) (normalize (p.text ++ r)) = p.tokens ++ ys ↔
      p.Inert E ∧ run E (.data []) (normalize r) = ys := by
  cases p with
  | markup m =>
      have hm : m.Alone E := h
      rw [Part.text, Part.tokens, hm.read, List.append_right_inj]
      exact ⟨fun hr => ⟨trivial, hr⟩, And.right⟩
  | slot v m =>
      have hm : m.Ends E := h
      obtain ⟨a, s, ha, hs⟩ := hm.endTag
      have hhead : (m.text ++ r).head? ≠ some '\n' := by
        rw [hs]
        exact fun h => nomatch Option.some.inj h
      -- the end tag is left to be read
      have htag : run E .tagOpen ('/' :: a :: (s ++ normalize r)) =
          m.tokens ++ run E (.data []) (normalize r) := by
        have hreads := hm.reads (normalize r)
        rw [hs] at hreads
        exact hreads
      have hclose : m.text ++ normalize r = '<' :: '/' :: a :: (s ++ normalize r) := by
        rw [hs]
        rfl
      rw [Part.text, Part.tokens, List.append_assoc, normalize_append (.inr hhead),
        normalize_append (.inl hm.noReturn), normalize_eq_self hm.noReturn, hclose,
        List.append_assoc, text_iff E ha (hm.noChar ys), htag, List.append_right_inj]
      exact Iff.rfl

/-- **A template** is read as its tokens exactly when its texts are inert, by
induction on its parts. -/
theorem template_iff {ps : List Part} (h : ∀ p ∈ ps, p.Sound E) :
    tokenize E (ps.flatMap Part.text) = ps.flatMap Part.tokens ↔ ∀ p ∈ ps, p.Inert E := by
  rw [tokenize]
  induction ps with
  | nil => exact iff_of_true rfl nofun
  | cons p ps ih =>
      obtain ⟨hp, hps⟩ := List.forall_mem_cons.mp h
      rw [List.flatMap_cons, List.flatMap_cons, part_iff hp, ih hps, List.forall_mem_cons]

end Reading

/-! ## Texts of harmless characters -/

/-- A character that means nothing in a text. -/
def isHarmless (c : Char) : Bool := c ≠ '<' && c ≠ '&' && c ≠ '\x00' && c ≠ '\r'

theorem isHarmless_spec {c : Char} (h : isHarmless c = true) :
    c ≠ '<' ∧ c ≠ '&' ∧ c ≠ '\x00' ∧ c ≠ '\r' := by
  simpa [isHarmless, and_assoc] using h

theorem isHarmless_of {p : Char → Bool}
    (hp : p '<' = false ∧ p '&' = false ∧ p '\x00' = false ∧ p '\r' = false) {c : Char}
    (h : p c = true) : isHarmless c = true := by
  obtain ⟨hlt, hamp, hnull, hcr⟩ := hp
  simp only [isHarmless, Bool.and_eq_true, decide_eq_true_eq]
  refine ⟨⟨⟨?_, ?_⟩, ?_⟩, ?_⟩ <;> rintro rfl
  · exact Bool.false_ne_true (hlt.symm.trans h)
  · exact Bool.false_ne_true (hamp.symm.trans h)
  · exact Bool.false_ne_true (hnull.symm.trans h)
  · exact Bool.false_ne_true (hcr.symm.trans h)

/-- A text without `&` has no reference. -/
theorem decode_of_no_amp (E : Entities) {attr : Bool} {s : List Char} (h : '&' ∉ s) :
    decode E attr s = s := by
  have hskip := decode_skip (E := E) attr h []
  rw [List.append_nil] at hskip
  exact hskip.trans (List.append_nil s)

/-- **A text of harmless characters** is read as itself. -/
theorem inert_of_harmless (E : Entities) {s : List Char} (h : ∀ c ∈ s, isHarmless c = true) :
    IsPlain E s ∧ '\r' ∉ s := by
  have hlt : '<' ∉ s := fun hm => (isHarmless_spec (h _ hm)).1 rfl
  refine ⟨⟨decode_of_no_amp E fun hm => (isHarmless_spec (h _ hm)).2.1 rfl,
    fun hm => (isHarmless_spec (h _ hm)).2.2.1 rfl, ?_⟩,
    fun hm => (isHarmless_spec (h _ hm)).2.2.2 rfl⟩
  have happ := opensMarkup_append hlt []
  rwa [List.append_nil] at happ

end Html
