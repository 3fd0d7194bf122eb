/-
# `WebTech.Summary` — the line above the tabs, read back

`changeRequest` writes the name, the symbol, the last price and the change into
one line of markup, with an arrow for the sign of the change.  Whatever has
become of the texts on their way, a browser reads the line as the texts exactly
when each of them is written as it was and plain (`tokenize_summaryText_iff`).
-/
import WebTech.QuoteTable
import WebTech.Lib.HtmlBrackets

namespace WebTech.Page

open Html Ecma

/-! ## The template -/

def startFont : Markup :=
  ⟨"<font size = \"7px\">".toList, [.startTag "font".toList [("size".toList, "7px".toList)] false]⟩

def lineBreaks : Markup := ⟨"<br><br>".toList, [tag "br", tag "br"]⟩

def stopSpan : Markup := ⟨"</span>".toList, [endTag "span"]⟩

/-- The end of the price. -/
def stopPrice (E : Entities) : Markup :=
  textTag E "&nbsp;&nbsp;".toList "/font>".toList (endTag "font")

/-- A space and the picture of an arrow. -/
def image (E : Entities) (gif : Text) : Markup :=
  textTag E [' '] ("img src=\"".toList ++ gif ++ "\" width=\"10px\" height=\"35px\"/>".toList)
    (.startTag "img".toList [("src".toList, gif), ("width".toList, "10px".toList),
      ("height".toList, "35px".toList)] true)

/-- The start of the change, with what ends its style and is read as `attrs`. -/
def startChange (E : Entities) (style close : Text) (attrs : List (Text × Text)) : Markup :=
  textTag E "&nbsp;".toList ("span style=\"".toList ++ style ++ '"' :: close)
    (.startTag "span".toList (("style".toList, style) :: attrs) false)

def up (E : Entities) : Markup :=
  image E "http://www-scf.usc.edu/~csci571/2014Spring/hw6/up_g.gif".toList

def down (E : Entities) : Markup :=
  image E "http://www-scf.usc.edu/~csci571/2014Spring/hw6/down_r.gif".toList

def green (E : Entities) : Markup := startChange E "color:green;font-size:25px".toList ['>'] []

/-- A stray quote behind the style is an attribute. -/
def red (E : Entities) : Markup :=
  startChange E "color:red;font-size:25px".toList ['"', '>'] [(['"'], [])]

/-- The end of the price, the arrow and the start of the change: up and green,
or down and red. -/
def arrow (E : Entities) (rises : Bool) : Markup :=
  (stopPrice E).append <|
    if rises then (up E).append (green E) else (down E).append (red E)

/-- What is written for the texts. -/
def summaryText (E : Entities) (t : Global → Text) (rises : Bool) : Text :=
  startFont.text ++ (bracketed (t .nameval) (t .symbolval) ++ (lineBreaks.text ++
    (t .lasttradeprice_val ++ ((arrow E rises).text ++
      (bracketed (t .change_val) (t .changepercent_val) ++ stopSpan.text)))))

/-- **The line** for the texts. -/
def summaryTokens (E : Entities) (t : Global → Text) (rises : Bool) : List Token :=
  startFont.tokens ++ (bracketTokens (t .nameval) (t .symbolval) ++ (lineBreaks.tokens ++
    ((t .lasttradeprice_val).map .char ++ ((arrow E rises).tokens ++
      (bracketTokens (t .change_val) (t .changepercent_val) ++ stopSpan.tokens)))))

section Template
variable (E : Entities)

theorem alone_startFont : startFont.Alone E := ⟨fun _ => rfl, by decide⟩
theorem alone_lineBreaks : lineBreaks.Alone E := ⟨fun _ => rfl, by decide⟩

theorem alone_stopPrice : (stopPrice E).Alone E :=
  alone_textTag E (by decide) (by decide) (by decide) fun _ => rfl

theorem isQuoted_of_no_amp {s : Text} (hquote : '"' ∉ s) (hamp : '&' ∉ s) (hnull : '\x00' ∉ s) :
    IsQuoted E '"' s :=
  ⟨decode_of_no_amp E hamp, hnull, hquote⟩

theorem alone_image {gif : Text} (h : IsQuoted E '"' gif) (hcr : '\r' ∉ gif) :
    (image E gif).Alone E := by
  have hopen : ∀ x, run E .tagOpen ("img src=\"".toList ++ x) =
      run E (.attrValueDouble ⟨false, "img".toList, []⟩ "src".toList []) x := fun _ => rfl
  have hfresh : Tag.Fresh ⟨false, "img".toList, []⟩ "src".toList := rfl
  refine alone_textTag E (by decide) (by decide) ?_ fun x => ?_
  · simp only [List.mem_append, not_or]
    exact ⟨⟨by decide, hcr⟩, by decide⟩
  · rw [List.append_assoc, List.append_assoc, hopen]
    exact run_quoted E hfresh h _

theorem alone_startChange {style close : Text} {attrs : List (Text × Text)}
    (h : IsQuoted E '"' style) (hcr : '\r' ∉ style) (hcr' : '\r' ∉ close)
    (hattrs : ∀ x, run E (.afterAttrValue ⟨false, "span".toList, [("style".toList, style)]⟩)
      (close ++ x) = .startTag "span".toList (("style".toList, style) :: attrs) false ::
        run E (.data []) x) :
    (startChange E style close attrs).Alone E := by
  have hopen : ∀ x, run E .tagOpen ("span style=\"".toList ++ x) =
      run E (.attrValueDouble ⟨false, "span".toList, []⟩ "style".toList []) x := fun _ => rfl
  have hfresh : Tag.Fresh ⟨false, "span".toList, []⟩ "style".toList := rfl
  refine alone_textTag E (by decide) (by decide) ?_ fun x => ?_
  · simp only [List.mem_append, List.mem_cons, not_or]
    exact ⟨⟨by decide, hcr⟩, by decide, hcr'⟩
  · rw [List.append_assoc, List.append_assoc, hopen, ← hattrs]
    exact run_quoted E hfresh h _

theorem alone_arrow (rises : Bool) : (arrow E rises).Alone E := by
  have hquoted : ∀ s ∈ ["http://www-scf.usc.edu/~csci571/2014Spring/hw6/up_g.gif",
      "http://www-scf.usc.edu/~csci571/2014Spring/hw6/down_r.gif", "color:green;font-size:25px",
      "color:red;font-size:25px"], IsQuoted E '"' s.toList ∧ '\r' ∉ s.toList := by
    have hall : ∀ s ∈ ["http://www-scf.usc.edu/~csci571/2014Spring/hw6/up_g.gif",
        "http://www-scf.usc.edu/~csci571/2014Spring/hw6/down_r.gif", "color:green;font-size:25px",
        "color:red;font-size:25px"], '"' ∉ s.toList ∧ '&' ∉ s.toList ∧ '\x00' ∉ s.toList ∧
          '\r' ∉ s.toList := by
      decide
    intro s hs
    obtain ⟨hquote, hamp, hnull, hcr⟩ := hall s hs
    exact ⟨isQuoted_of_no_amp E hquote hamp hnull, hcr⟩
  simp only [List.forall_mem_cons] at hquoted
  obtain ⟨hup, hdown, hgreen, hred, -⟩ := hquoted
  refine (alone_stopPrice E).append ?_
  cases rises with
  | true =>
      exact (alone_image E hup.1 hup.2).append
        (alone_startChange E hgreen.1 hgreen.2 (by decide) fun _ => rfl)
  | false =>
      exact (alone_image E hdown.1 hdown.2).append
        (alone_startChange E hred.1 hred.2 (by decide) fun _ => rfl)

/-- The arrow's markup begins with a reference, and its tokens with characters
and a tag. -/
theorem arrow_front (rises : Bool) : (∃ r, (arrow E rises).text = '&' :: r) ∧
    ∃ ts, (arrow E rises).tokens = (textOf E "&nbsp;&nbsp;".toList).map .char ++ endTag "font" :: ts := by
  refine ⟨⟨_, rfl⟩, ?_⟩
  cases rises with
  | true => exact ⟨_, List.append_assoc _ [endTag "font"] _⟩
  | false => exact ⟨_, List.append_assoc _ [endTag "font"] _⟩

variable {E}

/-- The price, which is read as it is written. -/
theorem price_iff {u p r : Text} (hu : ∀ c ∈ u, isFree c = true) (rises : Bool) (ys : List Token) :
    run E (.data []) (normalize (u ++ ((arrow E rises).text ++ r))) =
        p.map .char ++ ((arrow E rises).tokens ++ ys) ↔
      u = p ∧ run E (.data []) (normalize r) = ys := by
  obtain ⟨⟨x, hx⟩, ts, hts⟩ := arrow_front E rises
  have hinert := inert_of_free E hu
  have halone := alone_arrow E rises
  have hstops : Stops E ((arrow E rises).text ++ normalize r) := by
    rw [hx]
    exact stops_amp E _
  have hread := read_inert hstops hinert
  rw [halone.reads] at hread
  rw [normalize_append (.inl hinert.2), normalize_append (.inl halone.noReturn),
    normalize_eq_self halone.noReturn, hread, hts]
  have hchars : ∀ (v : Text) (zs : List Token), v.map Token.char ++
      ((textOf E "&nbsp;&nbsp;".toList).map .char ++ endTag "font" :: ts ++ zs) =
        (v ++ textOf E "&nbsp;&nbsp;".toList).map Token.char ++ (endTag "font" :: (ts ++ zs)) := by
    intro v zs
    rw [List.map_append, List.append_assoc, List.append_assoc]
    rfl
  rw [hchars, hchars]
  constructor
  · intro h
    obtain ⟨hup, htail⟩ := map_char_append_inj (noChar_endTag "font" _) (noChar_endTag "font" _) h
    exact ⟨List.append_cancel_right hup, List.append_cancel_left (List.cons.inj htail).2⟩
  · rintro ⟨rfl, rfl⟩
    rfl

/-- **The line, read back**: whatever has become of the texts, it is read as the
texts exactly when they are written as they were, and the four that no number
format made are plain. -/
theorem tokenize_summaryText_iff {w t : Global → Text} (rises : Bool)
    (hname : Written (w .nameval) (t .nameval)) (hsymbol : Written (w .symbolval) (t .symbolval))
    (hchange : Written (w .change_val) (t .change_val))
    (hpercent : Written (w .changepercent_val) (t .changepercent_val))
    (hprice : ∀ c ∈ w .lasttradeprice_val, isFree c = true) :
    tokenize E (summaryText E w rises) = summaryTokens E t rises ↔
      (∀ x ∈ [Global.nameval, .symbolval, .change_val, .changepercent_val],
        w x = t x ∧ Inert E (t x)) ∧ w .lasttradeprice_val = t .lasttradeprice_val := by
  have hbreaks : ∀ ts, NoChar (lineBreaks.tokens ++ ts) := fun ts => noChar_tag "br" (tag "br" :: ts)
  have hbreaks' : ∀ r, NoChar (run E (.data []) (normalize (lineBreaks.text ++ r))) := by
    intro r
    rw [(alone_lineBreaks E).read]
    exact hbreaks _
  have hspan : run E (.data []) (normalize stopSpan.text) = stopSpan.tokens := rfl
  have hstop : NoChar stopSpan.tokens := noChar_endTag "span" []
  rw [tokenize, summaryText, summaryTokens, (alone_startFont E).read, List.append_right_inj,
    brackets_iff hname hsymbol (hbreaks _) (hbreaks' _), (alone_lineBreaks E).read,
    List.append_right_inj, price_iff hprice, brackets_iff hchange hpercent hstop (hspan ▸ hstop)]
  simp only [List.forall_mem_cons, hspan, and_true]
  constructor
  · rintro ⟨h₁, h₂, h₃, h₄, h₅⟩
    exact ⟨⟨h₁, h₂, h₄, h₅, fun x hx => absurd hx List.not_mem_nil⟩, h₃⟩
  · rintro ⟨⟨h₁, h₂, h₄, h₅, -⟩, h₃⟩
    exact ⟨h₁, h₂, h₃, h₄, h₅⟩

end Template

/-! ## What the page writes -/

section Written
variable [Floating] (E : Entities) {g : Globals}

/-- The texts in the line. -/
def summaryGlobals : List Global :=
  [.nameval, .symbolval, .lasttradeprice_val, .change_val, .changepercent_val]

/-- Five texts between literals. -/
theorem concat_five (l₀ l₁ l₂ l₃ l₄ l₅ l₆ l₇ : String) {v₁ v₂ v₃ v₄ v₅ : Value}
    {t₁ t₂ t₃ t₄ t₅ : Text} (h₁ : toText v₁ = some t₁) (h₂ : toText v₂ = some t₂)
    (h₃ : toText v₃ = some t₃) (h₄ : toText v₄ = some t₄) (h₅ : toText v₅ = some t₅) :
    concat [.lit l₀, .val v₁, .lit l₁, .val v₂, .lit l₂, .val v₃, .lit l₃, .lit l₄, .lit l₅,
      .val v₄, .lit l₆, .val v₅, .lit l₇] = some (l₀.toList ++ (t₁ ++ (l₁.toList ++ (t₂ ++
        (l₂.toList ++ (t₃ ++ (l₃.toList ++ (l₄.toList ++ (l₅.toList ++ (t₄ ++ (l₆.toList ++
          (t₅ ++ l₇.toList)))))))))))) := by
  have hlit : ∀ l : String, (Operand.lit l).text = some l.toList := fun _ => rfl
  have hval : ∀ {v : Value} {t : Text}, toText v = some t → (Operand.val v).text = some t := id
  have htexts := concat_texts (.cons (hlit l₀) (.cons (hval h₁) (.cons (hlit l₁) (.cons (hval h₂)
    (.cons (hlit l₂) (.cons (hval h₃) (.cons (hlit l₃) (.cons (hlit l₄) (.cons (hlit l₅)
    (.cons (hval h₄) (.cons (hlit l₆) (.cons (hval h₅) (.cons (hlit l₇) .nil)))))))))))))
  simpa only [List.flatten_cons, List.flatten_nil, List.append_nil] using htexts

omit [Floating] in
/-- The price's end and the arrow, as they are written. -/
theorem text_arrow (rises : Bool) : "&nbsp;&nbsp;</font>".toList ++ (" ".toList ++
    (arrow_disp (some (.str (if rises then ['+'] else [])))).toList) = (arrow E rises).text := by
  have hup : "&nbsp;&nbsp;</font>".toList ++ (" ".toList ++ (arrow_disp (some (.str ['+']))).toList) =
      (arrow .basic true).text := by
    decide +kernel
  have hdown : "&nbsp;&nbsp;</font>".toList ++ (" ".toList ++ (arrow_disp (some (.str []))).toList) =
      (arrow .basic false).text := by
    decide +kernel
  cases rises with
  | true => exact hup
  | false => exact hdown

/-- **The line is the filled-in template.** -/
theorem summary_eq (h : ∀ x ∈ summaryGlobals, (toText (g x)).isSome) {rises : Bool}
    (harrow : arrow_disp (g .changetype_val) =
      arrow_disp (some (.str (if rises then ['+'] else [])))) :
    summary g = some (summaryText E (figure g) rises) := by
  have hval : ∀ x ∈ summaryGlobals, toText (g x) = some (figure g x) := by
    intro x hx
    obtain ⟨t, ht⟩ := Option.isSome_iff_exists.mp (h x hx)
    rw [figure, ht]
    rfl
  have hline := concat_five "<font size = \"7px\">" "&#40;" "&#41;<br><br>" "&nbsp;&nbsp;</font>" " "
    (arrow_disp (g .changetype_val)) "&#40;" "&#41;</span>" (hval .nameval (by decide))
    (hval .symbolval (by decide)) (hval .lasttradeprice_val (by decide))
    (hval .change_val (by decide)) (hval .changepercent_val (by decide))
  have hbr : "&#41;<br><br>".toList = closing ++ lineBreaks.text := by decide
  have hspan : "&#41;</span>".toList = closing ++ stopSpan.text := by decide
  refine hline.trans (congrArg some ?_)
  rw [harrow, hbr, hspan, summaryText, ← text_arrow E rises]
  simp only [List.append_assoc, bracketed]
  rfl

end Written

end WebTech.Page
