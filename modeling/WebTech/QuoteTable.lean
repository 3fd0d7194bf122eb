/-
# `WebTech.QuoteTable` — the tab `Quote Information`, read back

The figures of a response go into the table's markup as they are.  What a
browser reads there is the table with the figures in its cells exactly when each
cell's text is plain (`quoteTable_readsBack_iff`).  The servlet's figures are
numbers that search_stock1.php has formatted, and those always are: in every run
in which the page is answered by the servlet, each tab view shows the table of
one answer (`panels_of_run`).
-/
import WebTech.Headlines
import WebTech.TabViews
import WebTech.Lib.HtmlTemplate

namespace WebTech.Page

open Html Ecma Ecma.Script

/-! ## What the table should be read as -/

def tag (name : String) : Token := .startTag name.toList [] false
def endTag (name : String) : Token := .endTag name.toList

/-- The start of a cell for text. -/
def tagAligned (align : String) : Token :=
  .startTag "td".toList [("width".toList, "150".toList), ("align".toList, align.toList)] false

/-- The start of the cell between the columns. -/
def tagGap : Token := .startTag "td".toList [("width".toList, "30".toList)] false

def cellTokens (align : String) (t : Text) : List Token :=
  tagAligned align :: t.map .char ++ [endTag "td"]

/-- A label, as it is written and as it is read, and the text beside it. -/
structure Entry where
  written : String
  label : String
  shown : Text

def Entry.tokens (e : Entry) : List Token :=
  cellTokens "left" e.label.toList ++ cellTokens "right" e.shown

/-- A row: two entries and the cell between them. -/
def rowTokens (r : Entry × Entry) : List Token :=
  tag "tr" :: r.1.tokens ++ (tagGap :: endTag "td" :: r.2.tokens ++ [endTag "tr"])

/-- The rows, for the texts of the figures. -/
def tableRows (t : Global → Text) : List (Entry × Entry) :=
  [(⟨"Prev.Close:", "Prev.Close:", t .prev_close⟩,
      ⟨"Day&#39;s Range:", "Day's Range:", t .daylow_val ++ '-' :: t .dayhigh_val⟩),
    (⟨"Open:", "Open:", t .open1⟩,
      ⟨"52wk Range:", "52wk Range:", t .yearlow_val ++ '-' :: t .yearhigh_val⟩),
    (⟨"Bid:", "Bid:", t .bid⟩, ⟨"Volume:", "Volume:", t .volume⟩),
    (⟨"Ask:", "Ask:", t .ask⟩, ⟨"Avg Vol&#40;3m&#41;:", "Avg Vol(3m):", t .adv_val⟩),
    (⟨"1y Target Est:", "1y Target Est:", t .oneyeartargetprice⟩,
      ⟨"Market Cap:", "Market Cap:", t .market_capitalization⟩)]

/-- **The table.** -/
def tableTokens (t : Global → Text) : List Token :=
  tag "table" :: (tableRows t).flatMap rowTokens ++ [endTag "table"]

/-- The texts in its cells. -/
def shownTexts (t : Global → Text) : List Text :=
  (tableRows t).flatMap fun r => [r.1.shown, r.2.shown]

/-- A figure as text. -/
def figure [Floating] (g : Globals) (x : Global) : Text := (toText (g x)).getD []

/-! ## The template -/

section Template

def startTable : Markup := ⟨"<table>".toList, [tag "table"]⟩
def stopTable : Markup := ⟨"</table>".toList, [endTag "table"]⟩
def startRow : Markup := ⟨"<tr>".toList, [tag "tr"]⟩
def stopRow : Markup := ⟨"</tr>".toList, [endTag "tr"]⟩
def startLeft : Markup := ⟨"<td width=\"150\" align=\"left\">".toList, [tagAligned "left"]⟩
def startRight : Markup := ⟨"<td width=\"150\" align=\"right\">".toList, [tagAligned "right"]⟩
def stopCell : Markup := ⟨"</td>".toList, [endTag "td"]⟩
def gap : Markup := ⟨"<td width=\"30\"></td>".toList, [tagGap, endTag "td"]⟩

/-- A label and the end of its cell. -/
def labelText (written label : String) : Markup :=
  ⟨written.toList ++ "</td>".toList, label.toList.map .char ++ [endTag "td"]⟩

/-- The labels, as they are written and as they are read. -/
def labels : List (String × String) :=
  [("Prev.Close:", "Prev.Close:"), ("Day&#39;s Range:", "Day's Range:"), ("Open:", "Open:"),
    ("52wk Range:", "52wk Range:"), ("Bid:", "Bid:"), ("Volume:", "Volume:"), ("Ask:", "Ask:"),
    ("Avg Vol&#40;3m&#41;:", "Avg Vol(3m):"), ("1y Target Est:", "1y Target Est:"),
    ("Market Cap:", "Market Cap:")]

def entryParts (e : Entry) : List Part :=
  [.markup startLeft, .markup (labelText e.written e.label), .markup startRight, .slot e.shown stopCell]

def rowParts (r : Entry × Entry) : List Part :=
  .markup startRow :: entryParts r.1 ++ (.markup gap :: entryParts r.2 ++ [.markup stopRow])

def tableParts (t : Global → Text) : List Part :=
  .markup startTable :: (tableRows t).flatMap rowParts ++ [.markup stopTable]

theorem noChar_tag (name : String) (ts : List Token) : NoChar (tag name :: ts) :=
  fun _ _ h => nomatch h

theorem noChar_endTag (name : String) (ts : List Token) : NoChar (endTag name :: ts) :=
  fun _ _ h => nomatch h

/-! A table tells its texts. -/

theorem cellTokens_inj {align : String} {t t' : Text} {ys ys' : List Token}
    (h : cellTokens align t ++ ys = cellTokens align t' ++ ys') : t = t' ∧ ys = ys' := by
  have hcell : ∀ (u : Text) (zs : List Token), cellTokens align u ++ zs =
      tagAligned align :: (u.map .char ++ endTag "td" :: zs) := by
    intro u zs
    rw [cellTokens]
    simp only [List.cons_append, List.append_assoc, List.nil_append]
  rw [hcell, hcell] at h
  obtain ⟨ht, hys⟩ := map_char_append_inj (noChar_endTag "td" _) (noChar_endTag "td" _)
    (List.cons.inj h).2
  exact ⟨ht, (List.cons.inj hys).2⟩

theorem entryTokens_inj {e e' : Entry} {ys ys' : List Token} (hlabel : e.label = e'.label)
    (h : e.tokens ++ ys = e'.tokens ++ ys') : e.shown = e'.shown ∧ ys = ys' := by
  rw [Entry.tokens, Entry.tokens, List.append_assoc, List.append_assoc, hlabel] at h
  exact cellTokens_inj (List.append_cancel_left h)

theorem rowTokens_inj {r r' : Entry × Entry} {ys ys' : List Token}
    (hlabel : r.1.label = r'.1.label ∧ r.2.label = r'.2.label)
    (h : rowTokens r ++ ys = rowTokens r' ++ ys') :
    [r.1.shown, r.2.shown] = [r'.1.shown, r'.2.shown] ∧ ys = ys' := by
  have hrow : ∀ (r : Entry × Entry) (zs : List Token), rowTokens r ++ zs =
      tag "tr" :: (r.1.tokens ++ (tagGap :: endTag "td" :: (r.2.tokens ++ endTag "tr" :: zs))) := by
    intro r zs
    rw [rowTokens]
    simp only [List.cons_append, List.append_assoc, List.nil_append]
  rw [hrow, hrow] at h
  obtain ⟨hleft, h⟩ := entryTokens_inj hlabel.1 (List.cons.inj h).2
  obtain ⟨hright, h⟩ := entryTokens_inj hlabel.2 (List.cons.inj (List.cons.inj h).2).2
  rw [hleft, hright]
  exact ⟨rfl, (List.cons.inj h).2⟩

/-- **The table tells its texts.** -/
theorem tableTokens_inj {t t' : Global → Text} (h : tableTokens t = tableTokens t') :
    shownTexts t = shownTexts t' := by
  have hrows : ∀ {rs rs' : List (Entry × Entry)} {ys ys' : List Token}, List.Forall₂
      (fun r r' => r.1.label = r'.1.label ∧ r.2.label = r'.2.label) rs rs' →
      rs.flatMap rowTokens ++ ys = rs'.flatMap rowTokens ++ ys' →
      rs.flatMap (fun r => [r.1.shown, r.2.shown]) = rs'.flatMap fun r => [r.1.shown, r.2.shown] := by
    intro rs rs' ys ys' hlabels
    induction hlabels with
    | nil => exact fun _ => rfl
    | cons hlabel _ ih =>
        intro h
        rw [List.flatMap_cons, List.flatMap_cons, List.append_assoc, List.append_assoc] at h
        obtain ⟨hshown, h⟩ := rowTokens_inj hlabel h
        rw [List.flatMap_cons, List.flatMap_cons, hshown, ih h]
  refine hrows ?_ (List.cons.inj h).2
  exact .cons ⟨rfl, rfl⟩ (.cons ⟨rfl, rfl⟩ (.cons ⟨rfl, rfl⟩ (.cons ⟨rfl, rfl⟩
    (.cons ⟨rfl, rfl⟩ .nil))))

/-- **Shorter figures** make the table of others only if they are the others: the
`-` of a range may stand in a figure too, so the lengths tell where it is. -/
theorem tableTokens_iff {t t' : Global → Text}
    (h : ∀ x ∈ zeroTested, (t x).length ≤ (t' x).length) :
    tableTokens t = tableTokens t' ↔ ∀ x ∈ zeroTested, t x = t' x := by
  have hrange : ∀ {a b a' b' : Text}, a.length ≤ a'.length → b.length ≤ b'.length →
      a ++ '-' :: b = a' ++ '-' :: b' → a = a' ∧ b = b' := by
    intro a b a' b' ha hb hab
    have hlen := congrArg List.length hab
    rw [List.length_append, List.length_append, List.length_cons, List.length_cons] at hlen
    obtain ⟨haa, hbb⟩ := List.append_inj hab (by omega)
    exact ⟨haa, (List.cons.inj hbb).2⟩
  simp only [zeroTested, List.forall_mem_cons] at h ⊢
  obtain ⟨-, hlow, hhigh, -, hylow, hyhigh, -⟩ := h
  constructor
  · intro htokens
    have htexts := tableTokens_inj htokens
    simp only [shownTexts, tableRows, List.flatMap_cons, List.flatMap_nil, List.cons_append,
      List.nil_append, List.cons.injEq, and_true] at htexts
    obtain ⟨hprev, hday, hopen, hyear, hbid, hvolume, hask, hadv, htarget, hcap⟩ := htexts
    obtain ⟨hday, hday'⟩ := hrange hlow hhigh hday
    obtain ⟨hyear, hyear'⟩ := hrange hylow hyhigh hyear
    exact ⟨hprev, hday, hday', hopen, hyear, hyear', hbid, hvolume, hask, hadv, htarget, hcap,
      fun x hx => absurd hx List.not_mem_nil⟩
  · rintro ⟨h₁, h₂, h₃, h₄, h₅, h₆, h₇, h₈, h₉, h₁₀, h₁₁, h₁₂, -⟩
    simp only [tableTokens, tableRows, h₁, h₂, h₃, h₄, h₅, h₆, h₇, h₈, h₉, h₁₀, h₁₁, h₁₂]

/-! What the template is read as, and what it asks of the texts. -/

theorem tokens_entryParts (e : Entry) : (entryParts e).flatMap Part.tokens = e.tokens := by
  have h : (entryParts e).flatMap Part.tokens = startLeft.tokens ++
      ((labelText e.written e.label).tokens ++ (startRight.tokens ++
        (e.shown.map .char ++ stopCell.tokens))) := by
    simp only [entryParts, List.flatMap_cons, List.flatMap_nil, List.append_nil, Part.tokens]
  rw [h]
  rfl

theorem tokens_rowParts (r : Entry × Entry) : (rowParts r).flatMap Part.tokens = rowTokens r := by
  have h : (rowParts r).flatMap Part.tokens = startRow.tokens ++ r.1.tokens ++
      (gap.tokens ++ r.2.tokens ++ stopRow.tokens) := by
    simp only [rowParts, List.flatMap_append, List.flatMap_cons, List.flatMap_nil, List.append_nil,
      tokens_entryParts, Part.tokens]
  rw [h]
  rfl

theorem tokens_tableParts (t : Global → Text) :
    (tableParts t).flatMap Part.tokens = tableTokens t := by
  simp only [tableParts, tableTokens, List.flatMap_append, List.flatMap_cons, List.flatMap_assoc,
    tokens_rowParts]
  rfl

variable (E : Entities)

theorem alone_startTable : startTable.Alone E := ⟨fun _ => rfl, by decide⟩
theorem alone_stopTable : stopTable.Alone E := ⟨fun _ => rfl, by decide⟩
theorem alone_startRow : startRow.Alone E := ⟨fun _ => rfl, by decide⟩
theorem alone_stopRow : stopRow.Alone E := ⟨fun _ => rfl, by decide⟩
theorem alone_startRight : startRight.Alone E := ⟨fun _ => rfl, by decide⟩
theorem alone_gap : gap.Alone E := ⟨fun _ => rfl, by decide⟩

theorem ends_stopCell : stopCell.Ends E where
  reads _ := rfl
  noReturn := by decide
  endTag := ⟨'t', "d>".toList, rfl, rfl⟩
  noChar _ := fun _ _ h => nomatch h

theorem alone_startLeft : startLeft.Alone E := ⟨fun _ => rfl, by decide⟩

theorem alone_labelText : ∀ l ∈ labels, (labelText l.1 l.2).Alone E := by
  simp only [labels, List.forall_mem_cons]
  refine ⟨?_, ?_, ?_, ?_, ?_, ?_, ?_, ?_, ?_, ?_, nofun⟩
  all_goals exact ⟨fun _ => rfl, by decide⟩

theorem mem_labels (t : Global → Text) : ∀ r ∈ tableRows t,
    (r.1.written, r.1.label) ∈ labels ∧ (r.2.written, r.2.label) ∈ labels := by
  simp [tableRows, labels]

theorem sound_entryParts {e : Entry} (h : (e.written, e.label) ∈ labels) :
    ∀ p ∈ entryParts e, p.Sound E := by
  simp only [entryParts, List.forall_mem_cons]
  exact ⟨alone_startLeft E, alone_labelText E _ h, alone_startRight E, ends_stopCell E, nofun⟩

theorem sound_tableParts (t : Global → Text) : ∀ p ∈ tableParts t, p.Sound E := by
  have hrows : ∀ r ∈ tableRows t, ∀ p ∈ rowParts r, p.Sound E := by
    intro r hr
    obtain ⟨h₁, h₂⟩ := mem_labels t r hr
    simp only [rowParts, List.forall_mem_append, List.forall_mem_cons]
    exact ⟨⟨alone_startRow E, sound_entryParts E h₁⟩, ⟨alone_gap E, sound_entryParts E h₂⟩,
      alone_stopRow E, nofun⟩
  simp only [tableParts, List.forall_mem_append, List.forall_mem_cons]
  refine ⟨⟨alone_startTable E, fun p hp => ?_⟩, alone_stopTable E, nofun⟩
  obtain ⟨r, hr, hp⟩ := List.mem_flatMap.mp hp
  exact hrows r hr p hp

/-- The texts of the table are those of the template's slots. -/
theorem inert_tableParts (t : Global → Text) : (∀ p ∈ tableParts t, p.Inert E) ↔
    ∀ v ∈ shownTexts t, IsPlain E v ∧ '\r' ∉ v := by
  have hentry : ∀ e, (∀ p ∈ entryParts e, p.Inert E) ↔ IsPlain E e.shown ∧ '\r' ∉ e.shown := by
    intro e
    simp only [entryParts, List.forall_mem_cons]
    exact ⟨fun h => h.2.2.2.1, fun h => ⟨trivial, trivial, trivial, h, nofun⟩⟩
  have hrow : ∀ r, (∀ p ∈ rowParts r, p.Inert E) ↔
      ∀ v ∈ [r.1.shown, r.2.shown], IsPlain E v ∧ '\r' ∉ v := by
    intro r
    simp only [rowParts, List.forall_mem_append, List.forall_mem_cons, hentry]
    exact ⟨fun h => ⟨h.1.2, h.2.1.2, nofun⟩, fun h => ⟨⟨trivial, h.1⟩, ⟨trivial, h.2.1⟩, trivial, nofun⟩⟩
  simp only [tableParts, shownTexts, List.forall_mem_append, List.forall_mem_cons,
    List.forall_mem_flatMap, hrow]
  exact ⟨fun h => h.1.2, fun h => ⟨⟨trivial, h⟩, trivial, nofun⟩⟩

end Template

/-! ## What the page writes -/

section Written
variable [Floating] {g : Globals}

theorem concat_cells (written label : String) {values : List Operand} {shown : Text}
    (h : concat values = some shown) :
    concat (cells written values) = some ((entryParts ⟨written, label, shown⟩).flatMap Part.text) := by
  have hopen : concat [.lit "<td width=\"150\" align=\"left\">", .lit written, .lit "</td>",
      .lit "<td width=\"150\" align=\"right\">"] = some (startLeft.text ++
        ((labelText written label).text ++ startRight.text)) := by
    rw [labelText, List.append_assoc]
    rfl
  have hclose : concat [.lit "</td>"] = some stopCell.text := rfl
  have htext : (entryParts ⟨written, label, shown⟩).flatMap Part.text = startLeft.text ++
      ((labelText written label).text ++ startRight.text) ++ shown ++ stopCell.text := by
    simp only [entryParts, List.flatMap_cons, List.flatMap_nil, List.append_nil, List.append_assoc,
      Part.text]
  rw [htext]
  exact concat_append_texts (concat_append_texts hopen h) hclose

theorem concat_row {left right : List Operand} {e e' : Entry}
    (hl : concat left = some ((entryParts e).flatMap Part.text))
    (hr : concat right = some ((entryParts e').flatMap Part.text)) :
    concat (row left right) = some ((rowParts (e, e')).flatMap Part.text) := by
  have htext : (rowParts (e, e')).flatMap Part.text = startRow.text ++ (entryParts e).flatMap Part.text ++
      (gap.text ++ (entryParts e').flatMap Part.text) ++ stopRow.text := by
    simp only [rowParts, List.flatMap_append, List.flatMap_cons, List.flatMap_nil, List.append_nil,
      List.append_assoc, Part.text]
  have hleft := @concat_append_texts _ [.lit "<tr>"] left startRow.text _ rfl hl
  have hright := @concat_append_texts _ [.lit "<td width=\"30\"></td>"] right gap.text _ rfl hr
  rw [htext]
  exact @concat_append_texts _ _ [.lit "</tr>"] _ stopRow.text (concat_append_texts hleft hright) rfl

theorem text_figure {x : Global} (h : (toText (g x)).isSome) :
    (Operand.val (g x)).text = some (figure g x) := by
  obtain ⟨t, ht⟩ := Option.isSome_iff_exists.mp h
  show toText (g x) = _
  rw [figure, ht]
  rfl

theorem concat_figure {x : Global} (h : (toText (g x)).isSome) :
    concat [.val (g x)] = some (figure g x) :=
  concat_cons.mpr ⟨_, [], text_figure h, rfl, (List.append_nil _).symm⟩

theorem concat_range {x y : Global} (hx : (toText (g x)).isSome) (hy : (toText (g y)).isSome) :
    concat [.val (g x), .lit "-", .val (g y)] = some (figure g x ++ '-' :: figure g y) :=
  concat_cons.mpr ⟨_, _, text_figure hx, concat_cons.mpr ⟨['-'], _, rfl, concat_figure hy, rfl⟩, rfl⟩

/-- **The table is the filled-in template.** -/
theorem quoteTable_eq (h : ∀ x ∈ zeroTested, (toText (g x)).isSome) :
    quoteTable g = some ((tableParts (figure g)).flatMap Part.text) := by
  have hone : ∀ x ∈ zeroTested, concat [.val (g x)] = some (figure g x) :=
    fun x hx => concat_figure (h x hx)
  have htwo : ∀ x ∈ zeroTested, ∀ y ∈ zeroTested,
      concat [.val (g x), .lit "-", .val (g y)] = some (figure g x ++ '-' :: figure g y) :=
    fun x hx y hy => concat_range (h x hx) (h y hy)
  have h₁ := concat_row (concat_cells "Prev.Close:" "Prev.Close:" (hone .prev_close (by decide)))
    (concat_cells "Day&#39;s Range:" "Day's Range:"
      (htwo .daylow_val (by decide) .dayhigh_val (by decide)))
  have h₂ := concat_row (concat_cells "Open:" "Open:" (hone .open1 (by decide)))
    (concat_cells "52wk Range:" "52wk Range:"
      (htwo .yearlow_val (by decide) .yearhigh_val (by decide)))
  have h₃ := concat_row (concat_cells "Bid:" "Bid:" (hone .bid (by decide)))
    (concat_cells "Volume:" "Volume:" (hone .volume (by decide)))
  have h₄ := concat_row (concat_cells "Ask:" "Ask:" (hone .ask (by decide)))
    (concat_cells "Avg Vol&#40;3m&#41;:" "Avg Vol(3m):" (hone .adv_val (by decide)))
  have h₅ := concat_row
    (concat_cells "1y Target Est:" "1y Target Est:" (hone .oneyeartargetprice (by decide)))
    (concat_cells "Market Cap:" "Market Cap:" (hone .market_capitalization (by decide)))
  have hrows := concat_append_texts (concat_append_texts (concat_append_texts
    (concat_append_texts h₁ h₂) h₃) h₄) h₅
  have htext : (tableParts (figure g)).flatMap Part.text = startTable.text ++
      ((tableRows (figure g)).flatMap (fun r => (rowParts r).flatMap Part.text) ++ stopTable.text) := by
    simp only [tableParts, List.flatMap_append, List.flatMap_cons, List.flatMap_nil, List.append_nil,
      List.flatMap_assoc, List.append_assoc, Part.text]
  have hassoc : ∀ a b c d e : Text, a ++ b ++ c ++ d ++ e = a ++ (b ++ (c ++ (d ++ (e ++ [])))) := by
    simp
  rw [hassoc] at hrows
  rw [htext]
  exact concat_cons.mpr ⟨startTable.text, _, rfl,
    @concat_append_texts _ _ [.lit "</table>"] _ stopTable.text hrows rfl, rfl⟩

theorem texts_of_quoteTable {s : Text} (h : quoteTable g = some s) :
    ∀ x ∈ zeroTested, (toText (g x)).isSome := by
  have hall := hasText_of_concat h
  intro x hx
  refine hall (.val (g x)) ?_
  simp only [zeroTested, List.mem_cons, List.not_mem_nil, or_false] at hx
  rcases hx with rfl | rfl | rfl | rfl | rfl | rfl | rfl | rfl | rfl | rfl | rfl | rfl <;>
    simp [row, cells]

/-- The table of plain texts, read back. -/
theorem tokenize_quoteTable (E : Entities) (h : ∀ x ∈ zeroTested, (toText (g x)).isSome) :
    (∃ s, quoteTable g = some s ∧ tokenize E s = tableTokens (figure g)) ↔
      ∀ v ∈ shownTexts (figure g), IsPlain E v ∧ '\r' ∉ v := by
  rw [quoteTable_eq h, ← tokens_tableParts, ← inert_tableParts,
    ← template_iff (sound_tableParts E (figure g))]
  constructor
  · rintro ⟨_, ⟨⟩, hs⟩
    exact hs
  · intro hs
    exact ⟨_, rfl, hs⟩

end Written

/-- **The table, read back**: whatever a response holds, the table is written
exactly when every figure has a text, and read as itself exactly when moreover
every cell's text is plain. -/
theorem quoteTable_readsBack_iff [Floating] (E : Entities) (g : Globals) :
    (∃ s, quoteTable g = some s ∧ tokenize E s = tableTokens (figure g)) ↔
      (∀ x ∈ zeroTested, (toText (g x)).isSome) ∧
        ∀ v ∈ shownTexts (figure g), IsPlain E v ∧ '\r' ∉ v := by
  constructor
  · rintro ⟨s, hs, htokens⟩
    have htexts := texts_of_quoteTable hs
    exact ⟨htexts, (tokenize_quoteTable E htexts).mp ⟨s, hs, htokens⟩⟩
  · rintro ⟨htexts, hplain⟩
    exact (tokenize_quoteTable E htexts).mpr hplain

/-! ## The servlet's figures -/

section Servlet
variable [Floating] {lib : Servlet.Libraries} (hlib : lib.Documented)

/-- The number of a literal is written with digits, signs, points and an `e`. -/
theorem harmless_numText (lit : Text) : ∀ c ∈ numText lit, isHarmless c = true := by
  rw [numText]
  cases Decimals.scan lit with
  | none => exact (by decide : ∀ c ∈ "NaN".toList, isHarmless c = true)
  | some p => exact fun c hc => isHarmless_of (by decide) (Floating.chars p.1 c hc)

include hlib in
/-- What becomes of a formatted number. -/
theorem harmless_amount (column : Text) : ∃ t,
    toText (some (Servlet.textValue lib (Servlet.amount column))) = some t ∧
      ∀ c ∈ t, isHarmless c = true := by
  rw [Servlet.textValue, if_neg (show Servlet.amount column ≠ [] from Decimals.numberFormat_ne_nil _)]
  rcases hlib.stringToValue_amount (Producer.floatval (Utf8.encode column)) with h | ⟨-, lit, d, r, h, -⟩
  · rw [Servlet.amount, h]
    exact ⟨_, rfl, fun c hc => isHarmless_of (by decide) (Decimals.isPriceChar_numberFormat _ 2 c hc)⟩
  · rw [Servlet.amount, h]
    exact ⟨_, rfl, harmless_numText lit⟩

/-- What the servlet can answer with. -/
def IsAnswer (lib : Servlet.Libraries) (content : Text) : Prop :=
  ∃ company q channel, Servlet.FromXml q channel ∧
    content = Servlet.answer lib company q channel

include hlib in
/-- An answer is empty, or all of its variables can be read and its figures are
harmless. -/
theorem IsAnswer.cases {content : Text} (h : IsAnswer lib content) :
    content = [] ∨ ∃ g, Reads (Rfc8259.parse content) g ∧
      ∀ x ∈ zeroTested, ∃ t, toText (g x) = some t ∧ ∀ c ∈ t, isHarmless c = true := by
  obtain ⟨company, q, channel, hxml, rfl⟩ := h
  by_cases hread : Servlet.Readable lib company q
  · obtain ⟨sign, change, chart, hparse⟩ := Servlet.parse_answer hlib hxml hread
    rw [hparse]
    refine .inr ⟨_, Servlet.reads_received hlib q channel sign change chart, fun x hx => ?_⟩
    obtain ⟨n, hn⟩ := Servlet.amount_received q channel sign change chart hx
    rw [Servlet.globalsReceived, hn]
    exact harmless_amount hlib _
  · exact .inl (Servlet.answer_nil hlib hxml hread)

omit [Floating] in
/-- Harmless figures make harmless cells. -/
theorem harmless_shownTexts {t : Global → Text}
    (h : ∀ x ∈ zeroTested, ∀ c ∈ t x, isHarmless c = true) :
    ∀ v ∈ shownTexts t, ∀ c ∈ v, isHarmless c = true := by
  simp only [shownTexts, tableRows, List.flatMap_cons, List.flatMap_nil, List.forall_mem_append,
    List.forall_mem_cons]
  exact ⟨⟨h .prev_close (by decide),
      ⟨h .daylow_val (by decide), by decide, h .dayhigh_val (by decide)⟩, nofun⟩,
    ⟨h .open1 (by decide),
      ⟨h .yearlow_val (by decide), by decide, h .yearhigh_val (by decide)⟩, nofun⟩,
    ⟨h .bid (by decide), h .volume (by decide), nofun⟩,
    ⟨h .ask (by decide), h .adv_val (by decide), nofun⟩,
    ⟨h .oneyeartargetprice (by decide), h .market_capitalization (by decide), nofun⟩, nofun⟩

include hlib in
/-- **The table of an answer** is read as itself. -/
theorem tokenize_answer (E : Entities) {content s : Text} {g : Globals} (h : IsAnswer lib content)
    (hg : Reads (Rfc8259.parse content) g) (hs : quoteTable g = some s) :
    tokenize E s = tableTokens (figure g) := by
  rcases h.cases hlib with rfl | ⟨g', hg', hfigures⟩
  · exact absurd hg not_reads_nil
  · cases hg.unique hg'
    have hharmless : ∀ x ∈ zeroTested, ∀ c ∈ figure g x, isHarmless c = true := by
      intro x hx
      obtain ⟨t, ht, hc⟩ := hfigures x hx
      rw [figure, ht]
      exact hc
    obtain ⟨s', hs', htokens⟩ := (tokenize_quoteTable E (texts_of_quoteTable hs)).mpr fun v hv =>
      inert_of_harmless E (harmless_shownTexts hharmless v hv)
    cases hs.symm.trans hs'
    exact htokens

/-! ## Every run -/

/-- What is received from the servlet is an answer. -/
def FromServlet (lib : Servlet.Libraries) : Event → Prop
  | .readystatechange _ readyState status responseText =>
      readyState = 4 → status = 200 → IsAnswer lib responseText
  | .search _ _ | .tabview _ => True

/-- A tab view made of an answer that was received. -/
def PanelOf (lib : Servlet.Libraries) (w : Window) (v : TabView) : Prop :=
  ∃ i content g, Received w i content ∧ IsAnswer lib content ∧ Reads (Rfc8259.parse content) g ∧
    quoteTable g = some v.quote

/-- **The invariant**: objects hold answers, and while a tab view waits the
variables are those of an answer. -/
structure Fed (lib : Servlet.Libraries) (w : Window) : Prop where
  objects : Objects w
  answers : ∀ r ∈ w.xhrs, r.readyState = 4 → r.status = 200 → IsAnswer lib r.responseText
  waiting : w.pending = [] ∨ ∃ i content, Received w i content ∧ IsAnswer lib content ∧
    Reads (Rfc8259.parse content) w.globals
  panels : ∀ v ∈ w.demoo, PanelOf lib w v

include hlib in
/-- An answer leaves the variables as they were, or reads all of them. -/
theorem Handled.globals_answer {i : Nat} {content : Text} {w w' : Window} {r : Except TypeError Unit}
    (h : Handled i content w r w') (ha : IsAnswer lib content) :
    w'.demoo = [] ∧ (w'.globals = w.globals ∧ w'.pending = w.pending ∨
      Reads (Rfc8259.parse content) w'.globals) := by
  cases h with
  | empty _ => exact ⟨rfl, .inl ⟨rfl, rfl⟩⟩
  | unread x g hc hx =>
      rcases ha.cases hlib with hnil | ⟨g', hg', -⟩
      · exact absurd hnil hc
      · cases (hg' x).symm.trans hx
  | untested g hg _ | zero g hg _ | unnamed g hg _ _ | unfinished g _ hg _ _ _
  | complete g _ _ _ hg _ _ _ _ => exact ⟨rfl, .inr hg⟩

theorem Fed.receive {w : Window} (h : Fed lib w) {i st status : Nat} {text : Text}
    (hans : st = 4 → status = 200 → IsAnswer lib text) :
    ∀ r ∈ (w.receive i st status text).xhrs, r.readyState = 4 → r.status = 200 →
      IsAnswer lib r.responseText := by
  intro r hr h₄ h₂₀₀
  obtain ⟨j, hj⟩ := List.mem_iff_getElem?.mp hr
  rcases receive_cases hj with hj | ⟨r', -, -, rfl⟩
  · exact h.answers r (List.mem_of_getElem? hj) h₄ h₂₀₀
  · exact hans h₄ h₂₀₀

include hlib in
/-- A response that is handled is an answer that was received. -/
theorem Handled.fed {i : Nat} {content : Text} {w w' : Window} {r : Except TypeError Unit}
    (h : Handled i content w r w') (ho : Objects w') (hrec : Received w' i content)
    (hans : ∀ r ∈ w'.xhrs, r.readyState = 4 → r.status = 200 → IsAnswer lib r.responseText)
    (hwait : w.pending = [] ∨ ∃ i content, Received w' i content ∧ IsAnswer lib content ∧
      Reads (Rfc8259.parse content) w.globals) : Fed lib w' := by
  have ha : IsAnswer lib content := by
    obtain ⟨x, hx, -, h₄, h₂₀₀, rfl⟩ := hrec
    exact hans x (List.mem_of_getElem? hx) h₄ h₂₀₀
  obtain ⟨hdemoo, hend⟩ := h.globals_answer hlib ha
  refine ⟨ho, hans, ?_, by rw [hdemoo]; exact nofun⟩
  rcases hend with ⟨hg, hp⟩ | hg
  · rw [hg, hp]
    exact hwait
  · exact .inr ⟨i, content, hrec, ha, hg⟩

include hlib in
theorem Fed.step {w w' : Window} {e : Event} (h : Fed lib w) (he : FromServlet lib e)
    (hs : Page.step w e = some w') : Fed lib w' := by
  have ho := h.objects.step hs
  have hpanels : ∀ v ∈ w.demoo, PanelOf lib w' v := by
    intro v hv
    obtain ⟨i, content, g, hr, hrest⟩ := h.panels v hv
    exact ⟨i, content, g, hr.step hs, hrest⟩
  have hwait : w.pending = [] ∨ ∃ i content, Received w' i content ∧ IsAnswer lib content ∧
      Reads (Rfc8259.parse content) w.globals := by
    rcases h.waiting with hnil | ⟨i, content, hr, hrest⟩
    · exact .inl hnil
    · exact .inr ⟨i, content, hr.step hs, hrest⟩
  rcases step_cases hs with ⟨url, s, rfl⟩ | ⟨i, r, st, status, text, rfl, hr, hc, hend⟩ |
    ⟨k, newslist, hk, hend⟩
  · obtain ⟨xs, req, heq, hnew⟩ := getXMLHttpRequest_eq w url s
    rw [heq] at ho hpanels hwait ⊢
    refine ⟨ho, fun r hr h₄ => ?_, hwait, hpanels⟩
    rcases List.mem_append.mp hr with hr | hr
    · exact h.answers r hr h₄
    · exact absurd h₄ (hnew r hr).2
  · have hans := h.receive (i := i) he
    rcases hend with ⟨-, rfl⟩ | ⟨j, content, x, hj, hh⟩
    · exact ⟨ho, hans, hwait, hpanels⟩
    · obtain ⟨hx, hq⟩ := hh.frame
      have hj' : Responds w' j content := by
        obtain ⟨r', h₁, h₂, h₃⟩ := hj
        exact ⟨r', hq.trans h₁, hx ▸ h₂, h₃⟩
      exact hh.fed hlib ho (hj'.received ho).1 (hx ▸ hans) hwait
  · -- something waits, so the variables are those of an answer
    have hreads : ∃ i content, Received w' i content ∧ IsAnswer lib content ∧
        Reads (Rfc8259.parse content) w.globals := by
      rcases hwait with hnil | hreads
      · rw [hnil] at hk
        cases hk
      · exact hreads
    rcases hend with ⟨-, rfl⟩ | ⟨table, htable, rfl⟩
    · exact ⟨ho, h.answers, .inr hreads, hpanels⟩
    · refine ⟨ho, h.answers, .inr hreads, fun v hv => ?_⟩
      rcases List.mem_append.mp hv with hv | hv
      · exact hpanels v hv
      · obtain ⟨i, content, hrec, ha, hg⟩ := hreads
        rw [List.mem_singleton.mp hv]
        exact ⟨i, content, w.globals, hrec, ha, hg, htable⟩

include hlib in
/-- **The panels of a run.**  Whatever is searched, in whatever order the objects
change and the tab views are rendered: when the page is answered by the servlet,
each tab view shows the table of the figures of one answer that was received. -/
theorem panels_of_run (E : Entities) {es : List Event} {w : Window}
    (hes : ∀ e ∈ es, FromServlet lib e) (h : page.run page.init es = some w) :
    ∀ v ∈ w.demoo, ∃ i content g, Received w i content ∧ Reads (Rfc8259.parse content) g ∧
      tokenize E v.quote = tableTokens (figure g) := by
  have hinit : Fed lib page.init := ⟨⟨nofun, nofun⟩, nofun, .inl rfl, nofun⟩
  have hfed : Fed lib w := Machine.run_invariant_of (M := page) (I := FromServlet lib)
    (fun he hs ht => hs.step hlib he ht) hes hinit h
  intro v hv
  obtain ⟨i, content, g, hrec, ha, hg, hquote⟩ := hfed.panels v hv
  exact ⟨i, content, g, hrec, hg, tokenize_answer hlib E ha hg hquote⟩

end Servlet

/-! ## One answer -/

attribute [local instance] Floating.unbounded

/-- The servlet's answer for an ordinary quote. -/
def ordinaryAnswer : Text :=
  Servlet.answer Servlet.plain (Producer.lit "AAPL") Producer.ordinaryQuote Servlet.twoItems

theorem showable_ordinaryAnswer : showable ordinaryAnswer = true := by decide +kernel
theorem tableOf_ordinaryAnswer : (tableOf ordinaryAnswer).isSome := by decide +kernel

theorem panels_of_ordinaryAnswer :
    ∃ w, page.run page.init (searchRun ordinaryAnswer ++ [.tabview 0]) = some w ∧
      w.demoo.length = 1 ∧
      ∀ v ∈ w.demoo, ∃ i content g, Received w i content ∧ Reads (Rfc8259.parse content) g ∧
        tokenize .basic v.quote = tableTokens (figure g) := by
  obtain ⟨table, ht⟩ := Option.isSome_iff_exists.mp tableOf_ordinaryAnswer
  have hanswer : IsAnswer Servlet.plain ordinaryAnswer := ⟨_, _, _, ⟨by decide, by decide⟩, rfl⟩
  have htab : page.run ((Window.answered ordinaryAnswer).showing 0 ordinaryAnswer) [.tabview 0] =
      some _ := Machine.run_cons.mpr ⟨_, step_tabview _ 0 rfl ht, rfl⟩
  have hrun := Machine.run_append.mpr ⟨_, run_searchRun showable_ordinaryAnswer, htab⟩
  refine ⟨_, hrun, rfl, panels_of_run Servlet.plain_documented .basic (fun e he => ?_) hrun⟩
  simp only [searchRun, List.cons_append, List.nil_append, List.mem_cons, List.not_mem_nil,
    or_false] at he
  rcases he with rfl | rfl | rfl
  · trivial
  · exact fun _ _ => hanswer
  · trivial

end WebTech.Page
