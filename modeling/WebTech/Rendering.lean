/-
# `WebTech.Rendering` — the texts of the document, on the page

The servlet's JSON goes to the browser in a charset, `changeRequest` writes the
values it finds there into markup, and the browser reads the markup.

    Name, Symbol, Change, ChangeInPercent, LastTradePriceOnly     the summary
    ChangeType                                                    the arrow in it
    the other prices                                              the quote table

What is read is the texts of the document exactly when the feed has an item,
each of the four texts is plain, survives the conversion and arrives, and every
price survives (`textsShown_iff`).
-/
import WebTech.TextFidelity
import WebTech.Headlines
import WebTech.Summary
import WebTech.Lib.Recoding

/-! ## A response on the screen -/

namespace WebTech.Page

open Ecma

section Rendered
variable [Floating] {w : Window} {i : Nat} {content : Text} {g : Globals}

/-- **A tab view of a response** is scheduled when it is handled to the end. -/
theorem complete_of_tabview {w' : Window} (hr : Responds w i content)
    (hs : page.step (w.after changeRequest) (.tabview w.pending.length) = some w') :
    ∃ g buff newslist, Reads (Rfc8259.parse content) g ∧ summary g = some buff ∧
      newsList (Rfc8259.parse content) (g .news) = some newslist ∧ w'.data_display = buff ∧
      (w'.demoo = [] ∨ ∃ v, quoteTable g = some v.quote ∧ w'.demoo = [v]) := by
  obtain ⟨r, hh⟩ : ∃ r, Handled i content w r (w.after changeRequest) := by
    rcases changeRequest_cases w with ⟨hidle, -⟩ | ⟨j, c, hj, hh⟩
    · exact absurd hr (hidle i content)
    · obtain ⟨rfl, rfl⟩ := hr.unique hj
      exact ⟨_, hh⟩
  obtain ⟨newslist, hk, rfl⟩ := Option.map_eq_some_iff.mp hs
  generalize w.after changeRequest = w₁ at hh hk ⊢
  have hnone : w₁.pending = w.pending → False := by
    intro heq
    rw [heq, List.getElem?_eq_none (Nat.le_refl _)] at hk
    exact nomatch hk
  cases hh with
  | complete g buff newslist' img1 hg hz hbuff hn hi =>
      have hlast : (w.pending ++ [newslist'])[w.pending.length]? = some newslist' :=
        List.getElem?_concat_length
      cases hk.symm.trans hlast
      refine ⟨g, buff, newslist, hg, hbuff, hn, ?_⟩
      rcases renderTabView_cases _ newslist with ⟨-, heq⟩ | ⟨table, htable, heq⟩
      · rw [heq]
        exact ⟨rfl, .inl rfl⟩
      · rw [heq]
        exact ⟨rfl, .inr ⟨⟨table, newslist⟩, htable, rfl⟩⟩
  | _ => exact (hnone rfl).elim

/-- A response of which everything can be made is shown, with its tab view. -/
theorem tabview_of_complete {buff newslist img1 table : Text} (hr : Responds w i content)
    (hg : Reads (Rfc8259.parse content) g) (hz : allZero g zeroTested = some false)
    (hs : summary g = some buff) (hn : newsList (Rfc8259.parse content) (g .news) = some newslist)
    (hi : chartImg g = some img1) (hq : quoteTable g = some table) :
    ∃ w', page.step (w.after changeRequest) (.tabview w.pending.length) = some w' ∧
      w'.data_display = buff ∧ w'.demoo = [⟨table, newslist⟩] := by
  have hafter : w.after changeRequest =
      (((w.cleared.read g).post.display i buff).rule.chart img1).schedule newslist := by
    rcases changeRequest_cases w with ⟨hidle, -⟩ | ⟨j, c, hj, hh⟩
    · exact absurd hr (hidle i content)
    · obtain ⟨rfl, rfl⟩ := hr.unique hj
      exact (hh.eq_complete hg hz hs hn hi).2
  have hlast : (w.pending ++ [newslist])[w.pending.length]? = some newslist :=
    List.getElem?_concat_length
  rw [hafter]
  exact ⟨_, step_tabview _ _ hlast hq, rfl, rfl⟩

end Rendered

end WebTech.Page

namespace WebTech.Servlet

open Xml Utf8 Rfc8259 Ecma Decimals Producer Page Html

/-! ## The way to the browser -/

/-- **The response**, as the page gets it.  The servlet sets no charset, so its
writer's is ISO-8859-1; a character that is printed as an escape arrives in any
charset. -/
structure Wire (lib : Libraries) where
  reads : Text → Text
  recoding : Recoding
  reads_nil : reads [] = []
  parse_reads : ∀ v w, Numerals v → (∀ c ∈ w, isWs c = true) →
    parse (reads (lib.toString v ++ w)) = some (recode recoding v)

/-! ## One value -/

theorem isFree_isDecimal {t : Text} (h : isDecimal t = true) :
    ∀ c ∈ t, isFree c = true ∧ c.toNat < 128 := by
  obtain ⟨neg, int, frac, hparts, rfl⟩ := exists_parts h
  have hdigit : ∀ {c : Char}, c.isDigit = true → isFree c = true ∧ c.toNat < 128 := by
    intro c hc
    obtain ⟨n, hn, rfl⟩ := eq_digitChar hc
    have hall : ∀ k < 10, isFree (Nat.digitChar k) = true ∧ (Nat.digitChar k).toNat < 128 := by decide
    exact hall n hn
  intro c hc
  rw [literal, sign, pointed] at hc
  rcases List.mem_append.mp hc with hc | hc
  · cases neg with
    | true =>
        rw [if_pos rfl, List.mem_singleton] at hc
        rw [hc]
        decide
    | false =>
        rw [if_neg Bool.false_ne_true] at hc
        exact absurd hc List.not_mem_nil
  · rcases List.mem_append.mp hc with hc | hc
    · exact hdigit (hparts.int_digits c hc)
    · split at hc
      · exact absurd hc List.not_mem_nil
      · rcases List.mem_cons.mp hc with rfl | hc
        · decide
        · exact hdigit (hparts.frac_digits c hc)

/-- A character of a word, in whatever case. -/
theorem isFree_isWord {t : Text} {w : String} (hw : w ∈ words) (h : IsWord t w) :
    ∀ c ∈ t, isFree c = true := by
  have hfold : ∀ d ∈ ['<', '&', '\x00', '\r', '(', ')'], ∀ w ∈ words, foldCase d ∉ w.toList := by
    decide
  intro c hc
  have hmem : foldCase c ∈ w.toList := by
    rw [← h]
    exact List.mem_map_of_mem hc
  have hne : ∀ d ∈ ['<', '&', '\x00', '\r', '(', ')'], c ≠ d := by
    rintro d hd rfl
    exact hfold c hd w hw hmem
  simp only [List.forall_mem_cons] at hne
  obtain ⟨hlt, hamp, hnull, hcr, hopen, hclose, -⟩ := hne
  simp only [isFree, isHarmless, Bool.and_eq_true, decide_eq_true_eq]
  exact ⟨⟨⟨⟨⟨hlt, hamp⟩, hnull⟩, hcr⟩, hopen⟩, hclose⟩

section Value
variable [Floating] (ρ : Recoding)

/-- **What a text becomes**: a string, or a value whose text has only free
characters, as the text had. -/
theorem stringToValue_cases (t : Text) : stringToValue t = .str t ∨
    (∃ u, toText (some (stringToValue t)) = some u ∧ ∀ c ∈ u, isFree c = true) ∧
      recode ρ (stringToValue t) = stringToValue t ∧ (∀ c ∈ t, isFree c = true) ∧
      (Survives t → ∀ c ∈ t, c.toNat < 128) := by
  have hword : ∀ {w : String}, w ∈ words → IsWord t w → Survives t → ∀ c ∈ t, c.toNat < 128 := by
    intro w hw h hs
    have hascii : ∀ w ∈ words, ∀ c ∈ w.toList, c.toNat < 128 := by decide
    rw [(survives_word hw h).mp hs]
    exact hascii w hw
  rw [stringToValue]
  by_cases htrue : IsWord t "true"
  · rw [if_pos htrue]
    exact .inr ⟨⟨_, rfl, by decide⟩, rfl, isFree_isWord (by decide) htrue, hword (by decide) htrue⟩
  rw [if_neg htrue]
  by_cases hfalse : IsWord t "false"
  · rw [if_pos hfalse]
    exact .inr ⟨⟨_, rfl, by decide⟩, rfl, isFree_isWord (by decide) hfalse, hword (by decide) hfalse⟩
  rw [if_neg hfalse]
  by_cases hnull : IsWord t "null"
  · rw [if_pos hnull]
    exact .inr ⟨⟨_, rfl, by decide⟩, rfl, isFree_isWord (by decide) hnull, hword (by decide) hnull⟩
  rw [if_neg hnull]
  by_cases hdec : isDecimal t = true
  · rw [if_pos hdec]
    have hchars := isFree_isDecimal hdec
    obtain ⟨d, hscan, -⟩ := scan_shortest (floatval t)
    have htext : numText (floatval t).shortest = Floating.print d := by rw [numText, hscan]
    refine .inr ⟨⟨_, rfl, ?_⟩, rfl, fun c hc => (hchars c hc).1, fun _ c hc => (hchars c hc).2⟩
    rw [htext]
    exact fun c hc => isFree_of (by decide) (Floating.chars d c hc)
  · rw [if_neg hdec]
    exact .inl rfl

end Value

section Figure
variable [Floating] {lib : Libraries} (htyped : TypeDirected lib) (ρ : Recoding) {g : Globals}
  {x : Global} {t : Text} (hx : g x = some (recode ρ (textValue lib t)))
include htyped hx

/-- **What the page writes** for a text: it may have replaced characters, or be
another text of free characters. -/
theorem written_figure : Written (figure g x) t := by
  have hf : ∀ c, ρ.char c = '\r' → c = '\r' := fun c h => ρ.eq_of_char (by decide) (by decide) h
  by_cases ht : t = []
  · rw [ht, textValue, if_pos rfl] at hx
    rw [figure, hx, ht]
    exact .replaced ρ.char hf rfl
  · rw [textValue, if_neg ht, htyped t ht] at hx
    rw [figure, hx]
    rcases stringToValue_cases ρ t with hstr | ⟨⟨u, hu, hfree⟩, hsame, hfree', -⟩
    · rw [hstr]
      exact .replaced ρ.char hf rfl
    · rw [hsame, hu]
      exact .free hfree hfree'

/-- **One text** is written as it was when it survives and arrives. -/
theorem figure_eq_iff : figure g x = t ↔ Survives t ∧ ∀ c ∈ t, ρ.char c = c := by
  have harrives := ρ.map_eq_self_iff t
  by_cases ht : t = []
  · rw [ht, textValue, if_pos rfl] at hx
    rw [figure, hx, ht]
    exact iff_of_true rfl ⟨survives_nil, fun c hc => absurd hc List.not_mem_nil⟩
  · rw [textValue, if_neg ht, htyped t ht] at hx
    rw [figure, hx]
    rcases stringToValue_cases ρ t with hstr | ⟨⟨u, hu, -⟩, hsame, -, hascii⟩
    · have hsurvives : Survives t := (shown_iff t).mp (by rw [hstr]; rfl)
      rw [hstr]
      exact harrives.trans ⟨fun h => ⟨hsurvives, h⟩, And.right⟩
    · have hshown : (some u = some t ↔ Survives t) := by
        rw [← hu]
        exact shown_iff t
      rw [hsame, hu]
      show u = t ↔ _
      rw [← Option.some_inj, hshown]
      exact ⟨fun hs => ⟨hs, fun c hc => ρ.ascii c (hascii hs c hc)⟩, And.left⟩

end Figure

section Price
variable [Floating] {lib : Libraries} (htyped : TypeDirected lib) (ρ : Recoding) {g : Globals}
  {x : Global} {d : Dec} (hx : g x = some (recode ρ (textValue lib (numberFormat d 2))))
include htyped hx

/-- **One price** is written as it was when it survives; otherwise in fewer
characters. -/
theorem figure_price : (figure g x = numberFormat d 2 ↔ PriceSurvives d) ∧
    (figure g x).length ≤ (numberFormat d 2).length ∧ ∀ c ∈ figure g x, isFree c = true := by
  have hascii : ∀ c ∈ numberFormat d 2, isFree c = true ∧ ρ.char c = c := by
    intro c hc
    have hprice := isPriceChar_numberFormat d 2 c hc
    refine ⟨isFree_of (by decide) hprice, ρ.ascii c ?_⟩
    have := isPriceChar_range hprice
    omega
  refine ⟨?_, ?_⟩
  · rw [figure_eq_iff htyped ρ hx, survives_numberFormat]
    exact ⟨And.left, fun h => ⟨h, fun c hc => (hascii c hc).2⟩⟩
  · have hno : ∀ w ∈ words, ¬ IsWord (numberFormat d 2) w := fun w hw => not_isWord_numberFormat d hw
    rw [textValue, if_neg (numberFormat_ne_nil _), htyped _ (numberFormat_ne_nil _), stringToValue,
      if_neg (hno _ (by decide)), if_neg (hno _ (by decide)), if_neg (hno _ (by decide))] at hx
    by_cases hdec : isDecimal (numberFormat d 2) = true
    · rw [if_pos hdec] at hx
      have hlt := (isDecimal_numberFormat d).mp hdec
      obtain ⟨d', hscan, hd'⟩ := scan_shortest (floatval (numberFormat d 2))
      have hfigure : figure g x = (Dec.shortest ⟨d.round 2, 2⟩) := by
        rw [figure, hx]
        show numText _ = _
        rw [numText, hscan]
        show Floating.print d' = _
        rw [Floating.number d' _ hd', print_numberFormat hdec, floatval_numberFormat hlt]
      refine ⟨hfigure ▸ length_shortest_le hlt, fun c hc => ?_⟩
      have hnum := isNumeral_shortest (floatval (numberFormat d 2))
      rw [hfigure, ← floatval_numberFormat hlt] at hc
      rw [isNumeral, Bool.and_eq_true, List.all_eq_true] at hnum
      exact isFree_of (by decide) (hnum.2 c hc)
    · rw [if_neg hdec] at hx
      have hfigure : figure g x = numberFormat d 2 := by
        rw [figure, hx]
        exact (ρ.map_eq_self_iff _).mpr fun c hc => (hascii c hc).2
      rw [hfigure]
      exact ⟨Nat.le_refl _, fun c hc => (hascii c hc).1⟩

end Price

/-! ## The screen -/

/-- The texts that are written as they are read. -/
def namedTexts : List Global := [.nameval, .symbolval, .change_val, .changepercent_val]

/-- **The page shows the texts**: the summary, with the arrow of ChangeType, and
the one table are read as them. -/
structure Shows (E : Entities) (w : Window) (t : Global → Text) : Prop where
  summary : tokenize E w.data_display = summaryTokens E t (decide (t .changetype_val = ['+']))
  table : ∃ v, w.demoo = [v] ∧ tokenize E v.quote = tableTokens t

/-- What the variables hold of the texts of a document. -/
structure Holds (lib : Libraries) (ρ : Recoding) (g : Globals) (t : Global → Text) : Prop where
  scalar : ∀ x ∈ scalars, g x = some (recode ρ (textValue lib (t x)))
  price : ∀ p ∈ prices, ∃ d, t p.1 = numberFormat d 2

theorem mem_scalars_of_named {x : Global} (h : x ∈ namedTexts) : x ∈ scalars := by
  have hall : ∀ x ∈ namedTexts, x ∈ scalars := by decide
  exact hall x h

theorem exists_price {x : Global} (h : x = .lasttradeprice_val ∨ x ∈ zeroTested) :
    ∃ p ∈ prices, p.1 = x := by
  have hall : ∀ x ∈ zeroTested, ∃ p ∈ prices, p.1 = x := by decide
  rcases h with rfl | h
  · exact ⟨_, List.mem_cons_self, rfl⟩
  · exact hall x h

/-- The prices are that of the summary and those of the table. -/
theorem forall_prices_iff {P : Global → Prop} : (∀ p ∈ prices, P p.1) ↔
    P .lasttradeprice_val ∧ ∀ x ∈ zeroTested, P x := by
  constructor
  · intro hall
    refine ⟨hall _ List.mem_cons_self, fun x hx => ?_⟩
    obtain ⟨p, hp, rfl⟩ := exists_price (.inr hx)
    exact hall p hp
  · rintro ⟨hlast, hall⟩
    have hmem : ∀ p ∈ prices, p.1 = .lasttradeprice_val ∨ p.1 ∈ zeroTested := by decide
    intro p hp
    rcases hmem p hp with hp | hp
    · rw [hp]
      exact hlast
    · exact hall _ hp

theorem isLeaf_recode (ρ : Recoding) {v : Json} (h : isScalar v = true) :
    isLeaf (some (recode ρ v)) = true := by
  cases v with
  | null | bool b | num lit | str s => rfl
  | arr vs | obj ms => exact nomatch h

section Screen
variable [Floating] {lib : Libraries} (hlib : lib.Documented) (htyped : TypeDirected lib)
  {ρ : Recoding} {g : Globals} {t : Global → Text} (h : Holds lib ρ g t)
include h

theorem Holds.figure_price (htyped : TypeDirected lib) {x : Global}
    (hx : x = .lasttradeprice_val ∨ x ∈ zeroTested) :
    (figure g x).length ≤ (t x).length ∧ ∀ c ∈ figure g x, isFree c = true := by
  obtain ⟨p, hp, rfl⟩ := exists_price hx
  obtain ⟨d, hd⟩ := h.price p hp
  have hvalue := h.scalar p.1 (List.mem_append_right _ (List.mem_map_of_mem hp))
  rw [hd] at hvalue ⊢
  exact (Servlet.figure_price htyped ρ hvalue).2

omit [Floating] in
include hlib in
/-- A value of the document has a text. -/
theorem Holds.isLeaf {x : Global} (hx : x ∈ scalars) : isLeaf (g x) = true := by
  rw [h.scalar x hx]
  exact isLeaf_recode ρ (isScalar_textValue hlib (t x))

omit [Floating] in
include htyped in
/-- **The arrow** is up when ChangeType is `+`. -/
theorem Holds.arrow : arrow_disp (g .changetype_val) =
    arrow_disp (some (.str (if decide (t .changetype_val = ['+']) = true then ['+'] else []))) := by
  have hplus : stringToValue ['+'] = .str ['+'] := by
    rw [stringToValue, if_neg (by decide), if_neg (by decide), if_neg (by decide),
      if_neg (by decide)]
  have hself : ['+'].map ρ.char = ['+'] := ρ.map_of_ascii (by decide)
  rw [h.scalar .changetype_val (by decide)]
  by_cases ht : t .changetype_val = ['+']
  · rw [if_pos (decide_eq_true ht), ht, textValue, if_neg (List.cons_ne_nil _ _),
      htyped _ (List.cons_ne_nil _ _), hplus, recode, hself]
  · rw [if_neg (by simpa using ht)]
    have hne : recode ρ (textValue lib (t .changetype_val)) ≠ .str ['+'] := by
      intro hrec
      rw [textValue] at hrec
      split at hrec
      · cases hrec
      · next hnil =>
          rw [htyped _ hnil] at hrec
          have hstr : stringToValue (t .changetype_val) = .str ['+'] := by
            cases hv : stringToValue (t .changetype_val) with
            | null | bool b | num lit | arr vs | obj ms =>
                rw [hv] at hrec
                cases hrec
            | str s =>
                rw [hv, recode, Json.str.injEq] at hrec
                rw [(ρ.map_eq_name_iff (by decide) s).mp hrec]
          rw [stringToValue] at hstr
          repeat' split at hstr
          · cases hstr
          · cases hstr
          · cases hstr
          · cases hstr
          · exact ht (Json.str.inj hstr)
    generalize recode ρ (textValue lib (t .changetype_val)) = v at hne
    rw [arrow_disp]
    · rfl
    · rintro ⟨⟩
      exact hne rfl

include hlib htyped in
/-- The table is read as the figures. -/
theorem Holds.tokenize_table (E : Entities) {table : Text} (htable : quoteTable g = some table) :
    tokenize E table = tableTokens (figure g) := by
  have htested : ∀ x ∈ zeroTested, x ∈ scalars := by decide
  have hfree : ∀ x ∈ zeroTested, ∀ c ∈ figure g x, isHarmless c = true := fun x hx c hc =>
    (isFree_spec ((h.figure_price htyped (.inr hx)).2 c hc)).1
  obtain ⟨s, hs, htokens⟩ := (tokenize_quoteTable E fun x hx =>
    toText_isSome (h.isLeaf hlib (htested x hx))).mpr
      fun u hu => inert_of_harmless E (harmless_shownTexts hfree u hu)
  cases htable.symm.trans hs
  exact htokens

include hlib htyped in
/-- **The screen**: what is written for the variables is read as the texts
exactly when each of them is written as it was, and the named ones are plain. -/
theorem Holds.rendered_iff (E : Entities) {w : Window} {v : TabView}
    (hsummary : Page.summary g = some w.data_display) (hdemoo : w.demoo = [v])
    (htable : quoteTable g = some v.quote) : Shows E w t ↔
      (∀ x ∈ namedTexts, figure g x = t x ∧ Inert E (t x)) ∧
        ∀ p ∈ prices, figure g p.1 = t p.1 := by
  have hleaf : ∀ x ∈ scalars, (toText (g x)).isSome := fun x hx =>
    toText_isSome (h.isLeaf hlib hx)
  have hwritten : ∀ x ∈ namedTexts, Written (figure g x) (t x) := fun x hx =>
    written_figure htyped ρ (h.scalar x (mem_scalars_of_named hx))
  have hscalar : ∀ x ∈ summaryGlobals, x ∈ scalars := by decide
  have hline := summary_eq E (fun x hx => hleaf x (hscalar x hx)) (h.arrow htyped)
  rw [hsummary, Option.some_inj] at hline
  have hread := tokenize_summaryText_iff (E := E) (decide (t .changetype_val = ['+']))
    (hwritten .nameval (by decide)) (hwritten .symbolval (by decide))
    (hwritten .change_val (by decide)) (hwritten .changepercent_val (by decide))
    (h.figure_price htyped (.inl rfl)).2
  have htokens := h.tokenize_table hlib htyped E htable
  have hcells := tableTokens_iff fun x hx => (h.figure_price htyped (.inr hx)).1
  rw [forall_prices_iff (P := fun x => figure g x = t x), ← hcells]
  constructor
  · rintro ⟨hs, v', hv', ht⟩
    rw [hdemoo, List.cons.injEq] at hv'
    obtain ⟨rfl, -⟩ := hv'
    rw [hline] at hs
    obtain ⟨hnamed, hlast⟩ := hread.mp hs
    exact ⟨hnamed, hlast, htokens.symm.trans ht⟩
  · rintro ⟨hnamed, hlast, ht⟩
    refine ⟨?_, v, hdemoo, htokens.trans ht⟩
    rw [hline]
    exact hread.mpr ⟨hnamed, hlast⟩

end Screen

/-! ## The document in the browser -/

/-- An item of `News`, for the texts of its title and its link. -/
def itemRead (p : Text × Text) : Element Text :=
  .node "Item".toList [.leaf "Title".toList p.1, .leaf "Link".toList p.2]

/-- The items are read one by one. -/
theorem traverseAll_items {lib : Libraries} {channel : List ChannelChild} {es : List (Element Text)}
    (h : Element.traverseAll lib.xmlText (Producer.newsItems channel) = some es) :
    ∃ ps : List (Text × Text), es = ps.map itemRead ∧ ps.length = (items channel).length := by
  rw [newsItems_eq] at h
  generalize items channel = is at h
  induction is generalizing es with
  | nil =>
      cases h
      exact ⟨[], rfl, rfl⟩
  | cons i is ih =>
      obtain ⟨d, hd, h⟩ := Option.bind_eq_some_iff.mp h
      obtain ⟨ds, hds, rfl⟩ := Option.map_eq_some_iff.mp h
      obtain ⟨ps, rfl, hlen⟩ := ih hds
      obtain ⟨cs, hcs, rfl⟩ := Option.map_eq_some_iff.mp hd
      obtain ⟨title, htitle, hcs⟩ := Option.bind_eq_some_iff.mp hcs
      obtain ⟨rest, hrest, rfl⟩ := Option.map_eq_some_iff.mp hcs
      obtain ⟨link, hlink, hrest⟩ := Option.bind_eq_some_iff.mp hrest
      cases hrest
      obtain ⟨u, -, rfl⟩ := Option.map_eq_some_iff.mp htitle
      obtain ⟨v, -, rfl⟩ := Option.map_eq_some_iff.mp hlink
      exact ⟨(u, v) :: ps, rfl, congrArg Nat.succ hlen⟩

/-- The variables, when the page has read the document. -/
def globalsRead (lib : Libraries) (ρ : Recoding) (tree : Element Text) : Globals := fun x =>
  ((root tree).reach x.path).map fun e => recode ρ (value lib e)

theorem recode_grouped (ρ : Recoding) (vs : List Json) :
    recode ρ (grouped vs) = grouped (vs.map (recode ρ)) := by
  rcases vs with _ | ⟨v, _ | ⟨w, vs⟩⟩
  · rfl
  · rfl
  · exact congrArg Json.arr (recodeElems_eq ρ (v :: w :: vs))

/-! The headlines. -/

section News
variable {lib : Libraries} (hlib : lib.Documented) (ρ : Recoding)
include hlib

/-- A headline can be made of any item. -/
theorem entryOf_isSome [Floating] (p : Text × Text) :
    (entryOf (recode ρ (value lib (itemRead p)))).isSome := by
  have htext : ∀ t, (Operand.val (some (recode ρ (textValue lib t)))).text.isSome := fun t =>
    toText_isSome (isLeaf_recode ρ (isScalar_textValue hlib t))
  have hlink : getProp (some (value lib (itemRead p))) "Link" = some (some (textValue lib p.2)) :=
    getProp_only hlib (c := .leaf "Link".toList p.2) rfl
  have htitle : getProp (some (value lib (itemRead p))) "Title" = some (some (textValue lib p.1)) :=
    getProp_only hlib (c := .leaf "Title".toList p.1) rfl
  have hlink' := getProp_recode ρ (k := "Link") (by decide) (some (value lib (itemRead p)))
  have htitle' := getProp_recode ρ (k := "Title") (by decide) (some (value lib (itemRead p)))
  rw [hlink] at hlink'
  rw [htitle] at htitle'
  replace hlink' : getProp (some (recode ρ (value lib (itemRead p)))) "Link" = _ := hlink'
  replace htitle' : getProp (some (recode ρ (value lib (itemRead p)))) "Title" = _ := htitle'
  rw [entryOf, hlink', htitle']
  exact concat_isSome (((((HasText.nil.cons rfl).cons (htext _)).cons rfl).cons (htext _)).cons rfl)

/-- The member `Item` of `News`. -/
theorem item_read {ps : List (Text × Text)} (hne : ps ≠ []) :
    getProp (some (recode ρ (value lib (.node "News".toList (ps.map itemRead))))) "Item" =
      some (some (grouped (ps.map fun p => recode ρ (value lib (itemRead p))))) := by
  have hall : (ps.map itemRead).filter (fun c => c.name = "Item".toList) = ps.map itemRead := by
    refine List.filter_eq_self.mpr fun c hc => ?_
    obtain ⟨p, -, rfl⟩ := List.mem_map.mp hc
    exact decide_eq_true rfl
  have hitems : ps.map itemRead ≠ [] := List.map_eq_nil_iff.not.mpr hne
  have hitem := getProp_recode ρ (k := "Item") (by decide)
    (some (value lib (.node "News".toList (ps.map itemRead))))
  rw [getProp_value hlib hitems, hall, if_neg hitems] at hitem
  replace hitem : getProp (some (recode ρ (value lib (.node "News".toList (ps.map itemRead))))) "Item" =
    some (some (recode ρ (grouped ((ps.map itemRead).map (value lib))))) := hitem
  rw [hitem, recode_grouped, List.map_map, List.map_map]
  rfl

/-- An item has no length. -/
theorem length_item (p : Text × Text) :
    getProp (some (recode ρ (value lib (itemRead p)))) "length" = some none := by
  have hlength : getProp (some (value lib (itemRead p))) "length" = some none :=
    getProp_value hlib (List.cons_ne_nil _ _) "length"
  have hobj : ∃ ms, value lib (itemRead p) = .obj ms := ⟨_, by rw [itemRead, value]⟩
  obtain ⟨ms, hms⟩ := hobj
  rw [hms] at hlength ⊢
  replace hlength : some (lookup "length".toList ms) = some none := hlength
  show some (lookup "length".toList (recodeMembers ρ ms)) = _
  rw [lookup_recode ρ (by decide), Option.some.inj hlength]
  rfl

end News

section Document
variable {lib : Libraries} (hlib : lib.Documented) (wire : Wire lib) {company : PhpString}
  {elemFinance : List Child} {channel : List ChannelChild} {tree : Element Text}
  (h : (document company elemFinance channel).traverse lib.xmlText = some tree)
include h

theorem reach_root {c : Element PhpString} {ks : List String}
    (hc : (document company elemFinance channel).reach ks = some c) :
    ∃ c', (root tree).reach ("result" :: ks) = some c' ∧ c.traverse lib.xmlText = some c' := by
  obtain ⟨c', hreach, htrav⟩ := Element.reach_traverse h hc
  have hname : tree.name = "result".toList := Element.name_traverse h
  have honly : (root tree).only "result" = some tree := by
    rw [Element.only, root, Element.children, List.filter_cons, if_pos (decide_eq_true hname)]
    rfl
  refine ⟨c', ?_, htrav⟩
  rw [Element.reach, honly]
  exact hreach

/-- The texts of the document, each with the element it is read from. -/
theorem text_root {x : Global} (hx : x ∈ scalars) : ∃ n t,
    (root tree).reach x.path = some (.leaf n t) ∧
      elementText lib (document company elemFinance channel) x = some t := by
  obtain ⟨n, s, hreach, htext⟩ := reach_scalar company elemFinance channel x hx
  obtain ⟨c, hc, htrav⟩ := reach_root h hreach
  obtain ⟨t, ht, rfl⟩ := Option.map_eq_some_iff.mp htrav
  have hpath : x.path = "result" :: x.path.tail := by
    cases x with
    | _ => rfl
  refine ⟨n, t, hpath ▸ hc, ?_⟩
  rw [elementText, htext]
  exact ht

theorem chart_root : ∃ n t,
    (root tree).reach Global.stock_chart_img.path = some (.leaf n t) := by
  have hchart : (document company elemFinance channel).reach ["StockChartImageURL"] =
      some (element "StockChartImageURL" (xml_chart company)) := rfl
  obtain ⟨c, hc, htrav⟩ := reach_root h hchart
  obtain ⟨t, -, rfl⟩ := Option.map_eq_some_iff.mp htrav
  exact ⟨_, t, hc⟩

theorem news_root : ∃ ps : List (Text × Text),
    (root tree).reach Global.news.path = some (.node "News".toList (ps.map itemRead)) ∧
      ps.length = (items channel).length := by
  have hnews : (document company elemFinance channel).reach ["News"] =
      some (.node "News".toList (Producer.newsItems channel)) := rfl
  obtain ⟨c, hc, htrav⟩ := reach_root h hnews
  obtain ⟨es, hes, rfl⟩ := Option.map_eq_some_iff.mp htrav
  obtain ⟨ps, rfl, hlen⟩ := traverseAll_items hes
  exact ⟨ps, hc, hlen⟩

include hlib

/-- **What the page reads** of the document: all of its variables. -/
theorem reads_wire : parse (wire.reads (doGet lib (document company elemFinance channel))) =
      some (recode wire.recoding (toJSONObject lib tree)) ∧
    Reads (some (recode wire.recoding (toJSONObject lib tree)))
      (globalsRead lib wire.recoding tree) := by
  constructor
  · rw [doGet, h]
    exact wire.parse_reads _ _ (numerals_value hlib _) (by decide)
  · intro x
    have hmember : ∀ k ∈ x.path, IsMember k := by
      cases x with
      | _ => decide
    obtain ⟨c, hc⟩ : ∃ c, (root tree).reach x.path = some c := by
      by_cases hx : x ∈ scalars
      · obtain ⟨n, t, hreach, -⟩ := text_root h hx
        exact ⟨_, hreach⟩
      · rw [mem_scalars, not_and_or, not_not, not_not] at hx
        rcases hx with rfl | rfl
        · obtain ⟨n, t, hreach⟩ := chart_root h
          exact ⟨_, hreach⟩
        · obtain ⟨ps, hreach, -⟩ := news_root h
          exact ⟨_, hreach⟩
    have hpath := getPath_recode wire.recoding hmember (some (toJSONObject lib tree))
    have hvalue : getPath (some (toJSONObject lib tree)) x.path = some (some (value lib c)) :=
      getPath_value hlib hc
    rw [hvalue] at hpath
    rw [globalsRead, hc]
    exact hpath

theorem isLeaf_chart :
    isLeaf (globalsRead lib wire.recoding tree .stock_chart_img) = true := by
  obtain ⟨n, t, hreach⟩ := chart_root h
  rw [globalsRead, hreach]
  exact isLeaf_recode _ (isScalar_textValue hlib t)

/-- **The headlines** can be listed when there is an item. -/
theorem newsList_isSome_iff [Floating] :
    (newsList (some (recode wire.recoding (toJSONObject lib tree)))
      (globalsRead lib wire.recoding tree .news)).isSome = true ↔ items channel ≠ [] := by
  obtain ⟨ps, hreach, hlen⟩ := news_root h
  have hnews : globalsRead lib wire.recoding tree .news =
      some (recode wire.recoding (value lib (.node "News".toList (ps.map itemRead)))) := by
    rw [globalsRead, hreach]
    rfl
  have hempty : items channel = [] ↔ ps = [] := by
    rw [← List.length_eq_zero_iff, ← hlen, List.length_eq_zero_iff]
  rw [ne_eq, hempty, hnews]
  rcases ps with _ | ⟨p, ps⟩
  · exact iff_of_false nofun fun hne => hne rfl
  refine iff_of_true ?_ (List.cons_ne_nil p ps)
  have hitem := item_read hlib wire.recoding (List.cons_ne_nil p ps)
  have hpath := (reads_wire hlib wire h).2 .news
  rw [hnews] at hpath
  rcases ps with _ | ⟨p', ps⟩
  · replace hitem : getProp _ "Item" = some (some (recode wire.recoding (value lib (itemRead p)))) :=
      hitem
    rw [newsList, hitem]
    simp only [Option.bind_eq_bind, Option.bind_some, length_item hlib]
    rfl
  · have hentry : ∀ q : Text × Text, entryOf (recode wire.recoding (value lib (itemRead q))) =
        some ((entryOf (recode wire.recoding (value lib (itemRead q)))).getD []) := by
      intro q
      obtain ⟨li, hli⟩ := Option.isSome_iff_exists.mp (entryOf_isSome hlib wire.recoding q)
      rw [hli]
      rfl
    rw [newsList_arr hentry (p :: p' :: ps) hpath hitem]
    rfl

end Document

/-! ## Text fidelity -/

section Fidelity
variable [Floating] (E : Entities) {lib : Libraries} (wire : Wire lib)

/-- **A text that is shown as it is**: it survives the conversion, it arrives,
and it is plain. -/
structure Clear (ρ : Recoding) (t : Text) : Prop where
  survives : Survives t
  arrives : ∀ c ∈ t, ρ.char c = c
  inert : Inert E t

/-- **Text fidelity**: in any window that gets the response to the document, the
handler and the tab view it schedules show the texts of the elements. -/
def TextsShown (doc : Element PhpString) : Prop :=
  ∃ t : Global → Text, (∀ x ∈ scalars, elementText lib doc x = some (t x)) ∧
    ∀ w i, Responds w i (wire.reads (doGet lib doc)) →
      ∃ w', page.step (w.after changeRequest) (.tabview w.pending.length) = some w' ∧ Shows E w' t

variable (hlib : lib.Documented) (htyped : TypeDirected lib) (company : PhpString)
  (elemFinance : List Child) (channel : List ChannelChild)

include hlib

omit [Floating] in
theorem elementText_price : ∀ p ∈ prices,
    elementText lib (document company elemFinance channel) p.1 =
      some (numberFormat (Producer.floatval (read elemFinance p.2)) 2) := by
  intro p hp
  rw [elementText, textAt_price company elemFinance channel p hp]
  exact hlib.xmlText_encode _ (isText_numberFormat _)

omit [Floating] in
/-- The variables hold the texts of the document. -/
theorem holds_globalsRead {tree : Element Text} {t : Global → Text}
    (h : (document company elemFinance channel).traverse lib.xmlText = some tree)
    (ht : ∀ x ∈ scalars, elementText lib (document company elemFinance channel) x = some (t x)) :
    Holds lib wire.recoding (globalsRead lib wire.recoding tree) t where
  scalar x hx := by
    obtain ⟨n, u, hreach, hu⟩ := text_root h hx
    cases hu.symm.trans (ht x hx)
    rw [globalsRead, hreach]
    rfl
  price p hp := by
    have hscalar : p.1 ∈ scalars := List.mem_append_right _ (List.mem_map_of_mem hp)
    exact ⟨_, Option.some.inj ((ht p.1 hscalar).symm.trans
      (elementText_price hlib company elemFinance channel p hp))⟩

/-- A response with prices that survive is not all zeros. -/
theorem allZero_globalsRead {g : Globals} {t : Global → Text} (h : Holds lib wire.recoding g t)
    {d : Dec} (hd : t .prev_close = numberFormat d 2) (hs : PriceSurvives d) :
    allZero g zeroTested = some false := by
  have hne : d.round 2 ≠ 0 := by
    intro hzero
    rw [PriceSurvives, hzero] at hs
    exact absurd hs (by decide)
  have hvalue := h.scalar .prev_close (by decide)
  have hself : recode wire.recoding (textValue lib (numberFormat d 2)) =
      textValue lib (numberFormat d 2) := by
    rw [textValue, if_neg (numberFormat_ne_nil _)]
    rcases hlib.stringToValue_amount d with hstr | ⟨-, lit, -, -, hnum, -⟩
    · rw [hstr, recode, wire.recoding.map_of_ascii]
      intro c hc
      have := isPriceChar_range (isPriceChar_numberFormat d 2 c hc)
      omega
    · rw [hnum, recode]
  have hfirst : looseEqZero (g .prev_close) = some false := by
    rw [hvalue, hd, hself, looseEqZero_numberFormat hlib, decide_eq_false hne]
  rw [zeroTested, allZero, hfirst]
  rfl

include htyped

/-- The conditions, for the texts of the elements. -/
theorem figures_iff {tree : Element Text} {t : Global → Text}
    (h : (document company elemFinance channel).traverse lib.xmlText = some tree)
    (ht : ∀ x ∈ scalars, elementText lib (document company elemFinance channel) x = some (t x)) :
    ((∀ x ∈ namedTexts, figure (globalsRead lib wire.recoding tree) x = t x ∧ Inert E (t x)) ∧
      ∀ p ∈ prices, figure (globalsRead lib wire.recoding tree) p.1 = t p.1) ↔
    (∀ x ∈ namedTexts, ∀ u, elementText lib (document company elemFinance channel) x = some u →
        Clear E wire.recoding u) ∧
      ∀ p ∈ prices, PriceSurvives (Producer.floatval (read elemFinance p.2)) := by
  have hholds := holds_globalsRead wire hlib company elemFinance channel h ht
  refine and_congr (forall₂_congr fun x hx => ?_) (forall₂_congr fun p hp => ?_)
  · have hscalar := mem_scalars_of_named hx
    rw [figure_eq_iff htyped wire.recoding (hholds.scalar x hscalar), ht x hscalar]
    constructor
    · rintro ⟨⟨hs, ha⟩, hi⟩ _ ⟨⟩
      exact ⟨hs, ha, hi⟩
    · intro hclear
      obtain ⟨hs, ha, hi⟩ := hclear _ rfl
      exact ⟨⟨hs, ha⟩, hi⟩
  · have hscalar : p.1 ∈ scalars := List.mem_append_right _ (List.mem_map_of_mem hp)
    have hvalue := hholds.scalar p.1 hscalar
    have htext := (ht p.1 hscalar).symm.trans
      (elementText_price hlib company elemFinance channel p hp)
    rw [Option.some.inj htext] at hvalue ⊢
    exact (figure_price htyped wire.recoding hvalue).1

/-- What the texts have to be like when they are shown. -/
theorem figures_of_shown {tree : Element Text}
    (htree : (document company elemFinance channel).traverse lib.xmlText = some tree)
    (h : TextsShown E wire (document company elemFinance channel)) : items channel ≠ [] ∧
      (∀ x ∈ namedTexts, ∀ t, elementText lib (document company elemFinance channel) x = some t →
        Clear E wire.recoding t) ∧
      ∀ p ∈ prices, PriceSurvives (Producer.floatval (read elemFinance p.2)) := by
  obtain ⟨hparse, hreads⟩ := reads_wire hlib wire htree
  have hnews := newsList_isSome_iff hlib wire htree
  rw [← hparse] at hreads hnews
  obtain ⟨t, ht, hshown⟩ := h
  have hholds := holds_globalsRead wire hlib company elemFinance channel htree ht
  obtain ⟨w', hs, hshows⟩ := hshown (.answered _) 0 ⟨_, rfl, rfl, rfl, rfl, rfl⟩
  obtain ⟨g, buff, newslist, hg, hbuff, hlist, hdisplay, hdemoo⟩ :=
    complete_of_tabview ⟨_, rfl, rfl, rfl, rfl, rfl⟩ hs
  cases hg.unique hreads
  obtain ⟨v, hv, -⟩ := hshows.table
  rcases hdemoo with hnil | ⟨v', hquote, hv'⟩
  · rw [hnil] at hv
    exact nomatch hv
  · refine ⟨hnews.mp (by rw [hlist]; rfl), ?_⟩
    apply (figures_iff E wire hlib htyped company elemFinance channel htree ht).mp
    exact (hholds.rendered_iff hlib htyped E (hdisplay ▸ hbuff) hv' hquote).mp hshows

/-- A response of which all texts are as they have to be is shown. -/
theorem shown_of_figures {tree : Element Text}
    (htree : (document company elemFinance channel).traverse lib.xmlText = some tree)
    (hitems : items channel ≠ [])
    (hnamed : ∀ x ∈ namedTexts, ∀ t,
      elementText lib (document company elemFinance channel) x = some t → Clear E wire.recoding t)
    (hprices : ∀ p ∈ prices, PriceSurvives (Producer.floatval (read elemFinance p.2))) :
    TextsShown E wire (document company elemFinance channel) := by
  obtain ⟨hparse, hreads⟩ := reads_wire hlib wire htree
  have hnews := newsList_isSome_iff hlib wire htree
  rw [← hparse] at hreads hnews
  have ht : ∀ x ∈ scalars, elementText lib (document company elemFinance channel) x =
      some ((elementText lib (document company elemFinance channel) x).getD []) := by
    intro x hx
    obtain ⟨n, u, -, hu⟩ := text_root htree hx
    rw [hu]
    rfl
  have hholds := holds_globalsRead wire hlib company elemFinance channel htree ht
  have hleaf : ∀ x, x ≠ .news → isLeaf (globalsRead lib wire.recoding tree x) = true := by
    intro x hx
    by_cases hchart : x = .stock_chart_img
    · rw [hchart]
      exact isLeaf_chart hlib wire htree
    · exact hholds.isLeaf hlib ((mem_scalars x).mpr ⟨hchart, hx⟩)
  have hprev : ((.prev_close, "PreviousClose") : Global × String) ∈ prices := by decide
  have hclose := (ht .prev_close (by decide)).symm.trans
    (elementText_price hlib company elemFinance channel _ hprev)
  have hz := allZero_globalsRead wire hlib hholds (Option.some.inj hclose) (hprices _ hprev)
  have htested : ∀ x ∈ zeroTested, x ≠ .news := by decide
  obtain ⟨buff, hbuff⟩ := Option.isSome_iff_exists.mp (summary_isSome hleaf)
  obtain ⟨newslist, hlist⟩ := Option.isSome_iff_exists.mp (hnews.mpr hitems)
  obtain ⟨img1, himg⟩ := Option.isSome_iff_exists.mp (chartImg_isSome hleaf)
  have htable := quoteTable_eq fun x hx => toText_isSome (hleaf x (htested x hx))
  refine ⟨_, ht, fun w i hr => ?_⟩
  obtain ⟨w', hs, hdisplay, hdemoo⟩ := tabview_of_complete hr hreads hz hbuff hlist himg htable
  refine ⟨w', hs, (hholds.rendered_iff hlib htyped E (hdisplay ▸ hbuff) hdemoo htable).mpr ?_⟩
  exact (figures_iff E wire hlib htyped company elemFinance channel htree ht).mpr ⟨hnamed, hprices⟩

/-- **Which documents are shown with all their texts**: those that can be read,
of a feed with an item, whose named texts are clear and whose prices survive. -/
theorem textsShown_iff : TextsShown E wire (document company elemFinance channel) ↔
    ((document company elemFinance channel).traverse lib.xmlText).isSome ∧ items channel ≠ [] ∧
    (∀ x ∈ namedTexts, ∀ t, elementText lib (document company elemFinance channel) x = some t →
      Clear E wire.recoding t) ∧
    ∀ p ∈ prices, PriceSurvives (Producer.floatval (read elemFinance p.2)) := by
  cases htree : (document company elemFinance channel).traverse lib.xmlText with
  | none =>
      refine iff_of_false ?_ fun h => Bool.noConfusion h.1
      rintro ⟨t, -, hshown⟩
      have hnil : wire.reads (doGet lib (document company elemFinance channel)) = [] := by
        rw [doGet, htree]
        exact wire.reads_nil
      rw [hnil] at hshown
      obtain ⟨w', hs, -⟩ := hshown (.answered []) 0 ⟨_, rfl, rfl, rfl, rfl, rfl⟩
      obtain ⟨g, _, _, hg, -⟩ := complete_of_tabview ⟨_, rfl, rfl, rfl, rfl, rfl⟩ hs
      exact (not_reads_nil hg).elim
  | some tree =>
      constructor
      · intro h
        exact ⟨rfl, figures_of_shown E wire hlib htyped company elemFinance channel htree h⟩
      · rintro ⟨-, hitems, hnamed, hprices⟩
        exact shown_of_figures E wire hlib htyped company elemFinance channel htree hitems hnamed
          hprices

end Fidelity

/-! ## Two documents -/

/-- ISO-8859-1, and nothing escaped that need not be. -/
def latin1 : Wire orgJson where
  reads := List.map Recoding.latin1.char
  recoding := .latin1
  reads_nil := rfl
  parse_reads _ _ h hw := parse_recode .latin1 h hw

attribute [local instance] Floating.unbounded

/-- A quote all of whose prices are 12.34. -/
def flatQuote : List Child :=
  [⟨"Name".toList, "Nestlé (Suisse) S.A.".toList⟩, ⟨"Symbol".toList, "NSRGY".toList⟩,
    ⟨"Change".toList, "-6.95".toList⟩] ++
    prices.map fun p => ⟨p.2.toList, "12.34".toList⟩

theorem flatQuote_shown : orgJson.Documented ∧ TypeDirected orgJson ∧
    TextsShown .basic latin1 (document (lit "NSRGY") flatQuote twoItems) := by
  refine ⟨orgJson_documented, orgJson_typeDirected, ?_⟩
  refine (textsShown_iff .basic latin1 orgJson_documented orgJson_typeDirected (lit "NSRGY") flatQuote
    twoItems).mpr ⟨by decide +kernel, by decide, fun x hx t ht => ?_, by decide +kernel⟩
  have htexts : ∀ x ∈ namedTexts,
      ∀ t ∈ elementText orgJson (document (lit "NSRGY") flatQuote twoItems) x,
        toText (some (stringToValue t)) = some t ∧ (∀ c ∈ t, Recoding.latin1.char c = c) ∧
          ∀ c ∈ t, isHarmless c = true := by
    decide +kernel
  obtain ⟨hshown, harrives, hharmless⟩ := htexts x hx t ht
  exact ⟨(shown_iff t).mp hshown, harrives, inert_of_harmless .basic hharmless⟩

/-- The last price of an ordinary quote, 531.70, loses its zero. -/
theorem ordinaryQuote_not_shown :
    ¬ TextsShown .basic latin1 (document (lit "AAPL") ordinaryQuote.columns twoItems) := by
  intro h
  have hread : ((document (lit "AAPL") ordinaryQuote.columns twoItems).traverse
      orgJson.xmlText).isSome := by
    decide +kernel
  obtain ⟨tree, htree⟩ := Option.isSome_iff_exists.mp hread
  have hprice : ((.lasttradeprice_val, "LastTradePriceOnly") : Global × String) ∈ prices := by decide
  have hlost := (figures_of_shown .basic latin1 orgJson_documented orgJson_typeDirected (lit "AAPL")
    ordinaryQuote.columns twoItems htree h).2.2 _ hprice
  exact absurd hlost (by decide +kernel)

end WebTech.Servlet
