/-
# `WebTech.ChartRequests` — what the chart service is asked for

search_stock1.php writes the chart's URL as if it were markup already, and one
of its `&` twice over:

    …/t?s= + $text + &amp;lang=en-US&amp;amp;width=300&amp;height=180

The page writes the URL into an `img` element, whose value is decoded once; the
app hands it to `URL` as it is.  Both ask for the symbol, and both URLs are sent
as they are written when the symbol consists of characters of URLs.  The page's
other parameters are `lang`, `amp;width` and `height`, the app's are `amp;lang`,
`amp;amp;width` and `amp;height` (`chart_requests`).
-/
import WebTech.Clients
import WebTech.Transport
import WebTech.Producer
import WebTech.Lib.HtmlTemplate

namespace WebTech.Clients

open Html Url Utf8 Transport MainActivity

/-- The script's URL for a symbol, and the URL it stands for in markup. -/
def chartUrl (s : Text) : Text :=
  "http://chart.finance.yahoo.com/t?s=".toList ++ s ++
    "&amp;lang=en-US&amp;amp;width=300&amp;height=180".toList

def chartSrc (s : Text) : Text :=
  "http://chart.finance.yahoo.com/t?s=".toList ++ s ++
    "&lang=en-US&amp;width=300&height=180".toList

theorem xml_chart_encode (s : Text) : Producer.xml_chart (encode s) = encode (chartUrl s) := by
  have happ : ∀ a b : Text, encode a ++ encode s ++ encode b = encode (a ++ s ++ b) := by
    intro a b
    rw [encode_append, encode_append]
  exact happ _ _

/-! ## The parameters -/

section Params
variable (C : Charset)

/-- A parameter in which nothing is special. -/
theorem param_plain {name v : Text} (hname : Slot [] name) (hesc : hasEscape v = false)
    (hplus : '+' ∉ v) : param C (name ++ '=' :: v) = (name, v) := by
  rw [param_append hname, formDecode_plain C hesc, map_plus_eq_self_iff.mpr hplus]

variable {s : Text} (h : Clean s)
include h

/-- The symbol comes first, and ends where the other parameters begin. -/
theorem params_chart {r : Text} (hr : '#' ∉ r) :
    params C ("http://chart.finance.yahoo.com/t?s=".toList ++ s ++ '&' :: r) =
      ("s".toList, s) :: ((splitAmp r).filter fun p => p ≠ []).map (param C) := by
  have hslot : Slot "http://chart.finance.yahoo.com/t".toList "s".toList := by decide
  have hfront : "http://chart.finance.yahoo.com/t?s=".toList =
      "http://chart.finance.yahoo.com/t".toList ++ '?' :: ("s".toList ++ ['=']) := by decide
  rw [List.append_assoc, append_urlWith hfront, params_followed hslot C h.noAmp h.noHash hr,
    h.read_eq]

theorem params_chartSrc : params C (chartSrc s) =
    [("s".toList, s), ("lang".toList, "en-US".toList), ("amp;width".toList, "300".toList),
      ("height".toList, "180".toList)] := by
  have hparts : (splitAmp "lang=en-US&amp;width=300&height=180".toList).filter
      (fun p => decide (p ≠ [])) =
      ["lang".toList ++ '=' :: "en-US".toList, "amp;width".toList ++ '=' :: "300".toList,
        "height".toList ++ '=' :: "180".toList] := by decide
  have hshape : chartSrc s = "http://chart.finance.yahoo.com/t?s=".toList ++ s ++
      '&' :: "lang=en-US&amp;width=300&height=180".toList := rfl
  rw [hshape, params_chart C h (by decide), hparts, List.map_cons, List.map_cons, List.map_singleton,
    param_plain C (by decide) rfl (by decide), param_plain C (by decide) rfl (by decide),
    param_plain C (by decide) rfl (by decide)]

theorem params_chartUrl : params C (chartUrl s) =
    [("s".toList, s), ("amp;lang".toList, "en-US".toList), ("amp;amp;width".toList, "300".toList),
      ("amp;height".toList, "180".toList)] := by
  have hparts : (splitAmp "amp;lang=en-US&amp;amp;width=300&amp;height=180".toList).filter
      (fun p => decide (p ≠ [])) =
      ["amp;lang".toList ++ '=' :: "en-US".toList, "amp;amp;width".toList ++ '=' :: "300".toList,
        "amp;height".toList ++ '=' :: "180".toList] := by decide
  have hshape : chartUrl s = "http://chart.finance.yahoo.com/t?s=".toList ++ s ++
      '&' :: "amp;lang=en-US&amp;amp;width=300&amp;height=180".toList := rfl
  rw [hshape, params_chart C h (by decide), hparts, List.map_cons, List.map_cons, List.map_singleton,
    param_plain C (by decide) rfl (by decide), param_plain C (by decide) rfl (by decide),
    param_plain C (by decide) rfl (by decide)]

end Params

/-! ## The way -/

/-- The browser requests the page's URL as it is written. -/
theorem opened_chartSrc {s : Text} (h : ∀ c ∈ s, isQueryChar c = true) :
    opened (chartSrc s) = chartSrc s := by
  have hfront : ∀ c ∈ "http://chart.finance.yahoo.com/t?s=".toList, isQueryChar c = true := by
    decide
  have htail : ∀ c ∈ "&lang=en-US&amp;width=300&height=180".toList, isQueryChar c = true := by
    decide
  have hall : ∀ c ∈ chartSrc s, isQueryChar c = true :=
    List.forall_mem_append.mpr ⟨List.forall_mem_append.mpr ⟨hfront, h⟩, htail⟩
  have hopened := opened_append hall (List.append_ne_nil_of_right_ne_nil _ (by decide)) []
  rwa [List.append_nil, show trimEnd [] = [] from rfl, show percentEncode isQueryChar [] = [] from rfl,
    List.append_nil] at hopened

/-- The app's connection sends its URL as it is written exactly when it sends
the symbol. -/
theorem sends_chartUrl (K : Connection) {s : Text} (h : hasEscape s = false) :
    sends K.carries (chartUrl s) = s.all K.carries := by
  have hhead : "&amp;lang=en-US&amp;amp;width=300&amp;height=180".toList.head? = some '&' := by decide
  have hamp : ∀ c ∈ "&amp;lang=en-US&amp;amp;width=300&amp;height=180".toList.head?,
      Rfc8259.hexVal c = none := by
    rw [hhead]
    rintro c ⟨⟩
    rfl
  have hshape : chartUrl s = "http://chart.finance.yahoo.com/t?s=".toList ++ (s ++
      "&amp;lang=en-US&amp;amp;width=300&amp;height=180".toList) := List.append_assoc _ _ _
  exact (congrArg _ hshape).trans
    (sends_between K (by decide +kernel) (by decide +kernel) hamp h)

/-! ## The element -/

/-- Decoding once takes one `amp;` from each of the script's `&`. -/
theorem decode_chartUrl {E : Entities} (hE : E.HasAmp) {s : Text} (hamp : '&' ∉ s) :
    decode E true (chartUrl s) = chartSrc s := by
  have hdecode : ∀ {front a b c : Text}, '&' ∉ front → '&' ∉ a → '&' ∉ b → '&' ∉ c →
      decode E true (front ++ "&amp;".toList ++ (a ++ "&amp;".toList ++ (b ++ "&amp;".toList ++ c))) =
        front ++ '&' :: (a ++ '&' :: (b ++ '&' :: c)) := by
    intro front a b c hf ha hb hc
    rw [decode_amp hE true hf, decode_amp hE true ha, decode_amp hE true hb, decode_of_no_amp E hc]
  have hfront : '&' ∉ "http://chart.finance.yahoo.com/t?s=".toList ++ s := by
    rw [List.mem_append, not_or]
    exact ⟨by decide, hamp⟩
  have hparts : "&amp;lang=en-US&amp;amp;width=300&amp;height=180".toList =
      "&amp;".toList ++ ("lang=en-US".toList ++ "&amp;".toList ++ ("amp;width=300".toList ++
        "&amp;".toList ++ "height=180".toList)) := by decide
  have hshape : chartUrl s = "http://chart.finance.yahoo.com/t?s=".toList ++ s ++ "&amp;".toList ++
      ("lang=en-US".toList ++ "&amp;".toList ++ ("amp;width=300".toList ++ "&amp;".toList ++
        "height=180".toList)) :=
    (congrArg _ hparts).trans (List.append_assoc _ _ _).symm
  exact (congrArg _ hshape).trans (hdecode hfront (by decide) (by decide) (by decide))

/-- **The image's element** has the decoded URL for its source. -/
theorem tokenize_chartText {E : Entities} (hE : E.HasAmp) {s : Text} (h : Clean s)
    (hcr : '\r' ∉ s) (hnull : '\x00' ∉ s) {m : StockMap} (hm : m.StockChartImageURL = chartUrl s) :
    tokenize E (chartText m) = [.startTag "img".toList [("src".toList, chartSrc s)] true] := by
  -- a character that the script does not write is not in the URL
  have hfree : ∀ {c : Char} {front t : Text}, c ∉ front → c ∉ s → c ∉ t → c ∉ front ++ s ++ t := by
    intro c front t hfront hs ht
    rw [List.mem_append, List.mem_append, not_or, not_or]
    exact ⟨⟨hfront, hs⟩, ht⟩
  have hquote : '"' ∉ chartUrl s := hfree (by decide) h.noQuote (by decide)
  have hline : '\r' ∉ chartUrl s := hfree (by decide) hcr (by decide)
  have hnull' : '\x00' ∉ chartSrc s := hfree (by decide) hnull (by decide)
  have hvalue : valueOf E (chartUrl s) = chartSrc s := by
    rw [valueOf, decode_chartUrl hE h.noAmp]
    refine (List.map_congr_left fun c hc => ?_).trans (List.map_id _)
    rw [replaceNull, if_neg]
    · rfl
    · rintro rfl
      exact hnull' hc
  have hread : ∀ v : Text, '"' ∉ v → '\r' ∉ v →
      tokenize E ("<img src=\"".toList ++ (v ++ '"' :: "/>".toList)) =
        [.startTag "img".toList [("src".toList, valueOf E v)] true] := by
    intro v hq hr
    have hr' : '\r' ∉ "<img src=\"".toList ++ (v ++ '"' :: "/>".toList) := by
      rw [List.mem_append, List.mem_append, not_or, not_or]
      exact ⟨by decide, hr, by decide⟩
    have hopen : ∀ r, run E (.data []) ("<img src=\"".toList ++ r) =
        run E (.attrValueDouble ⟨false, "img".toList, []⟩ "src".toList []) r := fun _ => rfl
    rw [tokenize, normalize_eq_self hr', hopen, run_quotedChars E _ (step_double E _ _) v hq _ []]
    rfl
  have htext : chartText m = "<img src=\"".toList ++ (chartUrl s ++ '"' :: "/>".toList) := by
    have hflat : ∀ a b c : Text, [a, b, c].flatten = a ++ (b ++ c) := by simp
    rw [← hm]
    exact hflat _ _ _
  rw [htext, hread _ hquote hline, hvalue]

/-- **What the chart service is asked for**: by both clients for the symbol; but
only the page names the language and the height, and neither names the width. -/
theorem chart_requests {E : Entities} (hE : E.HasAmp) (C : Charset) {s : Text} (h : Clean s)
    (hcr : '\r' ∉ s) (hnull : '\x00' ∉ s) {m : StockMap}
    (hm : encode m.StockChartImageURL = Producer.xml_chart (encode s)) :
    (∃ src, tokenize E (chartText m) = [.startTag "img".toList [("src".toList, src)] true] ∧
      params C src = [("s".toList, s), ("lang".toList, "en-US".toList),
        ("amp;width".toList, "300".toList), ("height".toList, "180".toList)] ∧
      ((∀ c ∈ s, isQueryChar c = true) → opened src = src)) ∧
    params C m.StockChartImageURL = [("s".toList, s), ("amp;lang".toList, "en-US".toList),
      ("amp;amp;width".toList, "300".toList), ("amp;height".toList, "180".toList)] ∧
    ∀ K : Connection, sends K.carries m.StockChartImageURL = s.all K.carries := by
  have hurl : m.StockChartImageURL = chartUrl s := by
    rw [xml_chart_encode] at hm
    exact encode_injective hm
  refine ⟨⟨chartSrc s, tokenize_chartText hE h hcr hnull hurl, params_chartSrc C h, opened_chartSrc⟩,
    ?_, fun K => ?_⟩
  · rw [hurl]
    exact params_chartUrl C h
  · rw [hurl]
    exact sends_chartUrl K h.noEscape

/-- A record with the script's URL in it. -/
def aaplMap : StockMap :=
  { toMap plainRecord with StockChartImageURL := chartUrl "AAPL".toList }

theorem chart_requests_aapl :
    (∃ src, tokenize .basic (chartText aaplMap) =
        [.startTag "img".toList [("src".toList, src)] true] ∧
      params .utf8 src = [("s".toList, "AAPL".toList), ("lang".toList, "en-US".toList),
        ("amp;width".toList, "300".toList), ("height".toList, "180".toList)] ∧
      ((∀ c ∈ "AAPL".toList, isQueryChar c = true) → opened src = src)) ∧
    params .utf8 aaplMap.StockChartImageURL = [("s".toList, "AAPL".toList),
      ("amp;lang".toList, "en-US".toList), ("amp;amp;width".toList, "300".toList),
      ("amp;height".toList, "180".toList)] ∧
    ∀ K : Connection, sends K.carries aaplMap.StockChartImageURL = "AAPL".toList.all K.carries :=
  chart_requests basic_hasAmp .utf8 ⟨by decide, by decide, by decide, by decide, rfl⟩ (by decide)
    (by decide) (xml_chart_encode _).symm

end WebTech.Clients
