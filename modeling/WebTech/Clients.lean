/-
# `WebTech.Clients` — one response, two clients

The page and the Android app read the same responses with different code.

    a response with a text for every field  ⟹  both have the same texts and headlines   (`clients_agree`)
    the answer of assignment8 to a clean record is such a response                      (`record_reaches_clients`)

They differ in one place: a quote whose tested prices all are `0.00` is announced
as not available by the page and shown by the app.
-/
import WebTech.AppRuns
import WebTech.News
import WebTech.Suggestions
import WebTech.NewsLoop
import WebTech.EventLoop
import WebTech.Assignment8

namespace WebTech.Clients

open Rfc8259 Ecma Ecma.Script MainActivity Util Page

/-! ## The app's map -/

/-- The text of a member. -/
def textAt (v : Json) (k : String) : Text := (stringAt v k).getD []

/-- The map of a response with the objects `rs` and `qs` and the news `items`. -/
def mapOf (rs qs : Json) (items : List Headline) : StockMap where
  Name := textAt rs "Name"
  Symbol := textAt rs "Symbol"
  ChangeType := textAt qs "ChangeType"
  Change := textAt qs "Change"
  ChangeInPercent := textAt qs "ChangeInPercent"
  LastTradePriceOnly := textAt qs "LastTradePriceOnly"
  Open := textAt qs "Open"
  YearLow := textAt qs "YearLow"
  YearHigh := textAt qs "YearHigh"
  Volume := textAt qs "Volume"
  OneYearTargetPrice := textAt qs "OneYearTargetPrice"
  Bid := textAt qs "Bid"
  DaysLow := textAt qs "DaysLow"
  DaysHigh := textAt qs "DaysHigh"
  Ask := textAt qs "Ask"
  AverageDailyVolume := textAt qs "AverageDailyVolume"
  PreviousClose := textAt qs "PreviousClose"
  MarketCapitalization := textAt qs "MarketCapitalization"
  StockChartImageURL := textAt rs "StockChartImageURL"
  hasNews := (items.getLast?.map fun i => decide i.hasLink).getD false
  newsLength := items.length
  newslinks := items.map Headline.link
  newsh := items.map Headline.title

/-- The objects of a response, and what its members are. -/
structure Parts (v : Json) (items : List Headline) (rs qs : Json) (vs : List Json) : Prop where
  result : member "result" v = some rs
  quote : member "Quote" rs = some qs
  resultTexts : ∀ k ∈ resultNames, member k rs = some (.str (textAt rs k))
  quoteTexts : ∀ k ∈ quoteNames, member k qs = some (.str (textAt qs k))
  news : ∃ ns, member "News" rs = some ns ∧ member "Item" ns = some (.arr vs)
  items : List.Forall₂ IsHeadline vs items

theorem member_text {v : Json} {k : String} (h : ∃ s, member k v = some (.str s)) :
    member k v = some (.str (textAt v k)) := by
  obtain ⟨s, hs⟩ := h
  rw [textAt, stringAt, hs]
  rfl

theorem IsResponse.parts {v : Json} {items : List Headline} (h : IsResponse v items) :
    ∃ rs qs vs, Parts v items rs qs vs := by
  obtain ⟨rs, qs, ns, vs, hres, hquo, hrnames, hqnames, hnews, hitem, hitems⟩ := h
  exact ⟨_, _, vs, hres, hquo, fun k hk => member_text (hrnames k hk),
    fun k hk => member_text (hqnames k hk), ⟨_, hnews, hitem⟩, hitems⟩

section App
variable {lib : OrgJson} {body line : Text} {v rs qs : Json} {items : List Headline}
  {vs : List Json}

theorem getJSONObject_of_member {v w u : Json} {k k' : String} (h : member k v = some w)
    (h' : member k' w = some u) : getJSONObject v k = .ok w := by
  obtain ⟨ms, rfl, -⟩ := member_eq_some h'
  rw [getJSONObject, h]

theorem parseObject_of_member {v w : Json} {k : String} (hp : lib.parse line = some v)
    (h : member k v = some w) : parseObject lib line = .ok v := by
  obtain ⟨ms, rfl, -⟩ := member_eq_some h
  rw [parseObject, hp]

theorem Parts.getStockData (h : Parts v items rs qs vs) (hline : readLine body = some line)
    (hparse : lib.parse line = some v) :
    Util.getStockData lib body = .ok (mapOf rs qs items) := by
  obtain ⟨ns, hnews, hitem⟩ := h.news
  have hr : ∀ k ∈ resultNames, getString lib rs k = .ok (textAt rs k) := fun k hk =>
    getString_of_member (h.resultTexts k hk)
  have hq : ∀ k ∈ quoteNames, getString lib qs k = .ok (textAt qs k) := fun k hk =>
    getString_of_member (h.quoteTexts k hk)
  have hresult := getJSONObject_of_member h.result h.quote
  have hquote := getJSONObject_of_member h.quote (h.quoteTexts "Bid" (by decide))
  have hns := getJSONObject_of_member hnews hitem
  have harr : getJSONArray ns "Item" = .ok vs := by
    rw [getJSONArray, hitem]
  simp only [resultNames, quoteNames, List.forall_mem_cons] at hr hq
  obtain ⟨h₁, h₂, h₃, -⟩ := hr
  obtain ⟨q₁, q₂, q₃, q₄, q₅, q₆, q₇, q₈, q₉, q₁₀, q₁₁, q₁₂, q₁₃, q₁₄, q₁₅, q₁₆, -⟩ := hq
  rw [Util.getStockData, hline]
  simp only [parseObject_of_member hparse h.result, hresult, hquote, hns, harr, bind, Except.bind,
    h₁, h₂, h₃, q₁, q₂, q₃, q₄, q₅, q₆, q₇, q₈, q₉, q₁₀, q₁₁, q₁₂, q₁₃, q₁₄, q₁₅, q₁₆,
    newsLoop_items h.items, List.nil_append, h.items.length_eq]
  rfl

end App

/-! ## The page's variables -/

/-- The text of a variable other than `news`. -/
def textOf (m : StockMap) : Global → Text
  | .nameval => m.Name
  | .symbolval => m.Symbol
  | .changetype_val => m.ChangeType
  | .change_val => m.Change
  | .changepercent_val => m.ChangeInPercent
  | .lasttradeprice_val => m.LastTradePriceOnly
  | .open1 => m.Open
  | .yearlow_val => m.YearLow
  | .yearhigh_val => m.YearHigh
  | .volume => m.Volume
  | .oneyeartargetprice => m.OneYearTargetPrice
  | .bid => m.Bid
  | .daylow_val => m.DaysLow
  | .dayhigh_val => m.DaysHigh
  | .ask => m.Ask
  | .adv_val => m.AverageDailyVolume
  | .prev_close => m.PreviousClose
  | .market_capitalization => m.MarketCapitalization
  | .stock_chart_img => m.StockChartImageURL
  | .news => []

/-- An entry of the page's list. -/
def entryText (link title : Text) : Text :=
  ["<li><a target=\"_blank\" href = ".toList, link, ">".toList, title, "</a></li>".toList].flatten

/-- The page's list for the app's headlines. -/
def listText (m : StockMap) : Text :=
  "<ul>".toList ++ (m.newslinks.zip m.newsh).flatMap (fun p => entryText p.1 p.2) ++ "</ul>".toList

theorem getProp_member {v w : Json} {k : String} (h : member k v = some w) :
    getProp (some v) k = some (some w) := by
  obtain ⟨ms, rfl, hlookup⟩ := member_eq_some h
  exact congrArg some hlookup

section Page
variable {v rs qs : Json} {items : List Headline} {vs : List Json}

theorem Parts.path_result (h : Parts v items rs qs vs) {k : String} {w : Json}
    (hk : member k rs = some w) : getPath (some v) ["result", k] = some (some w) := by
  rw [getPath, getProp_member h.result]
  show (getPath (some rs) [k]) = _
  rw [getPath, getProp_member hk]
  rfl

theorem Parts.path_quote (h : Parts v items rs qs vs) {k : String} {w : Json}
    (hk : member k qs = some w) : getPath (some v) ["result", "Quote", k] = some (some w) := by
  have hsplit := getPath_append (some v) ["result", "Quote"] [k]
  rw [h.path_result h.quote] at hsplit
  refine hsplit.trans ?_
  show getPath (some qs) [k] = _
  rw [getPath, getProp_member hk]
  rfl

/-- The values of the variables. -/
def globalsFor (m : StockMap) (news : Json) : Globals
  | .news => some news
  | x => some (.str (textOf m x))

theorem Parts.reads (h : Parts v items rs qs vs) {ns : Json} (hns : member "News" rs = some ns) :
    Reads (some v) (globalsFor (mapOf rs qs items) ns) := by
  intro x
  cases x with
  | news => exact h.path_result hns
  | nameval | symbolval | stock_chart_img => exact h.path_result (h.resultTexts _ (by decide))
  | _ => exact h.path_quote (h.quoteTexts _ (by decide))

/-- The values and the items, side by side. -/
theorem pairs_of_forall₂ {α β : Type} {R : α → β → Prop} {as : List α} {bs : List β}
    (h : List.Forall₂ R as bs) : ∃ ps : List {p : α × β // R p.1 p.2},
      as = ps.map (fun p => p.1.1) ∧ bs = ps.map (fun p => p.1.2) := by
  induction h with
  | nil => exact ⟨[], rfl, rfl⟩
  | @cons a b _ _ hab _ ih =>
      obtain ⟨ps, rfl, rfl⟩ := ih
      exact ⟨⟨(a, b), hab⟩ :: ps, rfl, rfl⟩

theorem entryOf_headline [Floating] {v : Json} {i : Headline} (h : IsHeadline v i) :
    entryOf v = some (entryText i.link i.title) := by
  rw [entryOf, getProp_member h.1, getProp_member h.2]
  exact concat_texts (.cons rfl (.cons rfl (.cons rfl (.cons rfl (.cons rfl .nil)))))

theorem Parts.newsList [Floating] (h : Parts v items rs qs vs) {ns : Json}
    (hns : member "News" rs = some ns) (hitem : member "Item" ns = some (.arr vs)) :
    Page.newsList (some v) (some ns) = some (listText (mapOf rs qs items)) := by
  obtain ⟨ps, rfl, rfl⟩ := pairs_of_forall₂ h.items
  rw [newsList_arr (fun p => entryOf_headline p.2) ps (h.path_result hns) (getProp_member hitem)]
  have hzip : (mapOf rs qs (ps.map fun p => p.1.2)).newslinks.zip
      (mapOf rs qs (ps.map fun p => p.1.2)).newsh =
        ps.map fun p => (p.1.2.link, p.1.2.title) := by
    rw [mapOf, List.map_map, List.map_map, List.zip_map']
    rfl
  rw [listText, hzip, List.flatMap_map]

end Page

/-! ## What the page does -/

/-- The summary of a quote. -/
def summaryText (m : StockMap) : Text :=
  ["<font size = \"7px\">".toList, m.Name, "&#40;".toList, m.Symbol, "&#41;<br><br>".toList,
    m.LastTradePriceOnly, "&nbsp;&nbsp;</font>".toList, " ".toList,
    (arrow_disp (some (.str m.ChangeType))).toList, m.Change, "&#40;".toList, m.ChangeInPercent,
    "&#41;</span>".toList].flatten

def chartText (m : StockMap) : Text :=
  ["<img src=\"".toList, m.StockChartImageURL, "\"/>".toList].flatten

/-- A stock the page takes for one that does not exist. -/
def AllZero (m : StockMap) : Prop := ∀ x ∈ zeroTested, textOf m x = "0.00".toList

instance decAllZero (m : StockMap) : Decidable (AllZero m) :=
  inferInstanceAs (Decidable (∀ x ∈ zeroTested, textOf m x = "0.00".toList))

/-- The window once the page has handled the response of `m`. -/
def windowFor (w : Window) (i : Nat) (m : StockMap) (news : Json) : Window :=
  if AllZero m then (w.cleared.read (globalsFor m news)).message
  else ((((w.cleared.read (globalsFor m news)).post.display i (summaryText m)).rule.chart
    (chartText m)).schedule (listText m))

section Respond
variable [Floating] {m : StockMap} {news : Json}

theorem summary_globalsFor : summary (globalsFor m news) = some (summaryText m) :=
  concat_texts (.cons rfl (.cons rfl (.cons rfl (.cons rfl (.cons rfl (.cons rfl (.cons rfl
    (.cons rfl (.cons rfl (.cons rfl (.cons rfl (.cons rfl (.cons rfl .nil)))))))))))))

theorem chartImg_globalsFor : chartImg (globalsFor m news) = some (chartText m) :=
  concat_texts (.cons rfl (.cons rfl (.cons rfl .nil)))

theorem looseEqZero_globalsFor {x : Global} (hx : x ≠ .news) :
    looseEqZero (globalsFor m news x) = some (decide (textOf m x = "0.00".toList)) := by
  cases x with
  | news => exact absurd rfl hx
  | _ => rfl

theorem allZero_globalsFor : ∀ (xs : List Global), Global.news ∉ xs →
    allZero (globalsFor m news) xs = some (decide (∀ x ∈ xs, textOf m x = "0.00".toList))
  | [], _ => rfl
  | x :: xs, h => by
      rw [List.mem_cons, not_or] at h
      rw [allZero, looseEqZero_globalsFor (Ne.symm h.1)]
      show (if decide (textOf m x = _) = true then allZero _ xs else some false) = _
      rw [allZero_globalsFor xs h.2]
      by_cases hx : textOf m x = "0.00".toList
      · rw [if_pos (decide_eq_true hx)]
        refine congrArg some (decide_eq_decide.mpr ?_)
        rw [List.forall_mem_cons]
        exact (and_iff_right hx).symm
      · rw [if_neg (by rw [decide_eq_true_iff]; exact hx)]
        refine congrArg some (decide_eq_false fun hall => hx ?_).symm
        exact hall x List.mem_cons_self

/-- The page handles a response of such values to its end. -/
theorem respond_globalsFor {content : Text} (hg : Reads (Rfc8259.parse content) (globalsFor m news))
    (hn : newsList (Rfc8259.parse content) (some news) = some (listText m)) (i : Nat) (w : Window) :
    exec (respond i content) w = (.ok ⟨⟩, windowFor w i m news) := by
  have hhandled := respond_handled i content w
  have hzero : allZero (globalsFor m news) zeroTested = some (decide (AllZero m)) :=
    allZero_globalsFor zeroTested (by decide)
  by_cases hz : AllZero m
  · rw [windowFor, if_pos hz]
    obtain ⟨hr, hw⟩ := hhandled.eq_zero hg (hzero.trans (congrArg some (decide_eq_true hz)))
    exact Prod.ext hr hw
  · rw [windowFor, if_neg hz]
    obtain ⟨hr, hw⟩ := hhandled.eq_complete hg
      (hzero.trans (congrArg some (decide_eq_false hz))) summary_globalsFor hn chartImg_globalsFor
    exact Prod.ext hr hw

end Respond

/-- **The clients agree.**  A response with a text for every field makes a map
of the app, and the page's screen is one that can be told from that map.  The
app shows the quote; the page shows it too unless its tested prices are zeros. -/
theorem clients_agree [Floating] {lib : OrgJson} {body line : Text} {v : Json}
    {items : List Headline} (hline : readLine body = some line) (hparse : lib.parse line = some v)
    (hbody : Rfc8259.parse body = some v) (h : IsResponse v items) :
    ∃ m news, Util.getStockData lib body = .ok m ∧
      (∀ a, Reflects (setDatatoUI (some m) a).1 (some m)) ∧
      ∀ i w, exec (respond i body) w = (.ok ⟨⟩, windowFor w i m news) := by
  obtain ⟨rs, qs, vs, hparts⟩ := IsResponse.parts h
  obtain ⟨ns, hns, hitem⟩ := hparts.news
  refine ⟨mapOf rs qs items, ns, hparts.getStockData hline hparse, ?_, ?_⟩
  · exact fun a => reflects_setDatatoUI _ a
  · intro i w
    have hreads := hparts.reads hns
    have hlist := hparts.newsList hns hitem
    rw [← hbody] at hreads hlist
    exact respond_globalsFor hreads hlist i w

section Agreement

attribute [local instance] Floating.unbounded

theorem clients_agree_linkedLast :
    ∃ m news, Util.getStockData strict (print (emptyResponse linkedLast)) = .ok m ∧
      (∀ a, Reflects (setDatatoUI (some m) a).1 (some m)) ∧
      ∀ i w, exec (respond i (print (emptyResponse linkedLast))) w =
        (.ok ⟨⟩, windowFor w i m news) := by
  have hline := readLine_emptyResponse linkedLast (by decide +kernel)
  have hparse := parse_emptyResponse linkedLast
  have hbody := hparse
  rw [show strict.parse = Rfc8259.parse from rfl] at hbody
  exact clients_agree hline hparse hbody (isResponse_emptyResponse linkedLast)

end Agreement

/-! ## From the writer to the clients -/

/-- No character outside ASCII. -/
def IsAscii (t : Text) : Prop := ∀ c ∈ t, c.toNat < 128

/-- What a client reads of a printed text, written in the server's charset and
read in the client's: ASCII is the same in all of them. -/
structure Hop where
  reads : Text → Text
  ascii : ∀ t, IsAscii t → reads t = t

/-- A client that takes the characters `keeps` as they were printed, ASCII among
them, and others for a mark. -/
def Hop.keeping (keeps : Char → Bool) (mark : Char) (h : ∀ c : Char, c.toNat < 128 → keeps c = true) :
    Hop where
  reads t := t.map fun c => if keeps c then c else mark
  ascii t ht := by
    refine (List.map_congr_left fun c hc => ?_).trans t.map_id
    exact if_pos (h c (ht c hc))

/-- The page reads ISO-8859-1, as it was written. -/
def Hop.latin1 : Hop := .keeping (fun c => c.toNat < 256) '?' fun _ h =>
  decide_eq_true (Nat.lt_trans h (by decide))

/-- The app reads UTF-8. -/
def Hop.utf8 : Hop := .keeping (fun c => c.toNat < 128) '\ufffd' fun _ h => decide_eq_true h

/-! ## The answer of assignment8 -/

section Servlet
variable (q : Assignment8.QuoteRecord)

/-- The items of a record, as the app has them. -/
def headlinesOf : List Headline := q.Items.map fun i => ⟨i.Title, i.Link⟩

/-- The map of a record. -/
def toMap : StockMap where
  Name := q.Name
  Symbol := q.Symbol
  ChangeType := q.ChangeType
  Change := q.Change
  ChangeInPercent := q.ChangeInPercent
  LastTradePriceOnly := q.LastTradePriceOnly
  Open := q.Open
  YearLow := q.YearLow
  YearHigh := q.YearHigh
  Volume := q.Volume
  OneYearTargetPrice := q.OneYearTargetPrice
  Bid := q.Bid
  DaysLow := q.DaysLow
  DaysHigh := q.DaysHigh
  Ask := q.Ask
  AverageDailyVolume := q.AverageDailyVolume
  PreviousClose := q.PreviousClose
  MarketCapitalization := q.MarketCapitalization
  StockChartImageURL := q.StockChart
  hasNews := ((headlinesOf q).getLast?.map fun i => decide i.hasLink).getD false
  newsLength := q.Items.length
  newslinks := q.Items.map Assignment8.Item.Link
  newsh := q.Items.map Assignment8.Item.Title

/-- `pw.println(jsonString)`, with the line separator of the server.  The writer's
charset is ISO-8859-1, so a client does not read every character as it was
printed. -/
def println (separator : Text) : Text := Assignment8.jsonString q ++ separator

/-- The line separators of the Java platforms. -/
def separators : List Text := [['\n'], ['\r', '\n']]

theorem parts_toJson : ∃ rs qs vs, Parts q.toJson (headlinesOf q) rs qs vs ∧
    mapOf rs qs (headlinesOf q) = toMap q := by
  refine ⟨_, _, _, ⟨rfl, rfl, ?_, ?_, ⟨_, rfl, rfl⟩, ?_⟩, ?_⟩
  · simp only [resultNames, List.forall_mem_cons]
    exact ⟨rfl, rfl, rfl, List.forall_mem_nil _⟩
  · simp only [quoteNames, List.forall_mem_cons]
    exact ⟨rfl, rfl, rfl, rfl, rfl, rfl, rfl, rfl, rfl, rfl, rfl, rfl, rfl, rfl, rfl, rfl,
      List.forall_mem_nil _⟩
  · rw [headlinesOf, List.forall₂_map_left_iff, List.forall₂_map_right_iff, List.forall₂_same]
    exact fun _ _ => ⟨rfl, rfl⟩
  · simp only [mapOf, toMap, headlinesOf, List.length_map, List.map_map]
    rfl

/-! ### The characters of the text -/

/-- The characters the script's own pieces are made of. -/
def IsPrintable (c : Char) : Prop := 32 ≤ c.toNat ∧ c.toNat < 127

instance decIsPrintable (c : Char) : Decidable (IsPrintable c) := inferInstanceAs (Decidable (_ ∧ _))

section Each
variable {P : Char → Prop} (hP : ∀ c, IsPrintable c → P c)
include hP

theorem each_append {s t : Text} (hs : ∀ c ∈ s, IsPrintable c) (ht : ∀ c ∈ t, P c) :
    ∀ c ∈ s ++ t, P c :=
  List.forall_mem_append.mpr ⟨fun c hc => hP c (hs c hc), ht⟩

theorem each_field {name value : Text} (hn : ∀ c ∈ name, IsPrintable c) (hv : ∀ c ∈ value, P c) :
    ∀ c ∈ Assignment8.field name value, P c := by
  have hquote : ∀ c ∈ ['"'], IsPrintable c := by decide
  have hcolon : ∀ c ∈ ['"', ':', '"'], IsPrintable c := by decide
  rw [Assignment8.field, List.forall_mem_append, List.forall_mem_append]
  refine ⟨⟨?_, hv⟩, fun c hc => hP c (hquote c hc)⟩
  exact each_append hP (s := '"' :: name) (List.forall_mem_append.mpr ⟨hquote, hn⟩)
    fun c hc => hP c (hcolon c hc)

theorem each_fields : ∀ {fs : List (Text × Text)},
    (∀ f ∈ fs, (∀ c ∈ f.1, IsPrintable c) ∧ ∀ c ∈ f.2, P c) → ∀ c ∈ Assignment8.fields fs, P c
  | [], _ => List.forall_mem_nil _
  | [f], h => by
      obtain ⟨hn, hv⟩ := h f List.mem_cons_self
      exact each_field hP hn hv
  | f :: g :: fs, h => by
      obtain ⟨hf, hfs⟩ := List.forall_mem_cons.mp h
      have hcomma : ∀ c ∈ [','], IsPrintable c := by decide
      exact List.forall_mem_append.mpr
        ⟨each_field hP hf.1 hf.2, each_append hP (s := [',']) hcomma (each_fields hfs)⟩

theorem each_itemText {i : Assignment8.Item} (hl : ∀ c ∈ i.Link, P c) (ht : ∀ c ∈ i.Title, P c) :
    ∀ c ∈ Assignment8.itemText i, P c := by
  have hopen : ∀ c ∈ ['\x7b'], IsPrintable c := by decide
  have hclose : ∀ c ∈ ['\x7d'], IsPrintable c := by decide
  have hlink : ∀ c ∈ "Link".toList, IsPrintable c := by decide
  have htitle : ∀ c ∈ "Title".toList, IsPrintable c := by decide
  have hfields : ∀ c ∈ Assignment8.fields [("Link".toList, i.Link), ("Title".toList, i.Title)], P c :=
    each_fields hP (List.forall_mem_cons.mpr
      ⟨⟨hlink, hl⟩, List.forall_mem_singleton.mpr ⟨htitle, ht⟩⟩)
  exact List.forall_mem_append.mpr
    ⟨each_append hP (s := ['\x7b']) hopen hfields, fun c hc => hP c (hclose c hc)⟩

theorem each_itemsText : ∀ {is : List Assignment8.Item},
    (∀ i ∈ is, (∀ c ∈ i.Link, P c) ∧ ∀ c ∈ i.Title, P c) → ∀ c ∈ Assignment8.itemsText is, P c
  | [], _ => List.forall_mem_nil _
  | [i], h => by
      obtain ⟨hl, ht⟩ := h i List.mem_cons_self
      exact each_itemText hP hl ht
  | i :: j :: is, h => by
      obtain ⟨hi, his⟩ := List.forall_mem_cons.mp h
      have hcomma : ∀ c ∈ [','], IsPrintable c := by decide
      exact List.forall_mem_append.mpr
        ⟨each_itemText hP hi.1 hi.2, each_append hP (s := [',']) hcomma (each_itemsText his)⟩

/-- What holds of printable characters and of the record's texts holds of the
whole text. -/
theorem each_jsonString (h : ∀ t ∈ q.texts, ∀ c ∈ t, P c) :
    ∀ c ∈ Assignment8.jsonString q, P c := by
  have hprintable : ∀ s ∈ ["\x7b\"result\":\x7b".toList, "\"Quote\":\x7b".toList, "\x7d,".toList,
      "\"News\":\x7b \"Item\":[".toList, "]\x7d,".toList, "\x7d\x7d".toList],
      ∀ c ∈ s, IsPrintable c := by decide +kernel
  have h₂ : ∀ c ∈ "Name".toList, IsPrintable c := by decide
  have h₃ : ∀ c ∈ "Symbol".toList, IsPrintable c := by decide
  have h₉ : ∀ c ∈ "StockChartImageURL".toList, IsPrintable c := by decide
  have h₄ : ∀ c ∈ [','], P c := List.forall_mem_singleton.mpr (hP ',' (by decide))
  have hlit := fun s hs c hc => hP c (hprintable s hs c hc)
  simp only [List.forall_mem_cons] at hlit
  obtain ⟨h₁, h₅, h₆, h₇, h₈, h₁₀, -⟩ := hlit
  have hnames : ∀ k ∈ q.quoteFields.map Prod.fst, ∀ c ∈ k, IsPrintable c := by
    show ∀ k ∈ ["ChangeType".toList, "Change".toList, "ChangeInPercent".toList,
      "LastTradePriceOnly".toList, "PreviousClose".toList, "DaysLow".toList, "DaysHigh".toList,
      "Open".toList, "YearLow".toList, "YearHigh".toList, "Bid".toList, "Volume".toList,
      "Ask".toList, "AverageDailyVolume".toList, "OneYearTargetPrice".toList,
      "MarketCapitalization".toList], ∀ c ∈ k, IsPrintable c
    decide +kernel
  simp only [Assignment8.QuoteRecord.texts, List.forall_mem_append, List.forall_mem_cons,
    List.forall_mem_map, List.forall_mem_flatMap] at h
  obtain ⟨⟨⟨⟨hname, hsymbol, -⟩, hquote⟩, hitems⟩, hchart, -⟩ := h
  have hfields := each_fields hP fun f hf =>
    ⟨hnames f.1 (List.mem_map_of_mem hf), hquote f hf⟩
  have hlist := each_itemsText hP fun i hi => ⟨(hitems i hi).1, (hitems i hi).2.1⟩
  have hjoin : ∀ {s t : Text}, (∀ c ∈ s, P c) → (∀ c ∈ t, P c) → ∀ c ∈ s ++ t, P c :=
    fun hs ht => List.forall_mem_append.mpr ⟨hs, ht⟩
  have hhead := hjoin (hjoin (hjoin (hjoin (hjoin h₁ (each_field hP h₂ hname)) h₄)
    (each_field hP h₃ hsymbol)) h₄) h₅
  exact hjoin (hjoin (hjoin (hjoin (hjoin (hjoin (hjoin hhead hfields) h₆) h₇) hlist) h₈)
    (each_field hP h₉ hchart)) h₁₀

end Each

variable {q}

/-- The first line is the whole text. -/
theorem oneLine_jsonString (h : q.Clean) : OneLine (Assignment8.jsonString q) := by
  have hprintable : ∀ c, IsPrintable c → c ≠ '\n' ∧ c ≠ '\r' := by
    intro c hc
    constructor <;> rintro rfl <;> exact absurd hc (by decide)
  have hclean : ∀ t ∈ q.texts, ∀ c ∈ t, c ≠ '\n' ∧ c ≠ '\r' := by
    intro t ht c hc
    have hspecial := h t ht c hc
    constructor <;> rintro rfl <;> exact absurd hspecial (by decide)
  exact each_jsonString q hprintable hclean

theorem isAscii_println (h : ∀ t ∈ q.texts, IsAscii t) {separator : Text}
    (hs : separator ∈ separators) :
    IsAscii (println q separator) := by
  have hsep : ∀ s ∈ separators, IsAscii s := by
    simp only [IsAscii]
    decide
  refine List.forall_mem_append.mpr ⟨each_jsonString q (fun c hc => ?_) h, hsep separator hs⟩
  have hlt : c.toNat < 127 := hc.2
  omega

theorem jsonString_ne_nil : Assignment8.jsonString q ≠ [] := by
  rw [Assignment8.jsonString_eq]
  exact List.cons_ne_nil _ _

theorem readLine_println (h : q.Clean) {separator : Text} (hs : separator ∈ separators) :
    readLine (println q separator) = some (Assignment8.jsonString q) := by
  have hne : println q separator ≠ [] := by
    rw [println]
    exact List.append_ne_nil_of_left_ne_nil jsonString_ne_nil _
  have hline : ∀ c ∈ Assignment8.jsonString q, (c ≠ '\n' && c ≠ '\r') = true := by
    intro c hc
    obtain ⟨hn, hr⟩ := oneLine_jsonString h c hc
    simp [hn, hr]
  rw [readLine, if_neg hne, println, List.takeWhile_append_of_pos hline]
  simp only [separators, List.mem_cons, List.not_mem_nil, or_false] at hs
  rcases hs with rfl | rfl
  · simp
  · simp

theorem isWs_separator {separator : Text} (hs : separator ∈ separators) :
    ∀ c ∈ separator, isWs c = true := by
  simp only [separators, List.mem_cons, List.not_mem_nil, or_false] at hs
  rcases hs with rfl | rfl
  · decide
  · decide

/-- **A clean record of ASCII texts reaches both clients.**  Whatever the server's
line separator and whatever charsets the two clients read in, the app's map is
the record, text by text and item by item, and so is the page's screen.  When
the answer is the last that an app has handled, its screen shows the record, and
each position of its news opens the item there. -/
theorem record_reaches_clients [Floating] {lib : OrgJson} (hlib : lib.Parses) (app' page' : Hop)
    (h : q.Clean) (hascii : ∀ t ∈ q.texts, IsAscii t) {separator : Text} (hs : separator ∈ separators) :
    Util.getStockData lib (app'.reads (println q separator)) = .ok (toMap q) ∧
    (∃ news, ∀ i w, exec (respond i (page'.reads (println q separator))) w =
      (.ok ⟨⟩, windowFor w i (toMap q) news)) ∧
    ∀ s symbol, app.Reachable s →
      s.completed.getLast? = some (symbol, some (toMap q)) →
        Reflects s.activity (some (toMap q)) ∧
        ∃ extras, loadNews s.activity.map1 = .ok extras ∧
          ∀ pos, Util.onClick extras pos 0 = q.Items[pos]?.map fun i => ⟨i.Title, i.Link⟩ := by
  have hparse : Rfc8259.parse (Assignment8.jsonString q) = some q.toJson :=
    parse_iff.mpr ⟨[], Assignment8.val_jsonString h, rfl⟩
  have hbody := parse_append_ws hparse (isWs_separator hs)
  obtain ⟨rs, qs, vs, hparts, hmap⟩ := parts_toJson q
  obtain ⟨ns, hns, hitem⟩ := hparts.news
  have hprinted := isAscii_println hascii hs
  rw [app'.ascii _ hprinted, page'.ascii _ hprinted]
  refine ⟨?_, ⟨ns, fun i w => ?_⟩, ?_⟩
  · rw [← hmap]
    exact hparts.getStockData (readLine_println h hs) (hlib _ _ hparse)
  · have hreads := hparts.reads hns
    have hlist := hparts.newsList hns hitem
    rw [← hbody, hmap] at hreads hlist
    exact respond_globalsFor hreads hlist i w
  · intro s symbol hreach hlast
    have hshows := (screen hreach).shows
    rw [hlast] at hshows
    obtain ⟨hreflects, hmap1⟩ := hshows
    rw [hmap1]
    refine ⟨hreflects, _, rfl, fun pos => ?_⟩
    rw [Util.onClick, if_pos rfl]
    show (do return ⟨← (q.Items.map _)[pos]?, ← (q.Items.map _)[pos]?⟩ : Option NewsView) = _
    rw [List.getElem?_map, List.getElem?_map]
    cases q.Items[pos]? with
    | none => rfl
    | some i => rfl

end Servlet

attribute [local instance] Floating.unbounded

/-- A record with two headlines. -/
def plainRecord : Assignment8.QuoteRecord :=
  { Assignment8.quotingRecord with
    Items := [⟨"http://example/a".toList, "Split".toList⟩, ⟨"http://example/b".toList, "Merger".toList⟩] }

theorem plainRecord_reaches_clients :
    Util.getStockData strict (Hop.utf8.reads (println plainRecord ['\n'])) = .ok (toMap plainRecord) ∧
    (∃ news, ∀ i w, exec (respond i (Hop.latin1.reads (println plainRecord ['\n']))) w =
      (.ok ⟨⟩, windowFor w i (toMap plainRecord) news)) ∧
    ∀ s symbol, app.Reachable s →
      s.completed.getLast? = some (symbol, some (toMap plainRecord)) →
        Reflects s.activity (some (toMap plainRecord)) ∧
        ∃ extras, loadNews s.activity.map1 = .ok extras ∧
          ∀ pos, Util.onClick extras pos 0 =
            plainRecord.Items[pos]?.map fun i => ⟨i.Title, i.Link⟩ := by
  have hclean : plainRecord.Clean := by
    rw [Assignment8.QuoteRecord.Clean]
    decide +kernel
  have hascii : ∀ t ∈ plainRecord.texts, IsAscii t := by
    simp only [IsAscii]
    decide +kernel
  exact record_reaches_clients strict_parses .utf8 .latin1 hclean hascii (by decide)

end WebTech.Clients
