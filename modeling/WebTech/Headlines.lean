/-
# `WebTech.Headlines` — from the feed to the list on the page

The producer writes one `Item` for each item of the feed, the conversion makes
them one member `Item` of `News`, and `changeRequest` lists the elements of that
member.  The member changes its type with the number of items:

    items           result.News             news.Item       newslist
    none            ""                      undefined       none: .length throws
    one             an object               an object       the message
    two or more     an object               an array        one entry for each item

so the headlines are all there from two items on, and only then
(`headlines_shown_iff`), if the response is shown at all.
-/
import WebTech.Servlet
import WebTech.FieldFidelity
import WebTech.EventLoop
import WebTech.NewsLoop

namespace WebTech.Servlet

open Ecma Xml Utf8 Rfc8259 Producer Page

/-! ## The document as it is read -/

/-- The text of the element of a column. -/
def amount (column : Text) : Text := Decimals.numberFormat (floatval (encode column)) 2

/-- An item of the feed, as an element of the document. -/
def itemReceived (index : List Child) : Element Text :=
  .node "Item".toList
    [.leaf "Title".toList (childText index "title_elem"), .leaf "Link".toList (childText index "link")]

/-- `Quote`, for the texts of the halves of Change. -/
def quoteReceived (q : Quote) (sign change : Text) : Element Text :=
  .node "Quote".toList
    [.leaf "ChangeType".toList sign,
      .leaf "Change".toList change,
      .leaf "ChangeInPercent".toList [],
      .leaf "LastTradePriceOnly".toList (amount q.LastTradePriceOnly),
      .leaf "PreviousClose".toList (amount q.PreviousClose),
      .leaf "DaysLow".toList (amount q.DaysLow),
      .leaf "DaysHigh".toList (amount q.DaysHigh),
      .leaf "Open".toList (amount []),
      .leaf "YearLow".toList (amount q.YearLow),
      .leaf "YearHigh".toList (amount q.YearHigh),
      .leaf "Bid".toList (amount q.Bid),
      .leaf "Volume".toList (amount q.Volume),
      .leaf "Ask".toList (amount []),
      .leaf "AverageDailyVolume".toList (amount q.AverageDailyVolume),
      .leaf "OneYearTargetPrice".toList (amount []),
      .leaf "MarketCapitalization".toList (amount q.MarketCapitalization)]

def newsReceived (channel : List ChannelChild) : Element Text :=
  .node "News".toList ((items channel).map itemReceived)

/-- The document, for the texts of the halves of Change and of the chart. -/
def received (q : Quote) (channel : List ChannelChild) (sign change chart : Text) : Element Text :=
  .node "result".toList
    [.leaf "Name".toList q.Name, .leaf "Symbol".toList q.Symbol, quoteReceived q sign change,
      newsReceived channel, .leaf "StockChartImageURL".toList chart]

/-- The quote and the feed are read from XML documents. -/
structure FromXml (q : Quote) (channel : List ChannelChild) : Prop where
  columns : ∀ c ∈ q.columns, IsText c.text
  items : ∀ i ∈ items channel, ∀ c ∈ i, IsText c.text

theorem isText_nil : IsText [] := nofun

theorem isText_amount (column : Text) : IsText (amount column) := isText_numberFormat _

theorem isText_childText {index : List Child} (h : ∀ c ∈ index, IsText c.text) (name : String) :
    IsText (childText index name) := by
  rw [childText]
  cases hf : index.find? fun c => c.name = name.toList with
  | none => exact isText_nil
  | some c => exact h c (List.mem_of_find?_eq_some hf)

theorem traverseAll_cons {f : PhpString → Option Text} {c : Element PhpString} {d : Element Text}
    (h : c.traverse f = some d) (cs : List (Element PhpString)) :
    Element.traverseAll f (c :: cs) = (Element.traverseAll f cs).map fun ds => d :: ds := by
  rw [Element.traverseAll, h]
  rfl

section Document
variable {lib : Libraries} (hlib : lib.Documented) {q : Quote} {channel : List ChannelChild}
  (hxml : FromXml q channel)
include hlib hxml

omit hxml in
theorem traverse_element (name : String) {t : Text} (h : IsText t) :
    (element name (encode t)).traverse lib.xmlText = some (.leaf name.toList t) := by
  rw [element, Element.traverse, hlib.xmlText_encode t h]
  rfl

omit hxml in
theorem traverse_price (cs : List Child) (name column : String) :
    (price cs name column).traverse lib.xmlText =
      some (.leaf name.toList (amount (childText cs column))) := by
  rw [price, read_eq]
  exact traverse_element hlib name (isText_amount _)

theorem traverseAll_newsItems :
    Element.traverseAll lib.xmlText (newsItems channel) = some ((items channel).map itemReceived) := by
  have hitem : ∀ i ∈ items channel, (itemElement i).traverse lib.xmlText = some (itemReceived i) := by
    intro i hi
    rw [itemElement, Element.traverse, read_eq, read_eq,
      traverseAll_cons (traverse_element hlib _ (isText_childText (hxml.items i hi) _)),
      traverseAll_cons (traverse_element hlib _ (isText_childText (hxml.items i hi) _))]
    rfl
  rw [newsItems_eq]
  generalize items channel = is at hitem
  induction is with
  | nil => rfl
  | cons i is ih =>
      rw [List.forall_mem_cons] at hitem
      rw [List.map_cons, traverseAll_cons hitem.1, ih hitem.2]
      rfl

omit hxml in
theorem traverse_quoteElement :
    (quoteElement q.columns).traverse lib.xmlText =
      (lib.xmlText ((encode q.Change).take 1)).bind fun sign =>
        (lib.xmlText ((encode q.Change).drop 1)).map fun change => quoteReceived q sign change := by
  have hpercent : (element "ChangeInPercent" ((read q.columns "ChangeInPercent").drop 1)).traverse
      lib.xmlText = some (.leaf "ChangeInPercent".toList []) :=
    traverse_element hlib "ChangeInPercent" isText_nil
  rw [quoteElement, Element.traverse, Element.traverseAll, Element.traverseAll,
    traverseAll_cons hpercent]
  simp only [traverseAll_cons (traverse_price hlib _ _ _)]
  show ((((lib.xmlText ((encode q.Change).take 1)).map _).bind _).map _) = _
  cases lib.xmlText ((encode q.Change).take 1) with
  | none => rfl
  | some sign =>
      show ((((lib.xmlText ((encode q.Change).drop 1)).map _).bind _).map _).map _ = _
      cases lib.xmlText ((encode q.Change).drop 1) with
      | none => rfl
      | some change => rfl

/-- **What the servlet reads**: the document, unless one of the three texts that
the script cuts or joins itself cannot be read. -/
theorem traverse_document (company : PhpString) :
    (document company q.columns channel).traverse lib.xmlText =
      (lib.xmlText ((encode q.Change).take 1)).bind fun sign =>
        (lib.xmlText ((encode q.Change).drop 1)).bind fun change =>
          (lib.xmlText (xml_chart company)).map fun chart => received q channel sign change chart := by
  have hname : (element "Name" (read q.columns "Name")).traverse lib.xmlText =
      some (.leaf "Name".toList q.Name) :=
    traverse_element hlib "Name" (isText_childText hxml.columns "Name")
  have hsymbol : (element "Symbol" (read q.columns "Symbol")).traverse lib.xmlText =
      some (.leaf "Symbol".toList q.Symbol) :=
    traverse_element hlib "Symbol" (isText_childText hxml.columns "Symbol")
  have hnews : (Element.node "News".toList (newsItems channel)).traverse lib.xmlText =
      some (newsReceived channel) := by
    rw [Element.traverse, traverseAll_newsItems hlib hxml]
    rfl
  rw [document, Element.traverse, traverseAll_cons hname, traverseAll_cons hsymbol,
    Element.traverseAll, traverse_quoteElement hlib, traverseAll_cons hnews, Element.traverseAll,
    element, Element.traverse, Element.traverseAll]
  cases lib.xmlText ((encode q.Change).take 1) with
  | none => rfl
  | some sign =>
      cases lib.xmlText ((encode q.Change).drop 1) with
      | none => rfl
      | some change =>
          cases lib.xmlText (xml_chart company) with
          | none => rfl
          | some chart => rfl

end Document

/-! ## The values the page reads -/

section Values
variable {lib : Libraries} (hlib : lib.Documented) (q : Quote) (channel : List ChannelChild)
  (sign change chart : Text)

/-- The variables, when the page has read the document. -/
def globalsReceived (lib : Libraries) (q : Quote) (channel : List ChannelChild)
    (sign change chart : Text) : Globals := fun x =>
  ((root (received q channel sign change chart)).reach x.path).map (value lib)

/-- The column whose amount a tested variable holds. -/
def column (q : Quote) : Global → Text
  | .prev_close => q.PreviousClose
  | .daylow_val => q.DaysLow
  | .dayhigh_val => q.DaysHigh
  | .yearlow_val => q.YearLow
  | .yearhigh_val => q.YearHigh
  | .bid => q.Bid
  | .volume => q.Volume
  | .adv_val => q.AverageDailyVolume
  | .market_capitalization => q.MarketCapitalization
  | _ => []

theorem leaf_received {x : Global} (hx : x ≠ .news) : ∃ n t,
    (root (received q channel sign change chart)).reach x.path = some (.leaf n t) := by
  cases x with
  | news => exact absurd rfl hx
  | _ => exact ⟨_, _, rfl⟩

theorem amount_received {x : Global} (hx : x ∈ zeroTested) : ∃ n,
    (root (received q channel sign change chart)).reach x.path = some (.leaf n (amount (column q x))) := by
  simp only [zeroTested, List.mem_cons, List.not_mem_nil, or_false] at hx
  rcases hx with rfl | rfl | rfl | rfl | rfl | rfl | rfl | rfl | rfl | rfl | rfl | rfl <;>
    exact ⟨_, rfl⟩

theorem isLeaf_of_isScalar {v : Json} (h : isScalar v = true) : isLeaf (some v) = true := by
  cases v with
  | null | bool b | num lit | str s => rfl
  | arr vs | obj ms => exact nomatch h

include hlib

theorem reads_received : Reads (some (toJSONObject lib (received q channel sign change chart)))
    (globalsReceived lib q channel sign change chart) := by
  intro x
  obtain ⟨e, he⟩ : ∃ e,
      (root (received q channel sign change chart)).reach x.path = some e := by
    cases x <;> exact ⟨_, rfl⟩
  rw [globalsReceived, he]
  exact getPath_value hlib he

theorem isLeaf_received {x : Global} (hx : x ≠ .news) :
    isLeaf (globalsReceived lib q channel sign change chart x) = true := by
  obtain ⟨n, t, h⟩ := leaf_received q channel sign change chart hx
  rw [globalsReceived, h]
  exact isLeaf_of_isScalar (isScalar_textValue hlib t)

section Tested
variable [Floating]

/-- A formatted number is `'0.00'` when it was rounded to zero. -/
theorem looseEqZero_numberFormat (d : Decimals.Dec) :
    looseEqZero (some (textValue lib (Decimals.numberFormat d 2))) =
      some (decide (d.round 2 = 0)) := by
  rw [textValue, if_neg (Decimals.numberFormat_ne_nil _)]
  rcases hlib.stringToValue_amount d with h | ⟨hdec, lit, d', r, h, hscan, hd⟩
  · rw [h]
    refine congrArg some (decide_eq_decide.mpr ?_)
    exact Decimals.numberFormat_eq_zero_iff d
  · rw [h]
    refine congrArg some (decide_eq_decide.mpr ?_)
    rw [numText, hscan]
    exact print_eq_zero_iff hdec hd

/-- **An amount is `'0.00'`** when its column is negligible. -/
theorem looseEqZero_amount (column : Text) :
    looseEqZero (some (textValue lib (amount column))) = some (decide (Negligible column)) := by
  have hround : (floatval (encode column)).round 2 = 0 ↔ Negligible column := by
    rw [Decimals.round_eq_zero_iff]
    rfl
  rw [amount, looseEqZero_numberFormat hlib]
  exact congrArg some (decide_eq_decide.mpr hround)

/-- **The test for an unknown stock** is passed when all nine columns that are
asked for are negligible. -/
theorem allZero_received (xs : List Global) (hxs : ∀ x ∈ xs, x ∈ zeroTested) :
    allZero (globalsReceived lib q channel sign change chart) xs =
      some (decide (∀ x ∈ xs, Negligible (column q x))) := by
  induction xs with
  | nil => exact congrArg some (decide_eq_true (by nofun)).symm
  | cons x xs ih =>
      rw [List.forall_mem_cons] at hxs
      obtain ⟨n, hn⟩ := amount_received q channel sign change chart hxs.1
      have hx : looseEqZero (globalsReceived lib q channel sign change chart x) =
          some (decide (Negligible (column q x))) := by
        rw [globalsReceived, hn]
        exact looseEqZero_amount hlib _
      rw [allZero, hx]
      by_cases h : Negligible (column q x)
      · rw [decide_eq_true h]
        refine (ih hxs.2).trans (congrArg some (decide_eq_decide.mpr ?_))
        rw [List.forall_mem_cons]
        exact ⟨fun h' => ⟨h, h'⟩, And.right⟩
      · rw [decide_eq_false h]
        refine congrArg some (decide_eq_false ?_).symm
        rw [List.forall_mem_cons]
        exact fun h' => h h'.1

end Tested

end Values

/-! ## The list -/

section List
variable [Floating]

/-- The entry of an item: what arrives of its Link and of its Title. -/
def entry (lib : Libraries) (index : List Child) : Text :=
  (headline (some (textValue lib (childText index "link")))
    (some (textValue lib (childText index "title_elem")))).getD []

section News
variable {lib : Libraries} (hlib : lib.Documented)
include hlib

theorem entryOf_item (index : List Child) :
    entryOf (value lib (itemReceived index)) = some (entry lib index) := by
  have hlink : getProp (some (value lib (itemReceived index))) "Link" =
      some (some (textValue lib (childText index "link"))) :=
    getProp_only hlib (c := .leaf "Link".toList _) rfl
  have htitle : getProp (some (value lib (itemReceived index))) "Title" =
      some (some (textValue lib (childText index "title_elem"))) :=
    getProp_only hlib (c := .leaf "Title".toList _) rfl
  have htext : ∀ t, (Operand.val (some (textValue lib t))).text.isSome := fun t =>
    toText_isSome (isLeaf_of_isScalar (isScalar_textValue hlib t))
  obtain ⟨li, hli⟩ := Option.isSome_iff_exists.mp (show (headline (some (textValue lib (childText index "link")))
      (some (textValue lib (childText index "title_elem")))).isSome from
    concat_isSome (((((HasText.nil.cons rfl).cons (htext _)).cons rfl).cons (htext _)).cons rfl))
  rw [entryOf, hlink, htitle]
  show headline _ _ = _
  rw [entry, hli]
  rfl

omit [Floating] in
/-- All the items are one member of `News`. -/
theorem item_news (channel : List ChannelChild) (h : items channel ≠ []) :
    getProp (some (value lib (newsReceived channel))) "Item" =
      some (some (grouped ((items channel).map fun i => value lib (itemReceived i)))) := by
  have hall : ((items channel).map itemReceived).filter (fun c => c.name = "Item".toList) =
      (items channel).map itemReceived := by
    refine List.filter_eq_self.mpr fun c hc => ?_
    obtain ⟨i, -, rfl⟩ := List.mem_map.mp hc
    exact decide_eq_true rfl
  have hne : (items channel).map itemReceived ≠ [] := by
    rw [ne_eq, List.map_eq_nil_iff]
    exact h
  rw [newsReceived, getProp_value hlib hne, hall, if_neg hne, List.map_map]
  rfl

variable (q : Quote) {channel : List ChannelChild} (sign change chart : Text)

omit hlib in
/-- Without items `News` is a text, and `news.Item.length` throws. -/
theorem newsList_nil (printval : Value) (h : items channel = []) :
    newsList printval (some (value lib (newsReceived channel))) = none := by
  rw [newsReceived, h]
  rfl

/-- A single item is no array and has no length. -/
theorem newsList_one (printval : Value) {i : List Child} (h : items channel = [i]) :
    newsList printval (some (value lib (newsReceived channel))) = some newsNotAvailable := by
  have hitem := item_news hlib channel (by rw [h]; nofun)
  rw [h] at hitem
  have hlength : getProp (some (value lib (itemReceived i))) "length" = some none :=
    getProp_value hlib (List.cons_ne_nil _ _) "length"
  rw [newsList, hitem]
  simp only [Option.bind_eq_bind, Option.bind_some]
  show (getProp (some (value lib (itemReceived i))) "length").bind _ = _
  rw [hlength]
  rfl

/-- **Two or more items** are all listed. -/
theorem newsList_many (h : 2 ≤ (items channel).length) :
    newsList (some (toJSONObject lib (received q channel sign change chart)))
      (some (value lib (newsReceived channel))) =
      some ("<ul>".toList ++ (items channel).flatMap (entry lib) ++ "</ul>".toList) := by
  have hne : items channel ≠ [] := by
    intro hnil
    rw [hnil] at h
    exact absurd h (by decide)
  have hgrouped : grouped ((items channel).map fun i => value lib (itemReceived i)) =
      .arr ((items channel).map fun i => value lib (itemReceived i)) := by
    rw [grouped]
    intro v hv
    have hone := congrArg List.length hv
    rw [List.length_map, List.length_singleton] at hone
    omega
  have hitem := item_news hlib channel hne
  rw [hgrouped] at hitem
  have hnews := reads_received hlib q channel sign change chart .news
  exact newsList_arr (entryOf_item hlib) (items channel) hnews hitem

end News

/-! ## From the feed to the page -/

section Shown
variable (lib : Libraries) (company : PhpString) (q : Quote) (channel : List ChannelChild)

/-- What the servlet answers with. -/
def answer : Text := doGet lib (document company q.columns channel)

/-- The list for the page: every item's entry, or the message. -/
def headlines : Text :=
  if items channel = [] then newsNotAvailable
  else "<ul>".toList ++ (items channel).flatMap (entry lib) ++ "</ul>".toList

/-- The columns that are compared with `'0.00'`. -/
def testedColumns : List Text :=
  [q.PreviousClose, q.DaysLow, q.DaysHigh, q.YearLow, q.YearHigh, q.Bid, q.Volume,
    q.AverageDailyVolume, q.MarketCapitalization]

/-- The texts that the script cuts or joins itself can be read. -/
def Readable : Prop :=
  (lib.xmlText ((encode q.Change).take 1)).isSome ∧ (lib.xmlText ((encode q.Change).drop 1)).isSome ∧
    (lib.xmlText (xml_chart company)).isSome

end Shown

section Shown
variable {lib : Libraries} {company : PhpString} {q : Quote} {channel : List ChannelChild}

omit [Floating] in
theorem negligible_zeroTested :
    (∀ x ∈ zeroTested, Negligible (column q x)) ↔ ∀ c ∈ testedColumns q, Negligible c := by
  have hnil : Negligible [] := by decide
  simp only [zeroTested, testedColumns, List.forall_mem_cons, column]
  constructor
  · rintro ⟨h₁, h₂, h₃, -, h₄, h₅, h₆, h₇, -, h₈, -, h₉, -⟩
    exact ⟨h₁, h₂, h₃, h₄, h₅, h₆, h₇, h₈, h₉, nofun⟩
  · rintro ⟨h₁, h₂, h₃, h₄, h₅, h₆, h₇, h₈, h₉, -⟩
    exact ⟨h₁, h₂, h₃, hnil, h₄, h₅, h₆, h₇, hnil, h₈, hnil, h₉, nofun⟩

section Documented
variable (hlib : lib.Documented) (hxml : FromXml q channel)
include hlib hxml

omit [Floating] in
theorem answer_nil (h : ¬ Readable lib company q) : answer lib company q channel = [] := by
  rw [answer, doGet, traverse_document hlib hxml]
  rw [Readable] at h
  cases hs : lib.xmlText ((encode q.Change).take 1) with
  | none => rfl
  | some sign =>
      cases hc : lib.xmlText ((encode q.Change).drop 1) with
      | none => rfl
      | some change =>
          cases hi : lib.xmlText (xml_chart company) with
          | none => rfl
          | some chart =>
              rw [hs, hc, hi] at h
              exact absurd ⟨rfl, rfl, rfl⟩ h

omit [Floating] in
theorem parse_answer (h : Readable lib company q) : ∃ sign change chart,
    parse (answer lib company q channel) =
      some (toJSONObject lib (received q channel sign change chart)) := by
  obtain ⟨hs, hc, hi⟩ := h
  obtain ⟨sign, hs⟩ := Option.isSome_iff_exists.mp hs
  obtain ⟨change, hc⟩ := Option.isSome_iff_exists.mp hc
  obtain ⟨chart, hi⟩ := Option.isSome_iff_exists.mp hi
  refine ⟨sign, change, chart, parse_doGet hlib ?_⟩
  rw [traverse_document hlib hxml, hs, hc, hi]
  rfl

end Documented

end Shown

end List

/-! ## Two feeds -/

attribute [local instance] Floating.unbounded

def oneItem : List ChannelChild :=
  [⟨"title".toList, []⟩, ⟨"item".toList, [⟨"link".toList, "http://finance.yahoo.com/1".toList⟩]⟩]

def twoItems : List ChannelChild :=
  oneItem ++ [⟨"item".toList, [⟨"link".toList, "http://finance.yahoo.com/2".toList⟩]⟩]

end WebTech.Servlet
