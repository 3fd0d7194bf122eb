/-
# `WebTech.Producer` — search_stock1.php: the result document

The script reads a YQL quote and a news feed and writes one XML document.  A
PHP string is a list of bytes; SimpleXML gives an element's text in UTF-8, and
the empty string when there is no child of the name.

    element                          column                     as it is in the quote
    Name, Symbol                     the same
    ChangeType, Change               Change, cut in two
    ChangeInPercent                  ChangeInPercent            ChangeinPercent
    Open, Ask                        open, ask                  Open, Ask
    OneYearTargetPrice               OneYearTargetPrice         OneyrTargetPrice
    the other prices                 the same
    Item/Title, Item/Link            title_elem, link           title, link
-/
import WebTech.Basic
import WebTech.Lib.Decimal
import WebTech.Lib.Utf8
import WebTech.Lib.Xml

namespace WebTech.Producer

open Xml Utf8

/-! ## PHP -/

/-- A PHP string. -/
abbrev PhpString := Bytes

/-- A string literal. -/
def lit (s : String) : PhpString := encode s.toList

/-- `floatval`: the bytes of a number are ASCII. -/
def floatval (s : PhpString) : Decimals.Dec :=
  Decimals.floatval (s.map fun b => Char.ofNat b.toNat)

/-- `number_format($x, 2)`. -/
def number_format (x : Decimals.Dec) : PhpString := encode (Decimals.numberFormat x 2)

/-! ## What the script reads -/

/-- A child element and its text. -/
structure Child where
  name : Text
  text : Text
  deriving DecidableEq, Repr

/-- `$e->name`, read as a string. -/
def read (cs : List Child) (name : String) : PhpString :=
  match cs.find? fun c => c.name = name.toList with
  | some c => encode c.text
  | none => []

/-- The columns the YQL query selects. -/
structure Quote where
  Name : Text
  Symbol : Text
  LastTradePriceOnly : Text
  Change : Text
  ChangeinPercent : Text
  PreviousClose : Text
  DaysLow : Text
  DaysHigh : Text
  Open : Text
  YearLow : Text
  YearHigh : Text
  Bid : Text
  Ask : Text
  AverageDailyVolume : Text
  OneyrTargetPrice : Text
  MarketCapitalization : Text
  Volume : Text
  deriving DecidableEq, Repr

/-- The `quote` element. -/
def Quote.columns (q : Quote) : List Child :=
  [⟨"Name".toList, q.Name⟩, ⟨"Symbol".toList, q.Symbol⟩,
    ⟨"LastTradePriceOnly".toList, q.LastTradePriceOnly⟩, ⟨"Change".toList, q.Change⟩,
    ⟨"ChangeinPercent".toList, q.ChangeinPercent⟩, ⟨"PreviousClose".toList, q.PreviousClose⟩,
    ⟨"DaysLow".toList, q.DaysLow⟩, ⟨"DaysHigh".toList, q.DaysHigh⟩, ⟨"Open".toList, q.Open⟩,
    ⟨"YearLow".toList, q.YearLow⟩, ⟨"YearHigh".toList, q.YearHigh⟩, ⟨"Bid".toList, q.Bid⟩,
    ⟨"Ask".toList, q.Ask⟩, ⟨"AverageDailyVolume".toList, q.AverageDailyVolume⟩,
    ⟨"OneyrTargetPrice".toList, q.OneyrTargetPrice⟩,
    ⟨"MarketCapitalization".toList, q.MarketCapitalization⟩, ⟨"Volume".toList, q.Volume⟩]

/-- A child of the feed's `channel`: an item, or anything else. -/
structure ChannelChild where
  name : Text
  children : List Child
  deriving DecidableEq, Repr

/-- The items of a channel. -/
def items (channel : List ChannelChild) : List (List Child) :=
  (channel.filter fun c => c.name = "item".toList).map ChannelChild.children

/-! ## What it writes -/

/-- `createElement`, with a text node in it. -/
def element (name : String) (text : PhpString) : Element PhpString := .leaf name.toList text

/-- An element with the number of a column. -/
def price (elemFinance : List Child) (name column : String) : Element PhpString :=
  element name (number_format (floatval (read elemFinance column)))

/-- `Quote`. -/
def quoteElement (elemFinance : List Child) : Element PhpString :=
  let change := read elemFinance "Change"
  let percent_change := read elemFinance "ChangeInPercent"
  .node "Quote".toList
    [element "ChangeType" (change.take 1),
      element "Change" (change.drop 1),
      element "ChangeInPercent" (percent_change.drop 1),
      price elemFinance "LastTradePriceOnly" "LastTradePriceOnly",
      price elemFinance "PreviousClose" "PreviousClose",
      price elemFinance "DaysLow" "DaysLow",
      price elemFinance "DaysHigh" "DaysHigh",
      price elemFinance "Open" "open",
      price elemFinance "YearLow" "YearLow",
      price elemFinance "YearHigh" "YearHigh",
      price elemFinance "Bid" "Bid",
      price elemFinance "Volume" "Volume",
      price elemFinance "Ask" "ask",
      price elemFinance "AverageDailyVolume" "AverageDailyVolume",
      price elemFinance "OneYearTargetPrice" "OneYearTargetPrice",
      price elemFinance "MarketCapitalization" "MarketCapitalization"]

/-- `Item`. -/
def itemElement (index : List Child) : Element PhpString :=
  .node "Item".toList
    [element "Title" (read index "title_elem"), element "Link" (read index "link")]

/-- The `foreach` over the channel's children. -/
def newsItems : List ChannelChild → List (Element PhpString)
  | [] => []
  | index :: rest =>
      if index.name = "item".toList then itemElement index.children :: newsItems rest
      else newsItems rest

/-- `$xml_chart`. -/
def xml_chart (company : PhpString) : PhpString :=
  lit "http://chart.finance.yahoo.com/t?s=" ++ company
    ++ lit "&amp;lang=en-US&amp;amp;width=300&amp;height=180"

/-- The document, for the parameter `company`.  An element holds the bytes its
text node was made of, before `saveXML` writes them. -/
def document (company : PhpString) (elemFinance : List Child) (channel : List ChannelChild) :
    Element PhpString :=
  .node "result".toList
    [element "Name" (read elemFinance "Name"),
      element "Symbol" (read elemFinance "Symbol"),
      quoteElement elemFinance,
      .node "News".toList (newsItems channel),
      element "StockChartImageURL" (xml_chart company)]

end WebTech.Producer
