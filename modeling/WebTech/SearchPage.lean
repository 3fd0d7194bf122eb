/-
# `WebTech.SearchPage` — search_stock.php: the page of results

The script of the PHP exercise reads a quote and a feed and writes the page
itself, tag by tag.  What it writes is a list of pieces: the tags and texts of
the template and the strings that are echoed between them.  White space between
tags is left out, except around the items of the headlines: what stands between
the last `?>` and `</ul>`, a space and a line break, is left out as well.

    $v1 == "+"    heading, table, row with the green arrow
    $v1 == "-"    heading, table, row with the red arrow
    $v1 == "0"    heading, table, row without an arrow
    always        five rows, the end of the table, the news

The three tests come one after another, none in the `else` of another.
-/
import WebTech.Producer

namespace WebTech.SearchPage

open WebTech.Producer Utf8

/-! ## PHP -/

/-- `strcmp`. -/
def strcmp (s t : PhpString) : Int := if s = t then 0 else if s < t then -1 else 1

/-- `str_replace(" ", "", $s)` -/
def noSpaces (s : PhpString) : PhpString := s.filter (· ≠ 32)

/-- `number_format((double)$s, places)` -/
def number_format (s : PhpString) (places : Nat) : PhpString :=
  encode (Decimals.numberFormat (floatval s) places)

/-! ## Pieces of a page -/

inductive Tag where
  | center | h2 | table | tr | td | div | font | img | col | ul | li | a
  deriving DecidableEq, Repr

def Tag.name : Tag → String
  | .center => "center"
  | .h2 => "h2"
  | .table => "table"
  | .tr => "tr"
  | .td => "td"
  | .div => "div"
  | .font => "font"
  | .img => "img"
  | .col => "col"
  | .ul => "ul"
  | .li => "li"
  | .a => "a"

/-- A tag or a text of the template, or an echoed string. -/
inductive Piece where
  /-- A start tag, with what is written after its name. -/
  | start (t : Tag) (attributes : String)
  | stop (t : Tag)
  /-- The anchor of a headline, its link echoed between the quotes. -/
  | anchor (link : PhpString)
  | text (s : String)
  | echo (b : PhpString)
  deriving DecidableEq, Repr

/-- What is sent for a piece. -/
def Piece.html : Piece → PhpString
  | .start t attributes => lit ("<" ++ t.name ++ attributes ++ ">")
  | .stop t => lit ("</" ++ t.name ++ ">")
  | .anchor link => lit "<a href = \"" ++ link ++ lit "\" target = \"_blank\" >"
  | .text s => lit s
  | .echo b => b

/-- What is sent for a list of pieces. -/
def html (ps : List Piece) : PhpString := ps.flatMap Piece.html

/-! ## The script -/

/-- The market capitalisation: the number before the last byte, with one place,
and the last byte. -/
def marketCap (storeVal : PhpString) : PhpString :=
  number_format (storeVal.take (storeVal.length - 1)) 1 ++ storeVal.drop (storeVal.length - 1)

/-- Heading, table and summary row, as the three blocks write them: `gap` after
the name, `arrow` before the change, and its colour. -/
def summary (quote : List Child) (attributes gap : String) (arrow : List Piece) (color : String) :
    List Piece :=
  let change := read quote "Change"
  let percent := (read quote "ChangeinPercent").drop 1
  [.start .center "", .start .h2 "", .text "Search Results", .stop .h2, .stop .center,
    .start .table "", .start .tr "", .start .td attributes, .start .div " style = \"float:left; \"",
    .echo (read quote "Name" ++ lit "(" ++ read quote "Symbol" ++ lit ")"), .stop .div, .text gap,
    .echo (number_format (read quote "LastTradePriceOnly") 2 ++ lit " ")]
  ++ arrow ++
  [.start .font (" style=\"color:" ++ color ++ ";\""),
    .echo (number_format (change.drop 1) 2 ++ lit "(" ++ percent ++ lit ")"), .stop .font,
    .stop .td, .stop .tr]

def summaryPlus (quote : List Child) : List Piece :=
  summary quote " COLSPAN=4 style=\"border-bottom:2pt solid black;\""
    "&nbsp;&nbsp;&nbsp;&nbsp;&nbsp;&nbsp;&nbsp;&nbsp;&nbsp;&nbsp;&nbsp;&nbsp;"
    [.start .img " src=\"http://www-scf.usc.edu/~csci571/2014Spring/hw6/up_g.gif\" /"] "green"

def summaryMinus (quote : List Child) : List Piece :=
  summary quote " COLSPAN=4 style= \"border-bottom:2pt solid black;\"" ""
    [.start .img " src=\"http://www-scf.usc.edu/~csci571/2014Spring/hw6/down_r.gif\" /"] "red"

def summaryZero (quote : List Child) : List Piece :=
  summary quote " COLSPAN=4 style= \"border-bottom:2pt solid black;\"" "" [] "green"

/-- A row of two labels, each with the string that is echoed after it. -/
def row (td₁ label₁ td₂ : String) (b₁ : PhpString) (td₃ label₂ td₄ : String) (b₂ : PhpString) :
    List Piece :=
  [.start .tr "", .start .td td₁, .text label₁, .stop .td, .start .td td₂, .echo b₁, .stop .td,
    .start .td td₃, .text label₂, .stop .td, .start .td td₄, .echo b₂, .stop .td, .stop .tr]

/-- The five rows below the summary. -/
def rows (quote : List Child) : List Piece :=
  let number (column : String) := number_format (read quote column) 2
  let whole (column : String) := number_format (read quote column) 0
  let range (low high : String) := number low ++ lit " - " ++ number high
  row " width=\"200\"" "Prev Close:" " width=\"80\"" (number "PreviousClose")
    " width=\"210\"" "Days Range:" " align=\"right\" width=\"200\"" (range "DaysLow" "DaysHigh")
  ++ row "" "Open:" "" (number "Open") "" "52wk Range:" " align=\"right\"" (range "YearLow" "YearHigh")
  ++ row "" "Bid:" "" (number "Bid") "" "Volume:" " align=\"right\"" (whole "Volume")
  ++ row "" "Ask:" "" (number "Ask") "" "Avg Vol:" " align=\"right\"" (whole "AverageDailyVolume")
  ++ row "" "1y Target Est:" "" (number "OneyrTargetPrice") "" "Market Cap:" " align=\"right\""
      (marketCap (read quote "MarketCapitalization"))

/-- One turn of the `foreach`. -/
def newsItem (iterate : List Child) : List Piece :=
  [.text "\t\t\t\t\t\t\t", .start .li "", .anchor (read iterate "link"),
    .echo (read iterate "title"), .stop .a, .stop .li, .text "\n\t\t\t\t\t"]

/-- The list of headlines, without its end tag, which every page ends with. -/
def newsList (channel : List ChannelChild) : List Piece :=
  [.start .ul " style =\"margin-left:320px;\"", .text "\n\t\t\t\t\t"]
    ++ (items channel).flatMap newsItem

/-- `$load1->channel->item->title` -/
def firstTitle (channel : List ChannelChild) : PhpString :=
  match items channel with
  | [] => []
  | i :: _ => read i "title"

def news (channel : List ChannelChild) : List Piece :=
  if firstTitle channel ≠ lit "Yahoo! Finance: RSS feed not found" then
    [.start .center "", .start .table "", .start .col " width=\"705px\"", .start .tr "",
      .start .td " style=\"border-bottom:2pt solid black;\"", .start .div "", .text "News Headlines",
      .stop .div, .stop .td, .stop .tr, .stop .table, .stop .center]
    ++ newsList channel
  else
    [.start .center "", .start .h2 "", .text "Financial Company News is not available", .stop .h2,
      .stop .center]

/-- What is sent for a quote with a change. -/
def results (quote : List Child) (channel : List ChannelChild) : List Piece :=
  let v1 := (read quote "Change").take 1
  (if strcmp v1 (lit "+") = 0 then summaryPlus quote else [])
  ++ (if strcmp v1 (lit "-") = 0 then summaryMinus quote else [])
  ++ (if strcmp v1 (lit "0") = 0 then summaryZero quote else [])
  ++ rows quote ++ [.stop .table, .stop .center] ++ news channel

/-- `$val1`, with the symbol posted. -/
def quoteUrl (txt : PhpString) : PhpString :=
  lit "http://query.yahooapis.com/v1/public/yql?q=Select%20Name%2C%20Symbol%2C%20LastTradePriceOnly%2C%20Change%2C%20ChangeinPercent%2C%20PreviousClose%2C%20DaysLow%2C%20DaysHigh%2C%20Open%2C%20YearLow%2C%20YearHigh%2C%20Bid%2C%20Ask%2C%20AverageDailyVolume%2C%20OneyrTargetPrice%2C%20MarketCapitalization%2C%20Volume%2C%20Open%2C%20YearLow%20from%20yahoo.finance.quotes%20where%20symbol%3D%22"
    ++ txt ++ lit "%22&env=store%3A%2F%2Fdatatables.org%2Falltableswithkeys"

/-- `$qry` -/
def newsUrl (txt : PhpString) : PhpString :=
  lit "http://feeds.finance.yahoo.com/rss/2.0/headline?s=" ++ txt ++ lit "&region=US&lang=en-US"

/-- What the form posts. -/
structure Post where
  submit : Bool
  url : PhpString

/-- The script, over what is found at an address: the children of a quote, and
those of a feed's channel. -/
def page (post : Post) (quoteAt : PhpString → List Child)
    (channelAt : PhpString → List ChannelChild) : List Piece :=
  if post.submit ∧ post.url ≠ [] ∧ noSpaces post.url ≠ [] then
    let txt := noSpaces post.url
    let quote := quoteAt (quoteUrl txt)
    if read quote "Change" ≠ [] then
      results quote (channelAt (newsUrl txt)) ++ [.stop .ul]
    else
      [.start .center "", .start .h2 "", .text "Stock Information Not Available", .stop .h2,
        .stop .center]
  else [.stop .ul]

end WebTech.SearchPage
