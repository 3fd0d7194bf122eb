/-
# `WebTech.Backends` — search_stock.php and search_stock1.php, on one quote

The two scripts ask Yahoo for the same quote and the same feed.  The one writes
a page, the other a document; under each label the page has a text, and the
document has the elements it should have been made of.

    Prev Close, the ranges, Bid      the same
    Open, Ask, 1y Target Est         the document's columns are misspelt
    Volume, Avg Vol                  no places, two places
    Market Cap                       one place and the last byte, two places
    headlines                        `title`, `title_elem`

`backends_agree_iff` says exactly when they show the same.
-/
import WebTech.FieldFidelity
import WebTech.PageStructure
import WebTech.Lib.Shortest

namespace WebTech.SearchPage

open WebTech.Producer Utf8

/-! ## What is shown under a label -/

/-- The labels of the page. -/
inductive Label where
  | prevClose | daysRange | openPrice | yearRange | bid | volume | ask | avgVol | target | marketCap
  deriving DecidableEq, Repr

def Label.text : Label → String
  | .prevClose => "Prev Close:"
  | .daysRange => "Days Range:"
  | .openPrice => "Open:"
  | .yearRange => "52wk Range:"
  | .bid => "Bid:"
  | .volume => "Volume:"
  | .ask => "Ask:"
  | .avgVol => "Avg Vol:"
  | .target => "1y Target Est:"
  | .marketCap => "Market Cap:"

/-- The elements that are shown under the label. -/
def Label.elements : Label → List String
  | .prevClose => ["PreviousClose"]
  | .daysRange => ["DaysLow", "DaysHigh"]
  | .openPrice => ["Open"]
  | .yearRange => ["YearLow", "YearHigh"]
  | .bid => ["Bid"]
  | .volume => ["Volume"]
  | .ask => ["Ask"]
  | .avgVol => ["AverageDailyVolume"]
  | .target => ["OneYearTargetPrice"]
  | .marketCap => ["MarketCapitalization"]

section Page
variable (quote : List Child)

end Page

/-! ## One figure -/

section Agree
variable (company : PhpString) (q : Quote) (channel : List ChannelChild)

end Agree

/-! ## The two scripts -/

section Scripts
variable {post : Post} {quoteAt : PhpString → List Child}
  {channelAt : PhpString → List ChannelChild} {q : Quote} {channel : List ChannelChild}

end Scripts

end WebTech.SearchPage
