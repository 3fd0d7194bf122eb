/-
# `WebTech.Util` — Util.java: what the tasks download

Both methods read one line of a response and take it apart with `org.json`.
The library is a parameter: it parses what is JSON, and may parse more
(`OrgJson.Parses`).

    getListFromYahoo    the text between the first brace and the last character;
                        a JSONException ends the loop, and what was added stays
    getStockData        the whole line; every exception is thrown on

The arrays `newsh` and `newslinks` are filled from the front, so the loop over
the items appends to them; `hasNews` is assigned in every round.
-/
import WebTech.MainActivity

namespace WebTech.Util

open Rfc8259 MainActivity

/-! ## org.json -/

structure OrgJson where
  /-- `new JSONObject(text)`; `none` is its JSONException. -/
  parse : Text → Option Json
  /-- `String.valueOf` of a value that is no string. -/
  valueOf : Json → Text

/-- A JSON text is parsed as its value. -/
def OrgJson.Parses (lib : OrgJson) : Prop := ∀ t v, Rfc8259.parse t = some v → lib.parse t = some v

/-- An `org.json` that parses JSON and nothing else. -/
def strict : OrgJson := ⟨Rfc8259.parse, print⟩

theorem strict_parses : strict.Parses := fun _ _ h => h

/-- What ends a method. -/
inductive Exception where
  | JSONException
  | StringIndexOutOfBoundsException
  | NullPointerException
  deriving DecidableEq, Repr

section Accessors
variable (lib : OrgJson)

def parseObject (text : Text) : Except Exception Json :=
  match lib.parse text with
  | some (.obj ms) => .ok (.obj ms)
  | _ => .error .JSONException

def getJSONObject (v : Json) (name : String) : Except Exception Json :=
  match member name v with
  | some (.obj ms) => .ok (.obj ms)
  | _ => .error .JSONException

def getJSONArray (v : Json) (name : String) : Except Exception (List Json) :=
  match member name v with
  | some (.arr vs) => .ok vs
  | _ => .error .JSONException

/-- A value that is no string is turned into one. -/
def getString (v : Json) (name : String) : Except Exception Text :=
  match member name v with
  | some (.str s) => .ok s
  | some w => .ok (lib.valueOf w)
  | none => .error .JSONException

/-- `item.getJSONObject(i)`. -/
def asObject : Json → Except Exception Json
  | .obj ms => .ok (.obj ms)
  | _ => .error .JSONException

end Accessors

/-- `br.readLine()`. -/
def readLine (body : Text) : Option Text :=
  if body = [] then none else some (body.takeWhile fun c => c ≠ '\n' && c ≠ '\r')

/-! ## getListFromYahoo -/

section Methods
variable (lib : OrgJson)

/-- `output`. -/
def output (stock : Json) : Except Exception Text := do
  return (← getString lib stock "symbol") ++ ", ".toList ++ (← getString lib stock "name")
    ++ "(".toList ++ (← getString lib stock "exch") ++ ")".toList

/-- The loop: `tempstkList` when it ends, or when an exception ends it. -/
def stockLoop : List Json → List Text → List Text
  | [], tempstkList => tempstkList
  | stock :: res, tempstkList =>
      match asObject stock >>= output lib with
      | .ok o => stockLoop res (tempstkList ++ [o])
      | .error _ => tempstkList

/-- `line.substring(num, line.length() - 1)`. -/
def substring (line : Text) (num : Nat) : Text := (line.take (line.length - 1)).drop num

/-- `Util.getListFromYahoo`, for the body of the response. -/
def getListFromYahoo (body : Text) : Except Exception (List Text) :=
  match readLine body with
  | none => .error .NullPointerException
  | some line =>
      match line.findIdx? fun c => c = '{' with
      -- `substring(-1, …)`
      | none => .error .StringIndexOutOfBoundsException
      | some num =>
          match (do getJSONArray (← getJSONObject (← parseObject lib (substring line num))
              "ResultSet") "Result") with
          | .ok res => .ok (stockLoop lib res [])
          | .error _ => .ok []

/-! ## getStockData -/

/-- The loop over the items. -/
def newsLoop : List Json → List Text → List Text → Bool →
    Except Exception (List Text × List Text × Bool)
  | [], newsh, newslinks, hasNews => .ok (newsh, newslinks, hasNews)
  | item :: items, newsh, newslinks, _ => do
      let nl ← asObject item
      let title ← getString lib nl "Title"
      let link ← getString lib nl "Link"
      newsLoop items (newsh ++ [title]) (newslinks ++ [link]) (link ≠ "No Link".toList)

/-- `Util.getStockData`, for the body of the response. -/
def getStockData (body : Text) : Except Exception StockMap :=
  match readLine body with
  | none => .error .NullPointerException
  | some line => do
      let res ← getJSONObject (← parseObject lib line) "result"
      let Name ← getString lib res "Name"
      let Symbol ← getString lib res "Symbol"
      let quo ← getJSONObject res "Quote"
      let ChangeType ← getString lib quo "ChangeType"
      let Change ← getString lib quo "Change"
      let ChangeInPercent ← getString lib quo "ChangeInPercent"
      let LastTradePriceOnly ← getString lib quo "LastTradePriceOnly"
      let Open ← getString lib quo "Open"
      let YearLow ← getString lib quo "YearLow"
      let YearHigh ← getString lib quo "YearHigh"
      let Volume ← getString lib quo "Volume"
      let OneYearTargetPrice ← getString lib quo "OneYearTargetPrice"
      let Bid ← getString lib quo "Bid"
      let DaysLow ← getString lib quo "DaysLow"
      let DaysHigh ← getString lib quo "DaysHigh"
      let Ask ← getString lib quo "Ask"
      let AverageDailyVolume ← getString lib quo "AverageDailyVolume"
      let PreviousClose ← getString lib quo "PreviousClose"
      let MarketCapitalization ← getString lib quo "MarketCapitalization"
      let StockChartImageURL ← getString lib res "StockChartImageURL"
      let item ← getJSONArray (← getJSONObject res "News") "Item"
      let (newsh, newslinks, hasNews) ← newsLoop lib item [] [] false
      return {
        Name, Symbol, ChangeType, Change, ChangeInPercent, LastTradePriceOnly, Open, YearLow,
        YearHigh, Volume, OneYearTargetPrice, Bid, DaysLow, DaysHigh, Ask, AverageDailyVolume,
        PreviousClose, MarketCapitalization, StockChartImageURL, hasNews
        newsLength := item.length
        newslinks, newsh }

end Methods

/-! ## NewsActivity -/

/-- What a click on `View` shows and opens. -/
structure NewsView where
  headline : Text
  url : Text
  deriving DecidableEq, Repr

/-- The dialog's `onClick`, for the position that was clicked in the list: the
first of `View` and `Cancel` opens the news. -/
def onClick (extras : NewsIntent) (pos which : Nat) : Option NewsView :=
  if which = 0 then do
    return ⟨← extras.news[pos]?, ← extras.links[pos]?⟩
  else none

end WebTech.Util
