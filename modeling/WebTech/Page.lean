/-
# `WebTech.Page` — search_stock.html: its globals, its elements and changeRequest

The window as the page's scripts see it: the `XMLHttpRequest` objects made so
far, the variables, the elements `changeRequest` writes to, and the tab views
that wait to be rendered.  `changeRequest` is one script; a TypeError ends it
where it is thrown.

    response                                    what is left on the screen
    not complete, or status not 200             what was there               (`changeRequest_idle`)
    empty, or every price 0.00                  the message
    a member is missing on the way to a global  nothing
    a text cannot be built                      the post button, and perhaps the summary
    otherwise                                   the stock; its tab view is scheduled

The last four lines are the cases of `Handled`, and `changeRequest` always ends
in one of them (`respond_handled`).  The tests on `typeof(change)` and on
`newslist == ''` are left out: `change` is declared nowhere, and `newslist` is
empty when it is tested.
-/
import WebTech.Basic
import WebTech.Lib.Ecma

namespace WebTech.Page

open Ecma Ecma.Script

variable [Floating]

/-! ## The window -/

/-- The variables a response is read into. -/
inductive Global where
  | nameval | symbolval | changetype_val | change_val | changepercent_val | lasttradeprice_val
  | open1 | yearlow_val | yearhigh_val | volume | oneyeartargetprice | bid | daylow_val
  | dayhigh_val | ask | adv_val | prev_close | market_capitalization | stock_chart_img | news
  deriving DecidableEq, Repr

/-- The values of the variables. -/
abbrev Globals := Global → Value

/-- An `XMLHttpRequest`. -/
structure Xhr where
  url : Text
  /-- `send` was called. -/
  sent : Bool
  readyState : Nat
  status : Nat
  responseText : Text
  deriving DecidableEq, Repr

/-- The variable `req`: `undefined`, `false`, or an object by its place in
`xhrs`. -/
inductive Req where
  | undefined
  | false
  | object (i : Nat)
  deriving DecidableEq, Repr

/-- A tab view in `#demoo`: the contents of its two tabs. -/
structure TabView where
  quote : Text
  news : Text
  deriving DecidableEq, Repr

/-- The window.  `shown` is no variable of the page: it records, for each text
written into `data_display`, the object whose `responseText` it was made of. -/
structure Window where
  xhrs : List Xhr
  req : Req
  globals : Globals
  demoo : List TabView
  data_display : Text
  img : Text
  errormessage : Text
  fbpost : Text
  hr1 : Text
  /-- The scheduled tab views, each with the `newslist` it closes over. -/
  pending : List Text
  shown : List (Nat × Text)

/-- The page as it is loaded. -/
def Window.loaded : Window where
  xhrs := []
  req := .undefined
  globals := fun _ => none
  demoo := []
  data_display := []
  img := []
  errormessage := []
  fbpost := []
  hr1 := "<br/>".toList
  pending := []
  shown := []

/-! ## What a response is read into -/

/-- The expression a variable is assigned. -/
def Global.path : Global → List String
  | .nameval => ["result", "Name"]
  | .symbolval => ["result", "Symbol"]
  | .changetype_val => ["result", "Quote", "ChangeType"]
  | .change_val => ["result", "Quote", "Change"]
  | .changepercent_val => ["result", "Quote", "ChangeInPercent"]
  | .lasttradeprice_val => ["result", "Quote", "LastTradePriceOnly"]
  | .open1 => ["result", "Quote", "Open"]
  | .yearlow_val => ["result", "Quote", "YearLow"]
  | .yearhigh_val => ["result", "Quote", "YearHigh"]
  | .volume => ["result", "Quote", "Volume"]
  | .oneyeartargetprice => ["result", "Quote", "OneYearTargetPrice"]
  | .bid => ["result", "Quote", "Bid"]
  | .daylow_val => ["result", "Quote", "DaysLow"]
  | .dayhigh_val => ["result", "Quote", "DaysHigh"]
  | .ask => ["result", "Quote", "Ask"]
  | .adv_val => ["result", "Quote", "AverageDailyVolume"]
  | .prev_close => ["result", "Quote", "PreviousClose"]
  | .market_capitalization => ["result", "Quote", "MarketCapitalization"]
  | .stock_chart_img => ["result", "StockChartImageURL"]
  | .news => ["result", "News"]

/-- The order of the assignments. -/
def assignments : List Global :=
  [.nameval, .symbolval, .changetype_val, .change_val, .changepercent_val, .lasttradeprice_val,
    .open1, .yearlow_val, .yearhigh_val, .volume, .oneyeartargetprice, .bid, .daylow_val,
    .dayhigh_val, .ask, .adv_val, .prev_close, .market_capitalization, .stock_chart_img, .news]

/-- The variables compared with `'0.00'`, in the order of the comparisons. -/
def zeroTested : List Global :=
  [.prev_close, .daylow_val, .dayhigh_val, .open1, .yearlow_val, .yearhigh_val, .bid, .volume,
    .ask, .adv_val, .oneyeartargetprice, .market_capitalization]

/-- `x == '0.00' && y == '0.00' && …` -/
def allZero (g : Globals) : List Global → Option Bool
  | [] => some true
  | x :: xs => do if ← looseEqZero (g x) then allZero g xs else return false

def arrow_disp (changetype_val : Value) : String :=
  match changetype_val with
  | some (.str ['+']) => "<img src=\"http://www-scf.usc.edu/~csci571/2014Spring/hw6/up_g.gif\" width=\"10px\" height=\"35px\"/>&nbsp;<span style=\"color:green;font-size:25px\">"
  | _ => "<img src=\"http://www-scf.usc.edu/~csci571/2014Spring/hw6/down_r.gif\" width=\"10px\" height=\"35px\"/>&nbsp;<span style=\"color:red;font-size:25px\"\">"

/-- `buff`. -/
def summary (g : Globals) : Option Text :=
  concat [.lit "<font size = \"7px\">", .val (g .nameval), .lit "&#40;", .val (g .symbolval),
    .lit "&#41;<br><br>", .val (g .lasttradeprice_val), .lit "&nbsp;&nbsp;</font>", .lit " ",
    .lit (arrow_disp (g .changetype_val)), .val (g .change_val), .lit "&#40;",
    .val (g .changepercent_val), .lit "&#41;</span>"]

/-- `fb_button`. -/
def fb_button : Text :=
  "<input type=\"image\" src=\"fb.jpg\" width=\"75px\" height=\"25px\" style=\"padding:0; \"id=\"fbbutton\" class=\"yui3-button\" onclick=\"postFB()\" />".toList

/-- `img1`. -/
def chartImg (g : Globals) : Option Text :=
  concat [.lit "<img src=\"", .val (g .stock_chart_img), .lit "\"/>"]

/-- One headline. -/
def headline (link title : Value) : Option Text :=
  concat [.lit "<li><a target=\"_blank\" href = ", .val link, .lit ">", .val title,
    .lit "</a></li>"]

/-- `printval.result.News.Item[i].k` -/
def itemMember (printval : Value) (i : Nat) (k : String) : Option Value :=
  ((getPath printval ["result", "News", "Item"]).bind fun item => getIndex item i).bind
    fun w => getProp w k

/-- The indices a value can have an element at lie below this. -/
def entries : Value → Nat
  | some (.obj ms) => ms.length
  | some (.arr vs) => vs.length
  | some (.str s) => (utf16 s).length
  | _ => 0

/-- The loop over the headlines from index `i` on.  The first argument bounds
its rounds; an index past the entries has no element, and reading `.Link` of it
throws (`getIndex_entries`). -/
def newsItems (printval : Value) (news : Value) : Nat → Nat → Text → Option Text
  | 0, _, _ => none
  | n + 1, i, newslist => do
      let length ← getPath news ["Item", "length"]
      if ← lessThan i length then
        let li ← headline (← itemMember printval i "Link") (← itemMember printval i "Title")
        newsItems printval news n (i + 1) (newslist ++ li)
      else
        return newslist ++ "</ul>".toList

def newsNotAvailable : Text :=
  "<div class=\"yui3-skin-sam\" style=\"color:black\"><h1>Financial Company News is not available!</h1></div>".toList

/-- `newslist`. -/
def newsList (printval : Value) (news : Value) : Option Text := do
  let item ← getProp news "Item"
  let newsLength ← getProp item "length"
  if newsLength.isNone then
    return newsNotAvailable
  else
    newsItems printval news (entries item + 1) 0 "<ul>".toList

/-- Two cells of the quote table. -/
def cells (label : String) (values : List Operand) : List Operand :=
  [.lit "<td width=\"150\" align=\"left\">", .lit label, .lit "</td>",
    .lit "<td width=\"150\" align=\"right\">"] ++ values ++ [.lit "</td>"]

/-- A row of the quote table. -/
def row (left right : List Operand) : List Operand :=
  .lit "<tr>" :: left ++ .lit "<td width=\"30\"></td>" :: right ++ [.lit "</tr>"]

/-- The content of the tab `Quote Information`. -/
def quoteTable (g : Globals) : Option Text :=
  concat <| .lit "<table>" ::
    (row (cells "Prev.Close:" [.val (g .prev_close)])
        (cells "Day&#39;s Range:" [.val (g .daylow_val), .lit "-", .val (g .dayhigh_val)]) ++
      row (cells "Open:" [.val (g .open1)])
        (cells "52wk Range:" [.val (g .yearlow_val), .lit "-", .val (g .yearhigh_val)]) ++
      row (cells "Bid:" [.val (g .bid)]) (cells "Volume:" [.val (g .volume)]) ++
      row (cells "Ask:" [.val (g .ask)]) (cells "Avg Vol&#40;3m&#41;:" [.val (g .adv_val)]) ++
      row (cells "1y Target Est:" [.val (g .oneyeartargetprice)])
        (cells "Market Cap:" [.val (g .market_capitalization)]) ++
      [.lit "</table>"])

/-! ## The scripts -/

/-- The six `innerHTML = ""`. -/
def Window.cleared (w : Window) : Window :=
  { w with demoo := [], data_display := [], img := [], errormessage := [], fbpost := [], hr1 := [] }

def notAvailable : Text := "Stock information not available!".toList

def Window.message (w : Window) : Window := { w with errormessage := notAvailable }

def Window.assign (w : Window) (x : Global) (v : Value) : Window :=
  { w with globals := Function.update w.globals x v }

def Window.post (w : Window) : Window := { w with fbpost := fb_button }

/-- The summary made of the `i`-th object's response. -/
def Window.display (w : Window) (i : Nat) (buff : Text) : Window :=
  { w with data_display := buff, shown := w.shown ++ [(i, buff)] }

def Window.rule (w : Window) : Window := { w with hr1 := "<hr/>".toList }

def Window.chart (w : Window) (img1 : Text) : Window := { w with img := img1 }

def Window.schedule (w : Window) (newslist : Text) : Window :=
  { w with pending := w.pending ++ [newslist] }

def Window.render (w : Window) (v : TabView) : Window := { w with demoo := w.demoo ++ [v] }

/-- The assignments, one by one. -/
def readGlobals (printval : Value) : List Global → Script Window Unit
  | [] => pure ⟨⟩
  | x :: xs => do
      let v ← ofOption (getPath printval x.path)
      modify fun w => w.assign x v
      readGlobals printval xs

/-- `changeRequest`, from the first `innerHTML` on: `content` is the text of
the `i`-th object. -/
def respond (i : Nat) (content : Text) : Script Window Unit := do
  modify Window.cleared
  if content = [] then
    modify Window.message
  else
    -- an exception of JSON.parse is caught and leaves `printval` undefined
    let printval : Value := Rfc8259.parse content
    readGlobals printval assignments
    let w ← get
    if ← ofOption (allZero w.globals zeroTested) then
      modify Window.message
    else
      modify Window.post
      let buff ← ofOption (summary w.globals)
      modify fun w => w.display i buff
      modify Window.rule
      let newslist ← ofOption (newsList printval (w.globals .news))
      let img1 ← ofOption (chartImg w.globals)
      modify fun w => w.chart img1
      modify fun w => w.schedule newslist

/-- The object `req` refers to. -/
def Window.request (w : Window) : Option (Nat × Xhr) :=
  match w.req with
  | .object i => w.xhrs[i]?.map fun r => (i, r)
  | .undefined | .false => none

/-- `changeRequest`: the handler of every object's `readystatechange`. -/
def changeRequest : Script Window Unit := do
  let w ← get
  if w.req = .undefined then
    throw .typeError
  else
    match w.request with
    | none => pure ⟨⟩
    | some (i, r) =>
        if r.readyState = 4 ∧ r.status = 200 then respond i r.responseText else pure ⟨⟩

/-- The function `YUI().use('tabview', …)` calls later. -/
def renderTabView (newslist : Text) : Script Window Unit := do
  let w ← get
  let content ← ofOption (quoteTable w.globals)
  modify fun w => w.render ⟨content, newslist⟩

end WebTech.Page
