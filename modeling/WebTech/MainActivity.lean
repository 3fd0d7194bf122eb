/-
# `WebTech.MainActivity` — the Android client's main screen and its tasks

One `MainActivity` instance after `onCreate`: the views it writes to, the
field `map1`, and the three kinds of `AsyncTask` it starts.  A task's body
runs in the background, one body at a time in the order the tasks were
submitted; its `onPostExecute` runs later on the UI thread.

    event                 what the user or the system does              handler
    onTextChanged t       the text of the search box becomes `t`        RetrieveStockListTask, unless empty
    onItemClick i         the i-th suggestion is picked                 its symbol, then getStockData()
    onClick               the Search button is pressed                  getStockData()
    background r          the first task's body ends with `r`           setImage writes to the chart here
    onPostExecute         the first posted result is handled            setDatatoUI, or the suggestion list

What a download brings is part of the event: `background` carries any outcome
the body can have.  `Log`, `Toast` and focus are left out, as nothing reads
them; so are the views that are never written after `onCreate`.
-/
import WebTech.Basic
import WebTech.Lib.Executor
import WebTech.Lib.Machine

namespace WebTech.MainActivity

/-! ## What the tasks bring -/

/-- The map `Util.getStockData` returns: it puts every one of these keys, or
throws. -/
structure StockMap where
  Name : Text
  Symbol : Text
  ChangeType : Text
  Change : Text
  ChangeInPercent : Text
  LastTradePriceOnly : Text
  Open : Text
  YearLow : Text
  YearHigh : Text
  Volume : Text
  OneYearTargetPrice : Text
  Bid : Text
  DaysLow : Text
  DaysHigh : Text
  Ask : Text
  AverageDailyVolume : Text
  PreviousClose : Text
  MarketCapitalization : Text
  StockChartImageURL : Text
  hasNews : Bool
  newsLength : Nat
  newslinks : List Text
  newsh : List Text
  deriving DecidableEq, Repr

/-- An entry of the suggestion service's answer. -/
structure Suggestion where
  symbol : Text
  name : Text
  exch : Text
  deriving DecidableEq, Repr

/-- The line shown for a suggestion. -/
def Suggestion.output (s : Suggestion) : Text :=
  s.symbol ++ ", ".toList ++ s.name ++ "(".toList ++ s.exch ++ ")".toList

/-- The end of a chart download. -/
inductive Download where
  | decoded (bytes : List UInt8)
  /-- `BitmapFactory.decodeStream` returned null. -/
  | undecodable
  | malformedURL
  | ioException
  deriving DecidableEq, Repr

inductive Task where
  | retrieveStockList (text : Text)
  | retrieveStockData (symbol : Text)
  | loadImage (map : StockMap)
  deriving DecidableEq, Repr

/-- What the body of a task ends with; `none` is the null it returns after an
exception.  Each line of the list is one suggestion's `output`, and the list is
carried as these suggestions. -/
abbrev Result : Task → Type
  | .retrieveStockList _ => Option (List Suggestion)
  | .retrieveStockData _ => Option StockMap
  | .loadImage _ => Download

/-! ## The screen -/

inductive Visibility where
  | VISIBLE
  | GONE
  deriving DecidableEq, Repr

inductive Drawable where
  | up_g
  | down_r
  deriving DecidableEq, Repr

/-- The bitmap in the chart's `ImageView`, and the address it was fetched
from. -/
structure Image where
  url : Text
  bytes : List UInt8
  deriving DecidableEq, Repr

/-- The text fields of `result_view`. -/
structure TextFields where
  stock_Name : Text
  stock_Val : Text
  stock_Change : Text
  prev_Close : Text
  «open» : Text
  bid : Text
  ask : Text
  yrTarget : Text
  dayRange : Text
  weekRange : Text
  vol : Text
  avgVol : Text
  MarketCap : Text
  deriving DecidableEq, Repr

structure Button where
  enabled : Bool
  /-- A click listener has been set. -/
  listener : Bool
  deriving DecidableEq, Repr

/-- The instance: its views and its fields. -/
structure Activity where
  autocompTV : Text
  country_list : List Text
  resultView : Visibility
  errorView : Visibility
  texts : TextFields
  /-- The text colour of `stock_Change`. -/
  textColor : Text
  indicator : Drawable
  news_Button : Button
  chart : Option Image
  map1 : Option StockMap
  deriving Repr

/-- The layout's own texts, until a quote is shown. -/
def TextFields.layout : TextFields where
  stock_Name := "Medium Text".toList
  stock_Val := "Large Text".toList
  stock_Change := "Medium Text".toList
  prev_Close := "0".toList
  «open» := "0".toList
  bid := "0".toList
  ask := "0".toList
  yrTarget := "0".toList
  dayRange := "0-0".toList
  weekRange := "0-0".toList
  vol := "0".toList
  avgVol := "0".toList
  MarketCap := "0".toList

/-- After `onCreate`. -/
def onCreate : Activity where
  autocompTV := []
  country_list := []
  resultView := .GONE
  errorView := .GONE
  texts := .layout
  textColor := "#00FF00".toList
  indicator := .up_g
  news_Button := ⟨false, false⟩
  chart := none
  map1 := none

/-! ## The handlers -/

/-- What `setDatatoUI` writes into the text fields. -/
def TextFields.ofMap (map : StockMap) : TextFields where
  stock_Name := map.Name ++ "(".toList ++ map.Symbol ++ ")".toList
  stock_Val := map.LastTradePriceOnly
  stock_Change := map.Change ++ " (".toList ++ map.ChangeInPercent ++ ")".toList
  prev_Close := map.PreviousClose
  «open» := map.Open
  bid := map.Bid
  ask := map.Ask
  yrTarget := map.OneYearTargetPrice
  dayRange := map.DaysLow ++ " - ".toList ++ map.DaysHigh
  weekRange := map.YearLow ++ " - ".toList ++ map.YearHigh
  vol := map.Volume
  avgVol := map.AverageDailyVolume
  MarketCap := map.MarketCapitalization

/-- Colour and arrow by `ChangeType`. -/
def changeStyle (changeType : Text) : Text × Drawable :=
  if changeType = "+".toList then ("#00ff00".toList, .up_g)
  else if changeType = "-".toList then ("#ff0000".toList, .down_r)
  else ("#000000".toList, .up_g)

/-- `setDatatoUI`, and the task it starts.  `map1` is overwritten on both
branches; the button's listener, once set, stays set. -/
def setDatatoUI (map : Option StockMap) (a : Activity) : Activity × List Task :=
  let a := { a with map1 := map }
  match map with
  | some m =>
      ({ a with
          textColor := (changeStyle m.ChangeType).1
          indicator := (changeStyle m.ChangeType).2
          texts := .ofMap m
          news_Button := if m.hasNews then ⟨true, true⟩ else { a.news_Button with enabled := false }
          errorView := .GONE
          resultView := .VISIBLE },
        [.loadImage m])
  | none => ({ a with resultView := .GONE, errorView := .VISIBLE }, [])

/-- `setImage`: an exception leaves the `ImageView` as it is, a null bitmap
empties it. -/
def setImage (map : StockMap) (d : Download) (a : Activity) : Activity :=
  match d with
  | .decoded bytes => { a with chart := some ⟨map.StockChartImageURL, bytes⟩ }
  | .undecodable => { a with chart := none }
  | .malformedURL => a
  | .ioException => a

/-- What a body does to the views before it returns. -/
def doInBackground (a : Activity) : (Σ t, Result t) → Activity
  | ⟨.loadImage m, d⟩ => setImage m d a
  | ⟨.retrieveStockList _, _⟩ => a
  | ⟨.retrieveStockData _, _⟩ => a

/-- The suggestions replace the old ones unless there are none. -/
def setSuggestions (ret : Option (List Suggestion)) (a : Activity) : Activity :=
  match ret with
  | some (s :: ss) => { a with country_list := (s :: ss).map Suggestion.output }
  | some [] => a
  | none => a

/-- `onPostExecute`, and the tasks it starts.  `LoadImageTask` has none that
overrides. -/
def onPostExecute (a : Activity) : (Σ t, Result t) → Activity × List Task
  | ⟨.retrieveStockData _, ret⟩ => setDatatoUI ret a
  | ⟨.retrieveStockList _, ret⟩ => (setSuggestions ret a, [])
  | ⟨.loadImage _, _⟩ => (a, [])

/-- The button can be clicked: it is enabled and stands in a visible view. -/
def Activity.newsClickable (a : Activity) : Prop :=
  a.news_Button.enabled = true ∧ a.resultView = .VISIBLE

/-- The intent `loadNews` starts `NewsActivity` with. -/
structure NewsIntent where
  headlines : Nat
  news : List Text
  links : List Text
  deriving DecidableEq, Repr

inductive Exception where
  | nullPointer
  deriving DecidableEq, Repr

def loadNews : Option StockMap → Except Exception NewsIntent
  | some m => .ok ⟨m.newsLength, m.newsh, m.newslinks⟩
  | none => .error .nullPointer

/-! ## The instance and its executor -/

/-- The instance in a run.  `submitted` and `completed` record the run: the
symbols searched for, and the results `setDatatoUI` has been called with. -/
structure State where
  activity : Activity
  executor : Executor Task Result
  submitted : List Text
  completed : List (Text × Option StockMap)

inductive Event where
  | onTextChanged (text : Text)
  /-- `position` is the suggestion's place in `country_list`, of which the
  drop-down shows those that match the text. -/
  | onItemClick (position : Nat)
  | onClick
  | background (r : Σ t, Result t)
  | onPostExecute

/-- The symbol of a quote request. -/
def Task.symbol : Task → Option Text
  | .retrieveStockData symbol => some symbol
  | _ => none

/-- The map of a chart request. -/
def Task.chart : Task → Option StockMap
  | .loadImage map => some map
  | _ => none

/-- The result of a quote request. -/
def stockResult : (Σ t, Result t) → Option (Text × Option StockMap)
  | ⟨.retrieveStockData symbol, ret⟩ => some (symbol, ret)
  | _ => none

/-- The box's text changes, by the user or by `setText`. -/
def State.setText (s : State) (text : Text) : State where
  activity := { s.activity with autocompTV := text }
  executor := s.executor.submit (if text = [] then [] else [.retrieveStockList text])
  submitted := s.submitted
  completed := s.completed

/-- `MainActivity.getStockData`. -/
def State.getStockData (s : State) : State :=
  let symbol := s.activity.autocompTV
  if symbol = [] then s
  else
    { s with
      executor := s.executor.submit [.retrieveStockData symbol]
      submitted := s.submitted ++ [symbol] }

/-- `ci.split(",")[0]`. -/
def splitFirst (ci : Text) : Text := ci.takeWhile fun c => c ≠ ','

def step (s : State) : Event → Option State
  | .onTextChanged text => some (s.setText text)
  | .onItemClick position =>
      s.activity.country_list[position]?.map fun ci => (s.setText (splitFirst ci)).getStockData
  | .onClick => some s.getStockData
  | .background r =>
      (s.executor.finish r).map fun e =>
        { s with activity := doInBackground s.activity r, executor := e }
  | .onPostExecute =>
      s.executor.deliver.map fun (r, e) =>
        let (a, ts) := onPostExecute s.activity r
        { s with
          activity := a
          executor := e.submit ts
          completed := s.completed ++ (stockResult r).toList }

/-- The runs of one instance. -/
def app : Machine State Event where
  init := ⟨onCreate, .idle, [], []⟩
  step := step

/-! ## What a step can do -/

/-- A step that neither ends nor handles a task: something may be submitted,
and the views other than the search box are as they were. -/
structure Submits (s t : State) (ts : List Task) : Prop where
  executor : t.executor = s.executor.submit ts
  submitted : t.submitted = s.submitted ++ ts.filterMap Task.symbol
  completed : t.completed = s.completed
  charts : ts.filterMap Task.chart = []
  activity : ∃ text, t.activity = { s.activity with autocompTV := text }

theorem submits_setText (s : State) (text : Text) : ∃ ts, Submits s (s.setText text) ts := by
  refine ⟨if text = [] then [] else [.retrieveStockList text], rfl, ?_, rfl, ?_, text, rfl⟩
  · split <;> exact (List.append_nil _).symm
  · split <;> rfl

theorem submits_getStockData (s : State) : ∃ ts, Submits s s.getStockData ts := by
  rw [State.getStockData]
  split
  · exact ⟨[], (s.executor.submit_nil).symm, (List.append_nil _).symm, rfl, rfl, _, rfl⟩
  · exact ⟨[.retrieveStockData s.activity.autocompTV], rfl, rfl, rfl, rfl, _, rfl⟩

theorem Submits.trans {s t u : State} {ts us : List Task} (h : Submits s t ts)
    (h' : Submits t u us) : Submits s u (ts ++ us) where
  executor := by
    rw [h'.executor, h.executor, Executor.submit, Executor.submit, Executor.submit]
    exact congrArg (Executor.mk · _) (List.append_assoc _ _ _)
  submitted := by
    rw [h'.submitted, h.submitted, List.filterMap_append, List.append_assoc]
  completed := h'.completed.trans h.completed
  charts := by rw [List.filterMap_append, h.charts, h'.charts]; rfl
  activity := by
    obtain ⟨_, h⟩ := h.activity
    obtain ⟨text, h'⟩ := h'.activity
    exact ⟨text, by rw [h', h]⟩

/-- **The three things an event can do**: submit tasks, end the first body, or
handle the first result. -/
theorem step_cases {s t : State} {e : Event} (h : step s e = some t) :
    (∃ ts, Submits s t ts) ∨
    (∃ r e', e = .background r ∧ s.executor.finish r = some e' ∧
      t = { s with activity := doInBackground s.activity r, executor := e' }) ∨
    (∃ r e', s.executor.deliver = some (r, e') ∧
      t = { s with
            activity := (onPostExecute s.activity r).1
            executor := e'.submit (onPostExecute s.activity r).2
            completed := s.completed ++ (stockResult r).toList }) := by
  cases e with
  | onTextChanged text =>
      cases h
      exact .inl (submits_setText s text)
  | onItemClick position =>
      obtain ⟨ci, -, rfl⟩ := Option.map_eq_some_iff.mp h
      obtain ⟨ts, h₁⟩ := submits_setText s (splitFirst ci)
      obtain ⟨us, h₂⟩ := submits_getStockData (s.setText (splitFirst ci))
      exact .inl ⟨ts ++ us, h₁.trans h₂⟩
  | onClick =>
      cases h
      exact .inl (submits_getStockData s)
  | background r =>
      obtain ⟨e', he, rfl⟩ := Option.map_eq_some_iff.mp h
      exact .inr (.inl ⟨r, e', rfl, he, rfl⟩)
  | onPostExecute =>
      obtain ⟨⟨r, e'⟩, he, rfl⟩ := Option.map_eq_some_iff.mp h
      exact .inr (.inr ⟨r, e', he, rfl⟩)

end WebTech.MainActivity
