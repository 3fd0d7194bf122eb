/-
# `WebTech.MainScreen` — the main screen shows the last search

    a call of setDatatoUI leaves the screen showing its argument     (`reflects_setDatatoUI`)
    nothing else a task or the user does changes that                (`Screen.submits`, `Screen.background`)
    in every reachable state the screen shows the last result,
    and results come in the order of the searches                    (`screen`)

The last search's result on the screen, once no quote request is outstanding,
and the safety of the news button are read off the invariant
(`screen_reflects_last_search`).
-/
import WebTech.MainActivity

namespace WebTech.MainActivity

/-- The text fields of a quote, one after another as they stand on the screen. -/
structure TextsOf (m : StockMap) (texts : TextFields) : Prop where
  stock_Name : texts.stock_Name = m.Name ++ '(' :: m.Symbol ++ [')']
  stock_Val : texts.stock_Val = m.LastTradePriceOnly
  stock_Change : texts.stock_Change = m.Change ++ ' ' :: '(' :: m.ChangeInPercent ++ [')']
  prev_Close : texts.prev_Close = m.PreviousClose
  «open» : texts.open = m.Open
  bid : texts.bid = m.Bid
  ask : texts.ask = m.Ask
  yrTarget : texts.yrTarget = m.OneYearTargetPrice
  dayRange : texts.dayRange = m.DaysLow ++ ' ' :: '-' :: ' ' :: m.DaysHigh
  weekRange : texts.weekRange = m.YearLow ++ ' ' :: '-' :: ' ' :: m.YearHigh
  vol : texts.vol = m.Volume
  avgVol : texts.avgVol = m.AverageDailyVolume
  MarketCap : texts.MarketCap = m.MarketCapitalization

/-- Colour and arrow of a change: green and up, red and down, or black and up. -/
inductive Marked : Text → Text → Drawable → Prop
  | rise : Marked ['+'] "#00ff00".toList .up_g
  | fall : Marked ['-'] "#ff0000".toList .down_r
  | unsigned {changeType : Text} :
      changeType ≠ ['+'] → changeType ≠ ['-'] → Marked changeType "#000000".toList .up_g

/-- The screen shows a quote, or that there is none. -/
def Reflects (a : Activity) : Option StockMap → Prop
  | some m =>
      a.resultView = .VISIBLE ∧ a.errorView = .GONE ∧ TextsOf m a.texts ∧
      Marked m.ChangeType a.textColor a.indicator ∧ a.news_Button.enabled = m.hasNews
  | none => a.errorView = .VISIBLE ∧ a.resultView = .GONE

/-- The screen shows the last result and `map1` is its map; before the first
result there is nothing to see. -/
def ShowsLast (a : Activity) : Option (Text × Option StockMap) → Prop
  | some (_, ret) => Reflects a ret ∧ a.map1 = ret
  | none => a.resultView = .GONE

/-- An enabled button has its listener. -/
def Wired (b : Button) : Prop := b.enabled = true → b.listener = true

/-- The invariant of the screen. -/
structure Screen (s : State) : Prop where
  order : Executor.InOrder Task.symbol s.submitted (s.completed.map Prod.fst) s.executor
  shows : ShowsLast s.activity s.completed.getLast?
  wired : Wired s.activity.news_Button

/-! ## Single handlers -/

/-- What `setDatatoUI` writes are the texts of the quote. -/
theorem textsOf_ofMap (m : StockMap) : TextsOf m (.ofMap m) where
  stock_Name := congrArg (· ++ _) (List.append_assoc m.Name ['('] m.Symbol)
  stock_Val := rfl
  stock_Change := congrArg (· ++ _) (List.append_assoc m.Change [' ', '('] m.ChangeInPercent)
  prev_Close := rfl
  «open» := rfl
  bid := rfl
  ask := rfl
  yrTarget := rfl
  dayRange := List.append_assoc m.DaysLow [' ', '-', ' '] m.DaysHigh
  weekRange := List.append_assoc m.YearLow [' ', '-', ' '] m.YearHigh
  vol := rfl
  avgVol := rfl
  MarketCap := rfl

theorem marked_changeStyle (changeType : Text) :
    Marked changeType (changeStyle changeType).1 (changeStyle changeType).2 := by
  rw [changeStyle]
  split
  · next h =>
      obtain rfl : changeType = ['+'] := h
      exact .rise
  · next hplus =>
      split
      · next h =>
          obtain rfl : changeType = ['-'] := h
          exact .fall
      · next hminus => exact .unsigned hplus hminus

theorem reflects_setDatatoUI (ret : Option StockMap) (a : Activity) :
    Reflects (setDatatoUI ret a).1 ret := by
  cases ret with
  | none => exact ⟨rfl, rfl⟩
  | some m =>
      refine ⟨rfl, rfl, textsOf_ofMap m, marked_changeStyle m.ChangeType, ?_⟩
      show (if m.hasNews then _ else _ : Button).enabled = m.hasNews
      cases m.hasNews with
      | true => rfl
      | false => rfl

theorem map1_setDatatoUI (ret : Option StockMap) (a : Activity) :
    (setDatatoUI ret a).1.map1 = ret := by
  cases ret with
  | none => rfl
  | some m => rfl

theorem wired_setDatatoUI {a : Activity} (h : Wired a.news_Button) :
    ∀ (ret : Option StockMap), Wired (setDatatoUI ret a).1.news_Button
  | none => h
  | some m => by
      show Wired (if m.hasNews then _ else _)
      cases m.hasNews with
      | true => exact fun _ => rfl
      | false => exact fun he => nomatch he

/-- Only `setDatatoUI` submits a chart request, never a quote request. -/
theorem symbols_setDatatoUI (ret : Option StockMap) (a : Activity) :
    (setDatatoUI ret a).2.filterMap Task.symbol = [] := by
  cases ret with
  | none => rfl
  | some m => rfl

/-- A body writes to the chart and to no other view. -/
theorem doInBackground_eq (a : Activity) (r : Σ t, Result t) :
    ∃ image, doInBackground a r = { a with chart := image } := by
  rcases r with ⟨t, d⟩
  cases t with
  | retrieveStockList text => exact ⟨a.chart, rfl⟩
  | retrieveStockData symbol => exact ⟨a.chart, rfl⟩
  | loadImage m =>
      cases d with
      | decoded bytes => exact ⟨some ⟨m.StockChartImageURL, bytes⟩, rfl⟩
      | undecodable => exact ⟨none, rfl⟩
      | malformedURL => exact ⟨a.chart, rfl⟩
      | ioException => exact ⟨a.chart, rfl⟩

theorem setSuggestions_eq (ret : Option (List Suggestion)) (a : Activity) :
    ∃ list, setSuggestions ret a = { a with country_list := list } := by
  rcases ret with _ | _ | ⟨s, ss⟩
  · exact ⟨a.country_list, rfl⟩
  · exact ⟨a.country_list, rfl⟩
  · exact ⟨_, rfl⟩

/-! ## Frames -/

/-- What is shown does not depend on the search box, the suggestions or the
chart. -/
theorem ShowsLast.frame {a b : Activity} (hr : b.resultView = a.resultView)
    (he : b.errorView = a.errorView) (ht : b.texts = a.texts) (hc : b.textColor = a.textColor)
    (hi : b.indicator = a.indicator) (hb : b.news_Button = a.news_Button)
    (hm : b.map1 = a.map1) : ∀ {last : Option (Text × Option StockMap)},
    ShowsLast a last → ShowsLast b last
  | none, h => hr.trans h
  | some (_, none), ⟨⟨h₁, h₂⟩, h₃⟩ => ⟨⟨he.trans h₁, hr.trans h₂⟩, hm.trans h₃⟩
  | some (_, some m), ⟨⟨h₁, h₂, h₃, h₄, h₅⟩, h₆⟩ =>
      ⟨⟨hr.trans h₁, he.trans h₂, ht ▸ h₃, by rw [hc, hi]; exact h₄, by rw [hb, h₅]⟩, hm.trans h₆⟩

/-! ## One step -/

theorem Screen.submits {s t : State} {ts : List Task} (h : Screen s) (ht : Submits s t ts) :
    Screen t := by
  obtain ⟨text, ha⟩ := ht.activity
  refine ⟨?_, ?_, ?_⟩
  · rw [ht.executor, ht.submitted, ht.completed]
    exact h.order.submit ts
  · rw [ht.completed, ha]
    exact h.shows.frame rfl rfl rfl rfl rfl rfl rfl
  · rw [ha]
    exact h.wired

theorem Screen.background {s : State} {r : Σ t, Result t} {e : Executor Task Result}
    (h : Screen s) (he : s.executor.finish r = some e) :
    Screen { s with activity := doInBackground s.activity r, executor := e } := by
  obtain ⟨image, ha⟩ := doInBackground_eq s.activity r
  refine ⟨h.order.finish he, ?_, ?_⟩
  · show ShowsLast (doInBackground s.activity r) _
    rw [ha]
    exact h.shows.frame rfl rfl rfl rfl rfl rfl rfl
  · show Wired (doInBackground s.activity r).news_Button
    rw [ha]
    exact h.wired

theorem Screen.post {s : State} {r : Σ t, Result t} {e : Executor Task Result}
    (h : Screen s) (he : s.executor.deliver = some (r, e)) :
    Screen { s with
      activity := (onPostExecute s.activity r).1
      executor := e.submit (onPostExecute s.activity r).2
      completed := s.completed ++ (stockResult r).toList } := by
  have horder := h.order.deliver he
  rcases r with ⟨t, ret⟩
  cases t with
  | retrieveStockData symbol =>
      refine ⟨?_, ?_, wired_setDatatoUI h.wired ret⟩
      · have hsub := horder.submit (setDatatoUI ret s.activity).2
        rw [symbols_setDatatoUI, List.append_nil] at hsub
        show Executor.InOrder _ _ ((s.completed ++ [(symbol, ret)]).map Prod.fst) _
        rw [List.map_append]
        exact hsub
      · show ShowsLast _ (s.completed ++ [(symbol, ret)]).getLast?
        rw [List.getLast?_concat]
        exact ⟨reflects_setDatatoUI ret _, map1_setDatatoUI ret _⟩
  | retrieveStockList text =>
      obtain ⟨list, ha⟩ := setSuggestions_eq ret s.activity
      refine ⟨?_, ?_, ?_⟩
      · show Executor.InOrder _ _ ((s.completed ++ []).map Prod.fst) (e.submit [])
        rw [List.append_nil, Executor.submit_nil]
        exact (List.append_nil (s.completed.map Prod.fst)) ▸ horder
      · show ShowsLast (setSuggestions ret s.activity) (s.completed ++ []).getLast?
        rw [List.append_nil, ha]
        exact h.shows.frame rfl rfl rfl rfl rfl rfl rfl
      · show Wired (setSuggestions ret s.activity).news_Button
        rw [ha]
        exact h.wired
  | loadImage m =>
      refine ⟨?_, ?_, h.wired⟩
      · show Executor.InOrder _ _ ((s.completed ++ []).map Prod.fst) (e.submit [])
        rw [List.append_nil, Executor.submit_nil]
        exact (List.append_nil (s.completed.map Prod.fst)) ▸ horder
      · show ShowsLast s.activity (s.completed ++ []).getLast?
        rw [List.append_nil]
        exact h.shows

/-! ## Every run -/

theorem Screen.step {s t : State} {e : Event} (h : Screen s)
    (ht : MainActivity.step s e = some t) : Screen t := by
  rcases step_cases ht with ⟨ts, hsub⟩ | ⟨r, e', -, hfin, rfl⟩ | ⟨r, e', hdel, rfl⟩
  · exact h.submits hsub
  · exact h.background hfin
  · exact h.post hdel

/-- **The screen's invariant.** -/
theorem screen {s : State} (h : app.Reachable s) : Screen s :=
  Machine.invariant (M := app) ⟨rfl, rfl, nofun⟩ (fun hs ht => hs.step ht) h

/-- A visible result is the last one's, a quote. -/
theorem Screen.visible {s : State} (h : Screen s) (hv : s.activity.resultView = .VISIBLE) :
    ∃ symbol m, s.completed.getLast? = some (symbol, some m) ∧ Reflects s.activity (some m) ∧
      s.activity.map1 = some m := by
  have hs := h.shows
  cases hl : s.completed.getLast? with
  | none =>
      rw [hl] at hs
      exact nomatch hv.symm.trans hs
  | some c =>
      rw [hl] at hs
      obtain ⟨symbol, ret⟩ := c
      cases ret with
      | none => exact nomatch hv.symm.trans hs.1.2
      | some m => exact ⟨symbol, m, rfl, hs.1, hs.2⟩

/-- **Nothing outstanding: the screen shows the last search's result.  And at
any time the news button, when it can be clicked, opens the headlines of the
quote on the screen.** -/
theorem screen_reflects_last_search (s : State) (h : app.Reachable s) :
    (s.executor.outstanding.filterMap Task.symbol = [] →
      ∀ symbol ret, s.completed.getLast? = some (symbol, ret) →
        s.submitted.getLast? = some symbol ∧ Reflects s.activity ret) ∧
    (s.activity.newsClickable →
      ∃ m, s.activity.map1 = some m ∧ Reflects s.activity (some m) ∧ m.hasNews = true ∧
        s.activity.news_Button.listener = true ∧
        loadNews s.activity.map1 = .ok ⟨m.newsLength, m.newsh, m.newslinks⟩) := by
  have hs := screen h
  constructor
  · intro hnone symbol ret hlast
    have hshows := hs.shows
    rw [hlast] at hshows
    refine ⟨?_, hshows.1⟩
    rw [hs.order.getLast? hnone, List.getLast?_map, hlast]
    rfl
  · rintro ⟨henabled, hvisible⟩
    obtain ⟨_, m, -, hreflects, hmap⟩ := hs.visible hvisible
    refine ⟨m, hmap, hreflects, ?_, hs.wired henabled, ?_⟩
    · exact hreflects.2.2.2.2.symm.trans henabled
    · rw [hmap]
      rfl

/-! ## A run -/

/-- A quote of the symbol and the chart given, down by twelve cents. -/
def quoteOf (symbol chartURL : Text) : StockMap where
  Name := "Apple Inc.".toList
  Symbol := symbol
  ChangeType := "-".toList
  Change := "0.12".toList
  ChangeInPercent := "0.02%".toList
  LastTradePriceOnly := "524.88".toList
  Open := "525.00".toList
  YearLow := "385.10".toList
  YearHigh := "575.14".toList
  Volume := "9,870,200".toList
  OneYearTargetPrice := "590.41".toList
  Bid := "524.80".toList
  DaysLow := "523.01".toList
  DaysHigh := "526.35".toList
  Ask := "524.90".toList
  AverageDailyVolume := "12,101,500".toList
  PreviousClose := "525.00".toList
  MarketCapitalization := "468.2B".toList
  StockChartImageURL := chartURL
  hasNews := true
  newsLength := 1
  newslinks := ["http://finance.example/a".toList]
  newsh := ["Apple unveils".toList]

/-- A search that finds its quote, and the end of its chart download. -/
def searchRun (symbol chartURL : Text) (d : Download) : List Event :=
  [.onTextChanged symbol, .onClick, .background ⟨.retrieveStockList symbol, none⟩,
    .background ⟨.retrieveStockData symbol, some (quoteOf symbol chartURL)⟩,
    .onPostExecute, .onPostExecute,
    .background ⟨.loadImage (quoteOf symbol chartURL), d⟩, .onPostExecute]

/-- Two searches: the second is submitted before the first one's result is
handled, and the first one's chart arrives after the second's result. -/
def overtaken (m m' : StockMap) : List Event :=
  [.onTextChanged ['A', 'A'], .onClick, .background ⟨.retrieveStockList ['A', 'A'], none⟩,
    .background ⟨.retrieveStockData ['A', 'A'], some m⟩, .onTextChanged ['G', 'E'], .onClick,
    .onPostExecute, .onPostExecute, .background ⟨.retrieveStockList ['G', 'E'], none⟩,
    .background ⟨.retrieveStockData ['G', 'E'], some m'⟩, .onPostExecute, .onPostExecute,
    .background ⟨.loadImage m, .decoded [1]⟩]

/-- The body of the first task ends. -/
theorem step_background {s : State} {q : List Task} (t : Task) (r : Result t)
    (h : s.executor.queue = t :: q) : app.step s (.background ⟨t, r⟩) =
      some { s with
        activity := doInBackground s.activity ⟨t, r⟩
        executor := ⟨q, s.executor.posted ++ [⟨t, r⟩]⟩ } := by
  have hfinish : s.executor.finish ⟨t, r⟩ = some ⟨q, s.executor.posted ++ [⟨t, r⟩]⟩ :=
    Executor.finish_eq_some.mpr ⟨q, h, rfl⟩
  exact congrArg (Option.map _) hfinish

theorem run_overtaken (m m' : StockMap) : ∃ s, app.run app.init (overtaken m m') = some s ∧
    s.executor.outstanding = [.loadImage m, .loadImage m'] ∧
    s.completed = [(['A', 'A'], some m), (['G', 'E'], some m')] ∧
    s.activity.resultView = .VISIBLE ∧ s.activity.map1 = some m' ∧
    (m'.hasNews = true → s.activity.news_Button.enabled = true) := by
  refine ⟨_, Machine.run_cons.mpr ⟨_, rfl, Machine.run_cons.mpr ⟨_, rfl,
    Machine.run_cons.mpr ⟨_, step_background (.retrieveStockList _) none rfl,
    Machine.run_cons.mpr ⟨_, step_background (.retrieveStockData _) (some m) rfl,
    -- the search for GE comes before AA's results are handled
    Machine.run_cons.mpr ⟨_, rfl, Machine.run_cons.mpr ⟨_, rfl,
    Machine.run_cons.mpr ⟨_, rfl, Machine.run_cons.mpr ⟨_, rfl,
    Machine.run_cons.mpr ⟨_, step_background (.retrieveStockList _) none rfl,
    Machine.run_cons.mpr ⟨_, step_background (.retrieveStockData _) (some m') rfl,
    Machine.run_cons.mpr ⟨_, rfl, Machine.run_cons.mpr ⟨_, rfl,
    -- and AA's chart after GE's
    Machine.run_cons.mpr ⟨_, step_background (.loadImage m) (.decoded [1]) rfl, rfl⟩⟩⟩⟩⟩⟩⟩⟩⟩⟩⟩⟩⟩,
    rfl, rfl, rfl, rfl, fun h => ?_⟩
  exact congrArg Button.enabled (if_pos h)

/-- Two stocks. -/
def lateChart : List Event :=
  overtaken (quoteOf "AA".toList "aa.png".toList) (quoteOf "GE".toList "ge.png".toList)

theorem screen_after_overtaken :
    ∃ s, app.run app.init lateChart = some s ∧ s.submitted.getLast? = some ['G', 'E'] ∧
      Reflects s.activity (some (quoteOf "GE".toList "ge.png".toList)) ∧
      loadNews s.activity.map1 =
        .ok ⟨1, ["Apple unveils".toList], ["http://finance.example/a".toList]⟩ := by
  obtain ⟨s, hrun, hout, hcompleted, hvisible, hmap, hnews⟩ :=
    run_overtaken (quoteOf "AA".toList "aa.png".toList) (quoteOf "GE".toList "ge.png".toList)
  refine ⟨s, hrun, ?_⟩
  obtain ⟨hlast, hclick⟩ := screen_reflects_last_search s ⟨_, hrun⟩
  obtain ⟨hsubmitted, hreflects⟩ := hlast (by rw [hout]; rfl) ['G', 'E'] _ (by rw [hcompleted]; rfl)
  obtain ⟨m, hm, -, -, -, hload⟩ := hclick ⟨hnews rfl, hvisible⟩
  obtain rfl := Option.some.inj (hm.symm.trans hmap)
  exact ⟨hsubmitted, hreflects, hload⟩

end WebTech.MainActivity
