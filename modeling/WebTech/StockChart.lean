/-
# `WebTech.StockChart` — the chart beside the quote

The text fields are written by `setDatatoUI` and the chart by the body of the
`LoadImageTask` it starts, so the two can come from different searches.

    the last chart request waiting is the last quote's                    (`Pending`, `pending`)
    once none waits, the chart is empty or the last quote's, unless no
    quote is shown or another one is awaited                              (`Settled`, `settled`)
    a download that fails while another chart is shown breaks it          (`mismatch_of_failure`)

`setImage` empties the `ImageView` when the bitmap cannot be decoded and leaves
it alone when the download throws.  The runs that keep the chart and the quote
together are those in which a throwing download finds nothing to leave behind
(`ChartFailureHarmless`).
-/
import WebTech.MainScreen

namespace WebTech.MainActivity

/-- The charts whose downloads have not ended, in the order of submission. -/
def State.chartsQueued (s : State) : List StockMap := s.executor.queue.filterMap Task.chart

/-- The quotes whose results have not reached the screen. -/
def State.quotesAwaited (s : State) : List Text := s.executor.outstanding.filterMap Task.symbol

/-- The last quote that was shown. -/
def State.lastQuote (s : State) : Option StockMap := (s.completed.filterMap Prod.snd).getLast?

/-- The `ImageView` is empty or shows the chart of the quote. -/
def ChartOf (a : Activity) (m : StockMap) : Prop := ∀ i ∈ a.chart, i.url = m.StockChartImageURL

/-- A chart download that throws leaves no other quote's chart beside the
quote on the screen: the `ImageView` is empty or shows that very chart, or no
quote is shown, or another quote or chart is still to come. -/
def ChartFailureHarmless (s : State) : Event → Prop
  | .background ⟨.loadImage m, .malformedURL⟩ | .background ⟨.loadImage m, .ioException⟩ =>
      ChartOf s.activity m ∨ s.activity.resultView = .GONE ∨ s.quotesAwaited ≠ [] ∨
        s.chartsQueued.tail ≠ []
  | _ => True

instance decChartOf (a : Activity) (m : StockMap) : Decidable (ChartOf a m) :=
  inferInstanceAs (Decidable (∀ i ∈ a.chart, i.url = m.StockChartImageURL))

instance decChartFailureHarmless (s : State) : ∀ (e : Event), Decidable (ChartFailureHarmless s e)
  | .background ⟨.loadImage m, .malformedURL⟩ | .background ⟨.loadImage m, .ioException⟩ =>
      inferInstanceAs (Decidable (ChartOf s.activity m ∨ s.activity.resultView = .GONE ∨
        s.quotesAwaited ≠ [] ∨ s.chartsQueued.tail ≠ []))
  | .background ⟨.loadImage _, .decoded _⟩ | .background ⟨.loadImage _, .undecodable⟩
  | .background ⟨.retrieveStockList _, _⟩ | .background ⟨.retrieveStockData _, _⟩
  | .onTextChanged _ | .onItemClick _ | .onClick | .onPostExecute =>
      isTrue trivial

/-- The chart request submitted last is the last quote's. -/
def Pending (s : State) : Prop := ∀ m, s.chartsQueued.getLast? = some m → s.lastQuote = some m

/-- No chart is queued: the last quote's chart is in place, or it does not
matter yet. -/
def Settled (s : State) : Prop :=
  s.chartsQueued = [] → ∀ m, s.lastQuote = some m →
    ChartOf s.activity m ∨ s.activity.resultView = .GONE ∨ s.quotesAwaited ≠ []

/-! ## What a step changes -/

section Step
variable {s t : State}

theorem Submits.chartsQueued {ts : List Task} (h : Submits s t ts) :
    t.chartsQueued = s.chartsQueued := by
  rw [State.chartsQueued, h.executor, Executor.submit_queue, List.filterMap_append, h.charts,
    List.append_nil]
  rfl

theorem Submits.quotesAwaited {ts : List Task} (h : Submits s t ts) :
    t.quotesAwaited = s.quotesAwaited ++ ts.filterMap Task.symbol := by
  rw [State.quotesAwaited, h.executor, Executor.outstanding_submit, List.filterMap_append]
  rfl

theorem Submits.lastQuote {ts : List Task} (h : Submits s t ts) : t.lastQuote = s.lastQuote := by
  rw [State.lastQuote, h.completed, State.lastQuote]

/-- The body of a task leaves the charts behind it in the queue. -/
theorem chartsQueued_finish {r : Σ t, Result t} {e : Executor Task Result}
    (h : s.executor.finish r = some e) (a : Activity) :
    s.chartsQueued =
      r.1.chart.toList ++ ({ s with activity := a, executor := e } : State).chartsQueued := by
  obtain ⟨q, hq, rfl⟩ := Executor.finish_eq_some.mp h
  rw [State.chartsQueued, hq]
  show (r.1 :: q).filterMap Task.chart = r.1.chart.toList ++ q.filterMap Task.chart
  cases hc : r.1.chart with
  | none => rw [List.filterMap_cons_none hc]; rfl
  | some m => rw [List.filterMap_cons_some hc]; rfl

theorem quotesAwaited_finish {r : Σ t, Result t} {e : Executor Task Result}
    (h : s.executor.finish r = some e) (a : Activity) :
    ({ s with activity := a, executor := e } : State).quotesAwaited = s.quotesAwaited := by
  show e.outstanding.filterMap _ = _
  rw [Executor.outstanding_finish h]
  rfl

end Step

/-- The state after the result `r` was handled. -/
def State.posted (s : State) (r : Σ t, Result t) (e : Executor Task Result) : State :=
  { s with
    activity := (onPostExecute s.activity r).1
    executor := e.submit (onPostExecute s.activity r).2
    completed := s.completed ++ (stockResult r).toList }

/-- A handled result that is no quote's changes the suggestions at most. -/
structure Quiet (s t : State) : Prop where
  charts : t.chartsQueued = s.chartsQueued
  quotes : t.quotesAwaited = s.quotesAwaited
  last : t.lastQuote = s.lastQuote
  chart : t.activity.chart = s.activity.chart
  result : t.activity.resultView = s.activity.resultView

/-- **What handling a result can do to the chart**: a new quote queues its
chart behind the others, a failed search hides the quote, and nothing else
matters. -/
theorem posted_cases {s : State} {r : Σ t, Result t} {e : Executor Task Result}
    (he : s.executor.deliver = some (r, e)) :
    (∃ m, (s.posted r e).chartsQueued = s.chartsQueued ++ [m] ∧
      (s.posted r e).lastQuote = some m) ∨
    ((s.posted r e).chartsQueued = s.chartsQueued ∧ (s.posted r e).lastQuote = s.lastQuote ∧
      (s.posted r e).activity.resultView = .GONE) ∨
    Quiet s (s.posted r e) := by
  have hqueue := (Executor.deliver_eq_some.mp he).2
  have hout := Executor.outstanding_deliver he
  rcases r with ⟨t, ret⟩
  cases t with
  | retrieveStockData symbol =>
      cases ret with
      | none =>
          refine .inr (.inl ⟨?_, ?_, rfl⟩)
          · show ((e.submit []).queue).filterMap Task.chart = _
            rw [Executor.submit_nil, hqueue]
            rfl
          · show ((s.completed ++ [(symbol, none)]).filterMap Prod.snd).getLast? = _
            rw [List.filterMap_append]
            show (_ ++ []).getLast? = _
            rw [List.append_nil]
            rfl
      | some m =>
          refine .inl ⟨m, ?_, ?_⟩
          · show ((e.submit [.loadImage m]).queue).filterMap Task.chart = _
            rw [Executor.submit_queue, List.filterMap_append, hqueue]
            rfl
          · show ((s.completed ++ [(symbol, some m)]).filterMap Prod.snd).getLast? = _
            rw [List.filterMap_append]
            exact List.getLast?_concat
  | retrieveStockList text =>
      obtain ⟨list, ha⟩ := setSuggestions_eq ret s.activity
      refine .inr (.inr ⟨?_, ?_, ?_, ?_, ?_⟩)
      · show ((e.submit []).queue).filterMap Task.chart = _
        rw [Executor.submit_nil, hqueue]
        rfl
      · show ((e.submit []).outstanding).filterMap Task.symbol = s.executor.outstanding.filterMap _
        rw [Executor.submit_nil, hout]
        rfl
      · show ((s.completed ++ []).filterMap Prod.snd).getLast? = _
        rw [List.append_nil]
        rfl
      · show (setSuggestions ret s.activity).chart = _
        rw [ha]
      · show (setSuggestions ret s.activity).resultView = _
        rw [ha]
  | loadImage m =>
      refine .inr (.inr ⟨?_, ?_, ?_, rfl, rfl⟩)
      · show ((e.submit []).queue).filterMap Task.chart = _
        rw [Executor.submit_nil, hqueue]
        rfl
      · show ((e.submit []).outstanding).filterMap Task.symbol = s.executor.outstanding.filterMap _
        rw [Executor.submit_nil, hout]
        rfl
      · show ((s.completed ++ []).filterMap Prod.snd).getLast? = _
        rw [List.append_nil]
        rfl

/-! ## The order of the chart requests -/

theorem Pending.step {s t : State} {e : Event} (h : Pending s)
    (ht : MainActivity.step s e = some t) : Pending t := by
  rcases step_cases ht with ⟨ts, hsub⟩ | ⟨r, e', -, hfin, rfl⟩ | ⟨r, e', hdel, rfl⟩
  · rw [Pending, hsub.chartsQueued, hsub.lastQuote]
    exact h
  · intro m hm
    refine h m ?_
    rw [chartsQueued_finish hfin, List.getLast?_append_of_ne_nil, hm]
    rintro hnil
    rw [hnil] at hm
    exact nomatch hm
  · show Pending (s.posted r e')
    rcases posted_cases hdel with ⟨m, hq, hl⟩ | ⟨hq, hl, -⟩ | hquiet
    · intro m' hm'
      rw [hq, List.getLast?_concat] at hm'
      rw [hl, hm']
    · rw [Pending, hq, hl]
      exact h
    · rw [Pending, hquiet.charts, hquiet.last]
      exact h

theorem pending {s : State} (h : app.Reachable s) : Pending s :=
  Machine.invariant (M := app) (P := Pending) nofun (fun hs ht => hs.step ht) h

/-! ## The chart in place -/

/-- The end of the last chart download, when it does not strand another
quote's chart. -/
theorem Settled.loadImage {s : State} {m : StockMap} {d : Download}
    {e : Executor Task Result} (hp : Pending s)
    (hg : ChartFailureHarmless s (.background ⟨.loadImage m, d⟩))
    (he : s.executor.finish ⟨.loadImage m, d⟩ = some e) :
    Settled { s with activity := setImage m d s.activity, executor := e } := by
  have hqueued := chartsQueued_finish he (setImage m d s.activity)
  have hawaited := quotesAwaited_finish he (setImage m d s.activity)
  intro hnil m' hm'
  rw [hnil] at hqueued
  -- the download is the last one queued, so it is the last quote's
  cases (hp m (by rw [hqueued]; rfl)).symm.trans hm'
  rw [hawaited]
  have hharmless : (ChartOf s.activity m ∨ s.activity.resultView = .GONE ∨ s.quotesAwaited ≠ [] ∨
      s.chartsQueued.tail ≠ []) →
      ChartOf s.activity m ∨ s.activity.resultView = .GONE ∨ s.quotesAwaited ≠ [] := by
    rintro (hc | hr | hq | ht)
    · exact .inl hc
    · exact .inr (.inl hr)
    · exact .inr (.inr hq)
    · rw [hqueued] at ht
      exact absurd rfl ht
  cases d with
  | decoded bytes =>
      refine .inl fun i hi => ?_
      cases hi
      rfl
  | undecodable => exact .inl fun i hi => nomatch hi
  | malformedURL => exact hharmless hg
  | ioException => exact hharmless hg

theorem Settled.step {s t : State} {e : Event} (hp : Pending s) (h : Settled s)
    (hg : ChartFailureHarmless s e) (ht : MainActivity.step s e = some t) : Settled t := by
  rcases step_cases ht with ⟨ts, hsub⟩ | ⟨r, e', rfl, hfin, rfl⟩ | ⟨r, e', hdel, rfl⟩
  · obtain ⟨text, ha⟩ := hsub.activity
    rw [Settled, hsub.chartsQueued, hsub.lastQuote, hsub.quotesAwaited, ha]
    intro hnil m hm
    rcases h hnil m hm with hc | hr | hq
    · exact .inl hc
    · exact .inr (.inl hr)
    · exact .inr (.inr fun hq' => hq (List.append_eq_nil_iff.mp hq').1)
  · rcases r with ⟨task, ret⟩
    cases task with
    | loadImage m => exact Settled.loadImage hp hg hfin
    | retrieveStockList text =>
        rw [Settled, quotesAwaited_finish hfin]
        exact fun hnil => h ((chartsQueued_finish hfin _).trans hnil)
    | retrieveStockData symbol =>
        rw [Settled, quotesAwaited_finish hfin]
        exact fun hnil => h ((chartsQueued_finish hfin _).trans hnil)
  · show Settled (s.posted r e')
    rcases posted_cases hdel with ⟨m, hq, -⟩ | ⟨-, -, hr⟩ | hquiet
    · rw [Settled, hq]
      exact fun hnil => nomatch (List.append_eq_nil_iff.mp hnil).2
    · exact fun _ _ _ => .inr (.inl hr)
    · rw [Settled, hquiet.charts, hquiet.last, hquiet.quotes, hquiet.result]
      intro hnil m hm
      rw [ChartOf, hquiet.chart]
      exact h hnil m hm

/-- In runs whose failing downloads are harmless. -/
theorem settled {s : State} (h : (app.guarded ChartFailureHarmless).Reachable s) : Settled s :=
  (Machine.guarded_invariant (M := app) (P := fun s => Pending s ∧ Settled s)
    ⟨nofun, fun _ _ hm => nomatch hm⟩
    (fun hs hg ht => ⟨hs.1.step ht, hs.2.step hs.1 hg ht⟩) h).2

theorem lastQuote_of_completed {s : State} {symbol : Text} {m : StockMap}
    (h : s.completed.getLast? = some (symbol, some m)) : s.lastQuote = some m := by
  obtain ⟨cs, hcs⟩ := List.getLast?_eq_some_iff.mp h
  rw [State.lastQuote, hcs, List.filterMap_append]
  exact List.getLast?_concat

/-- **The chart belongs to the quote shown**, when nothing is pending, in
every run whose failing downloads are harmless. -/
theorem chart_of_displayed_quote (s : State)
    (h : (app.guarded ChartFailureHarmless).Reachable s) (hidle : s.executor.outstanding = [])
    (hvisible : s.activity.resultView = .VISIBLE) :
    ∃ m, s.activity.map1 = some m ∧ Reflects s.activity (some m) ∧ ChartOf s.activity m := by
  obtain ⟨symbol, m, hlast, hreflects, hmap⟩ := (screen h.of_guarded).visible hvisible
  have hqueue : s.executor.queue = [] := (List.append_eq_nil_iff.mp hidle).2
  refine ⟨m, hmap, hreflects, ?_⟩
  rcases settled h (by rw [State.chartsQueued, hqueue]; rfl) m (lastQuote_of_completed hlast)
    with hc | hr | hq
  · exact hc
  · exact nomatch hvisible.symm.trans hr
  · rw [State.quotesAwaited, hidle] at hq
    exact absurd rfl hq

/-- A search whose chart cannot be decoded after one whose chart was shown. -/
theorem chart_after_undecodable :
    ∃ s, (app.guarded ChartFailureHarmless).run app.init
        (searchRun ['A'] ['a'] (.decoded []) ++ searchRun ['B'] ['b'] .undecodable) = some s ∧
      ∃ m, s.activity.map1 = some m ∧ Reflects s.activity (some m) ∧ ChartOf s.activity m := by
  refine ⟨_, rfl, ?_⟩
  exact chart_of_displayed_quote _
    ⟨searchRun ['A'] ['a'] (.decoded []) ++ searchRun ['B'] ['b'] .undecodable, rfl⟩ rfl rfl

/-! ## The failing download -/

/-- The second search's chart download throws, and the first search's chart
stays beside the second quote. -/
theorem chart_of_another_quote :
    ∃ s, app.run app.init
        (searchRun ['A'] ['a'] (.decoded []) ++ searchRun ['B'] ['b'] .ioException) = some s ∧
      s.executor.outstanding = [] ∧ s.activity.resultView = .VISIBLE ∧
      s.activity.map1 = some (quoteOf ['B'] ['b']) ∧ s.activity.chart = some ⟨['a'], []⟩ ∧
      ¬ ChartOf s.activity (quoteOf ['B'] ['b']) :=
  ⟨_, rfl, rfl, rfl, rfl, rfl, by decide⟩

/-- **A harmful failure strands the chart**: when a download throws while
another chart is shown beside the quote and nothing else is to come, the quote
stays on the screen with a chart that is not its own. -/
theorem mismatch_of_failure {s t : State} {e : Event} (h : app.Reachable s)
    (ht : MainActivity.step s e = some t) (hg : ¬ ChartFailureHarmless s e) :
    ∃ m, t.activity.map1 = some m ∧ Reflects t.activity (some m) ∧ ¬ ChartOf t.activity m ∧
      t.chartsQueued = [] ∧ t.quotesAwaited = [] := by
  obtain ⟨m, d, rfl, hsame, hbad⟩ : ∃ m d, e = .background ⟨.loadImage m, d⟩ ∧
      setImage m d s.activity = s.activity ∧
      ¬ (ChartOf s.activity m ∨ s.activity.resultView = .GONE ∨ s.quotesAwaited ≠ [] ∨
        s.chartsQueued.tail ≠ []) := by
    cases e with
    | background r =>
        rcases r with ⟨task, d⟩
        cases task with
        | loadImage m =>
            cases d with
            | malformedURL => exact ⟨m, _, rfl, rfl, hg⟩
            | ioException => exact ⟨m, _, rfl, rfl, hg⟩
            | decoded bytes => exact absurd trivial hg
            | undecodable => exact absurd trivial hg
        | retrieveStockList text => exact absurd trivial hg
        | retrieveStockData symbol => exact absurd trivial hg
    | onTextChanged text => exact absurd trivial hg
    | onItemClick position => exact absurd trivial hg
    | onClick => exact absurd trivial hg
    | onPostExecute => exact absurd trivial hg
  rw [not_or, not_or, not_or, not_not, not_not] at hbad
  obtain ⟨hchart, hgone, hawaited, htail⟩ := hbad
  obtain ⟨e', hfin, rfl⟩ := Option.map_eq_some_iff.mp ht
  have hqueued := chartsQueued_finish hfin (setImage m d s.activity)
  have hvisible : s.activity.resultView = .VISIBLE := by
    cases hv : s.activity.resultView with
    | VISIBLE => rfl
    | GONE => exact absurd hv hgone
  obtain ⟨symbol, m', hlast, hreflects, hmap⟩ := (screen h).visible hvisible
  have hrest : ({ s with activity := setImage m d s.activity, executor := e' } : State).chartsQueued
      = [] := by
    rw [hqueued] at htail
    exact htail
  have hm : m = m' := by
    have hp := pending h m (by rw [hqueued, hrest]; rfl)
    exact Option.some.inj (hp.symm.trans (lastQuote_of_completed hlast))
  subst hm
  refine ⟨m, ?_, ?_, ?_, hrest, (quotesAwaited_finish hfin _).trans hawaited⟩
  · show (setImage m d s.activity).map1 = _
    rw [hsame, hmap]
  · show Reflects (setImage m d s.activity) _
    rw [hsame]
    exact hreflects
  · show ¬ ChartOf (setImage m d s.activity) m
    rw [hsame]
    exact hchart

end WebTech.MainActivity
