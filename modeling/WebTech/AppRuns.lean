/-
# `WebTech.AppRuns` — whole runs of the Android client

A run is a list of events, in any order the executor and the UI thread allow.

    the system's own events use up work, and end with nothing outstanding   (`every_search_is_answered`)
    the screen after a run is that of the results alone, one after another  (`screen_of_run`)
    the suggestions are those of the last answer that had any               (`suggestions_of_run`)

The second says that the interleaving does not matter: the text fields, the
buttons and the suggestions depend on the results that were handled, the chart
on those that were posted, and the box on nothing but what was typed into it.
-/
import WebTech.MainScreen

namespace WebTech.MainActivity

/-! ## Every search is answered -/

/-- The events that need no user. -/
def Event.internal : Event → Prop
  | .background _ => True
  | .onPostExecute => True
  | _ => False

/-- Handling a result; a quote's may start the download of its chart. -/
def Task.cost : Task → ℕ
  | .retrieveStockList _ => 1
  | .retrieveStockData _ => 3
  | .loadImage _ => 1

instance nonemptyResult : ∀ t, Nonempty (Result t)
  | .retrieveStockList _ => ⟨none⟩
  | .retrieveStockData _ => ⟨none⟩
  | .loadImage _ => ⟨.ioException⟩

/-- What handling a result starts is paid for by its cost. -/
theorem load_onPostExecute (a : Activity) : ∀ r : Σ t, Result t,
    Executor.load (fun t => t.cost + 1) (onPostExecute a r).2 < r.1.cost
  | ⟨.retrieveStockList _, _⟩ => Nat.zero_lt_one
  | ⟨.retrieveStockData _, none⟩ => Nat.zero_lt_succ 2
  | ⟨.retrieveStockData _, some _⟩ => Nat.lt_succ_self 2
  | ⟨.loadImage _, _⟩ => Nat.zero_lt_one

/-- **Work is used up** by every event of the system. -/
theorem work_step {s t : State} {e : Event} (he : e.internal) (h : app.step s e = some t) :
    t.executor.work Task.cost < s.executor.work Task.cost := by
  cases e with
  | onTextChanged _ | onItemClick _ | onClick => exact he.elim
  | background r =>
      obtain ⟨e', hfin, rfl⟩ := Option.map_eq_some_iff.mp h
      have hwork := Executor.work_finish Task.cost hfin
      show e'.work Task.cost < _
      omega
  | onPostExecute =>
      obtain ⟨⟨r, e'⟩, hdel, rfl⟩ := Option.map_eq_some_iff.mp h
      have hwork := Executor.work_deliver Task.cost hdel
      have hload := load_onPostExecute s.activity r
      show (e'.submit (onPostExecute s.activity r).2).work Task.cost < _
      rw [Executor.work_submit]
      omega

theorem submitted_step {s t : State} {e : Event} (he : e.internal) (h : app.step s e = some t) :
    t.submitted = s.submitted := by
  cases e with
  | onTextChanged _ | onItemClick _ | onClick => exact he.elim
  | background r =>
      obtain ⟨e', -, rfl⟩ := Option.map_eq_some_iff.mp h
      rfl
  | onPostExecute =>
      obtain ⟨⟨r, e'⟩, -, rfl⟩ := Option.map_eq_some_iff.mp h
      rfl

/-- The system can go on until nothing is outstanding. -/
theorem idle_of_stuck {t : State} (h : ∀ e, Event.internal e → app.step t e = none) :
    t.executor = .idle := by
  refine Executor.eq_idle ?_ ?_
  · intro r
    exact Option.map_eq_none_iff.mp (h (.background r) trivial)
  · exact Option.map_eq_none_iff.mp (h .onPostExecute trivial)

/-- **Every search is answered.**  From any reachable state the system's own
events come to an end, whatever the downloads bring and in whatever order the
results are handled.  Then nothing is outstanding, the searches have been
answered in their order, and the screen shows the answer of the last one. -/
theorem every_search_is_answered {s : State} (h : app.Reachable s) :
    (∃ es t, (∀ e ∈ es, Event.internal e) ∧ app.run s es = some t ∧ t.executor = .idle) ∧
    ∀ es t, (∀ e ∈ es, Event.internal e) → app.run s es = some t →
      es.length ≤ s.executor.work Task.cost ∧
      ((∀ e, Event.internal e → app.step t e = none) →
        t.executor = .idle ∧ t.completed.map Prod.fst = s.submitted ∧
        ∀ symbol ret, t.completed.getLast? = some (symbol, ret) → Reflects t.activity ret) := by
  constructor
  · obtain ⟨es, t, hes, hrun, hstuck⟩ :=
      Machine.exists_stuck (fun u : State => u.executor.work Task.cost) work_step s
    exact ⟨es, t, hes, hrun, idle_of_stuck hstuck⟩
  · intro es t hes hrun
    have hlen :=
      Machine.length_run_le (fun u : State => u.executor.work Task.cost) work_step hes hrun
    refine ⟨by omega, fun hstuck => ?_⟩
    have hidle := idle_of_stuck hstuck
    have hscreen := screen (h.run hrun)
    have hsubmitted : t.submitted = s.submitted :=
      Machine.run_invariant_of (P := fun u : State => u.submitted = s.submitted)
        (fun he hu hst => (submitted_step he hst).trans hu) hes rfl hrun
    refine ⟨hidle, ?_, fun symbol ret hlast => ?_⟩
    · have horder := hscreen.order
      rw [Executor.InOrder, hidle, Executor.outstanding_idle, List.filterMap_nil,
        List.append_nil, hsubmitted] at horder
      exact horder.symm
    · have hshows := hscreen.shows
      rw [hlast] at hshows
      exact hshows.1

/-- Two symbols are typed and searched, and the system left to itself. -/
theorem typed_search_is_answered :
    ∃ s, app.run app.init [.onTextChanged "AA".toList, .onClick, .onTextChanged "GE".toList,
        .onClick] = some s ∧
      ∃ es t, (∀ e ∈ es, Event.internal e) ∧ app.run s es = some t ∧ t.executor = .idle :=
  ⟨_, rfl, (every_search_is_answered ⟨[.onTextChanged "AA".toList, .onClick,
    .onTextChanged "GE".toList, .onClick], rfl⟩).1⟩

/-! ## The screen as a function of the results -/

/-- The result a body ends with. -/
def Event.result : Event → Option (Σ t, Result t)
  | .background r => some r
  | _ => none

/-- A result is handled. -/
def Event.handles : Event → Bool
  | .onPostExecute => true
  | _ => false

/-- The suggestions of an answer that has any. -/
def suggestions : (Σ t, Result t) → Option (List Suggestion)
  | ⟨.retrieveStockList _, some (s :: ss)⟩ => some (s :: ss)
  | _ => none

/-- What the end of a download leaves in the chart, if it touches it. -/
def drawn : (Σ t, Result t) → Option (Option Image)
  | ⟨.loadImage m, .decoded bytes⟩ => some (some ⟨m.StockChartImageURL, bytes⟩)
  | ⟨.loadImage _, .undecodable⟩ => some none
  | _ => none

section ScreenOf
variable (text : Text) (ended handled : List (Σ t, Result t))

/-- The answer of the last search, a quote or none. -/
def lastAnswer : Option (Option StockMap) := (handled.filterMap stockResult).getLast?.map Prod.snd

/-- The quotes that were found. -/
def quotes : List StockMap := (handled.filterMap stockResult).filterMap Prod.snd

/-- The suggestions of the last answer that had any. -/
def offered : List Suggestion := (handled.filterMap suggestions).getLast?.getD []

/-- What the screen is for: the last search's answer, the fields of the last
quote, the suggestions and the chart that came last. -/
def screenOf : Activity where
  autocompTV := text
  country_list := (offered handled).map Suggestion.output
  resultView := if (lastAnswer handled).join.isSome then .VISIBLE else .GONE
  errorView := if lastAnswer handled = some none then .VISIBLE else .GONE
  texts := (quotes handled).getLast?.elim .layout .ofMap
  textColor := (quotes handled).getLast?.elim "#00FF00".toList fun m => (changeStyle m.ChangeType).1
  indicator := (quotes handled).getLast?.elim .up_g fun m => (changeStyle m.ChangeType).2
  news_Button :=
    ⟨(quotes handled).getLast?.elim false StockMap.hasNews, (quotes handled).any StockMap.hasNews⟩
  chart := (ended.filterMap drawn).getLast?.join
  map1 := (lastAnswer handled).join

variable {text ended handled}

@[simp] theorem lastAnswer_concat (r : Σ t, Result t) : lastAnswer (handled ++ [r]) =
    ((stockResult r).map Prod.snd).or (lastAnswer handled) := by
  cases hr : stockResult r with
  | none => simp [lastAnswer, hr]
  | some a => simp [lastAnswer, hr]

@[simp] theorem quotes_concat (r : Σ t, Result t) : quotes (handled ++ [r]) =
    quotes handled ++ ((stockResult r).bind Prod.snd).toList := by
  cases hr : stockResult r with
  | none => simp [quotes, hr]
  | some a => cases ha : a.2 with
    | none => simp [quotes, hr, ha]
    | some m => simp [quotes, hr, ha]

@[simp] theorem offered_concat (r : Σ t, Result t) :
    offered (handled ++ [r]) = (suggestions r).getD (offered handled) := by
  cases hr : suggestions r with
  | none => simp [offered, hr]
  | some ss => simp [offered, hr]

/-- The end of a body adds to the results that ended. -/
theorem screenOf_background : ∀ r : Σ t, Result t,
    doInBackground (screenOf text ended handled) r = screenOf text (ended ++ [r]) handled
  | ⟨.retrieveStockList _, _⟩ | ⟨.retrieveStockData _, _⟩ => by
      simp [doInBackground, screenOf, drawn]
  | ⟨.loadImage _, d⟩ => by
      cases d with
      | decoded _ | undecodable | malformedURL | ioException =>
          simp [doInBackground, setImage, screenOf, drawn]

/-- A handler adds to the results that were handled. -/
theorem screenOf_post : ∀ r : Σ t, Result t,
    (onPostExecute (screenOf text ended handled) r).1 = screenOf text ended (handled ++ [r])
  | ⟨.retrieveStockList _, ret⟩ => by
      rcases ret with _ | _ | ⟨s, ss⟩
      all_goals simp [onPostExecute, setSuggestions, screenOf, suggestions, stockResult]
  | ⟨.retrieveStockData _, none⟩ => by
      simp [onPostExecute, setDatatoUI, screenOf, suggestions, stockResult]
  | ⟨.retrieveStockData _, some m⟩ => by
      cases hnews : m.hasNews with
      | true | false =>
          simp [onPostExecute, setDatatoUI, screenOf, suggestions, stockResult, hnews]
  | ⟨.loadImage _, _⟩ => by
      simp [onPostExecute, screenOf, suggestions, stockResult]

end ScreenOf

/-- The results that have been handled, among those that ended, make the screen. -/
structure History (es : List Event) (s : State) (handled : List (Σ t, Result t)) : Prop where
  ended : es.filterMap Event.result = handled ++ s.executor.posted
  count : handled.length = es.countP Event.handles
  activity : s.activity = screenOf s.activity.autocompTV (es.filterMap Event.result) handled

section History
variable {es : List Event} {s t : State} {handled : List (Σ t, Result t)}

theorem History.submits {e : Event} {ts : List Task} (h : History es s handled)
    (ht : Submits s t ts) (hr : e.result = none) (hh : e.handles = false) :
    History (es ++ [e]) t handled := by
  have hended : (es ++ [e]).filterMap Event.result = es.filterMap Event.result := by simp [hr]
  refine ⟨?_, ?_, ?_⟩
  · rw [hended, h.ended, ht.executor]
    rfl
  · rw [h.count]
    simp [hh]
  · obtain ⟨text, ha⟩ := ht.activity
    rw [hended, ha, h.activity]
    rfl

theorem History.background {r : Σ t, Result t} {e : Executor Task Result} (h : History es s handled)
    (he : s.executor.finish r = some e) :
    History (es ++ [.background r])
      { s with activity := doInBackground s.activity r, executor := e } handled := by
  obtain ⟨q, -, rfl⟩ := Executor.finish_eq_some.mp he
  have hended : (es ++ [Event.background r]).filterMap Event.result = es.filterMap Event.result ++ [r] := by
    simp [Event.result]
  refine ⟨?_, ?_, ?_⟩
  · rw [hended, h.ended, List.append_assoc]
  · rw [h.count]
    simp [Event.handles]
  · rw [hended]
    show doInBackground s.activity r = screenOf (doInBackground s.activity r).autocompTV _ _
    rw [h.activity, screenOf_background]
    rfl

theorem History.post {r : Σ t, Result t} {e : Executor Task Result} (h : History es s handled)
    (he : s.executor.deliver = some (r, e)) :
    History (es ++ [.onPostExecute])
      { s with
        activity := (onPostExecute s.activity r).1
        executor := e.submit (onPostExecute s.activity r).2
        completed := s.completed ++ (stockResult r).toList } (handled ++ [r]) := by
  obtain ⟨hposted, -⟩ := Executor.deliver_eq_some.mp he
  have hended : (es ++ [Event.onPostExecute]).filterMap Event.result = es.filterMap Event.result := by
    simp [Event.result]
  refine ⟨?_, ?_, ?_⟩
  · rw [hended, h.ended, hposted, List.append_assoc]
    rfl
  · rw [List.length_append, h.count]
    simp [Event.handles]
  · rw [hended]
    show (onPostExecute s.activity r).1 = screenOf (onPostExecute s.activity r).1.autocompTV _ _
    rw [h.activity, screenOf_post]
    rfl

theorem History.step {e : Event} (h : History es s handled) (ht : app.step s e = some t) :
    ∃ handled', History (es ++ [e]) t handled' := by
  cases e with
  | onTextChanged text =>
      cases ht
      obtain ⟨ts, hts⟩ := submits_setText s text
      exact ⟨handled, h.submits hts rfl rfl⟩
  | onItemClick position =>
      obtain ⟨ci, -, rfl⟩ := Option.map_eq_some_iff.mp ht
      obtain ⟨ts, hts⟩ := submits_setText s (splitFirst ci)
      obtain ⟨us, hus⟩ := submits_getStockData (s.setText (splitFirst ci))
      exact ⟨handled, h.submits (hts.trans hus) rfl rfl⟩
  | onClick =>
      cases ht
      obtain ⟨ts, hts⟩ := submits_getStockData s
      exact ⟨handled, h.submits hts rfl rfl⟩
  | background r =>
      obtain ⟨e', he, rfl⟩ := Option.map_eq_some_iff.mp ht
      exact ⟨handled, h.background he⟩
  | onPostExecute =>
      obtain ⟨⟨r, e'⟩, he, rfl⟩ := Option.map_eq_some_iff.mp ht
      exact ⟨handled ++ [r], h.post he⟩

theorem history (h : app.run app.init es = some s) : ∃ handled, History es s handled :=
  Machine.run_log (M := app) (P := fun es s => ∃ handled, History es s handled)
    ⟨[], rfl, rfl, rfl⟩ (fun _ ⟨_, hs⟩ ht => hs.step ht) h

end History

/-- **The interleaving does not matter.**  After any run the results that have
been handled come first among those that ended, and the screen, but for the
text in the box, is the one these two lists make. -/
theorem screen_of_run {es : List Event} {s : State} (h : app.run app.init es = some s) :
    ∃ handled, es.filterMap Event.result = handled ++ s.executor.posted ∧
      handled.length = es.countP Event.handles ∧
      s.activity = screenOf s.activity.autocompTV (es.filterMap Event.result) handled := by
  obtain ⟨handled, hs⟩ := history h
  exact ⟨handled, hs.ended, hs.count, hs.activity⟩

theorem screen_of_lateChart :
    ∃ s, app.run app.init lateChart = some s ∧
      ∃ handled, lateChart.filterMap Event.result = handled ++ s.executor.posted ∧
        handled.length = lateChart.countP Event.handles ∧
        s.activity = screenOf s.activity.autocompTV (lateChart.filterMap Event.result) handled := by
  obtain ⟨s, hrun, -⟩ :=
    run_overtaken (quoteOf "AA".toList "aa.png".toList) (quoteOf "GE".toList "ge.png".toList)
  exact ⟨s, hrun, screen_of_run hrun⟩

/-! ## The suggestions -/

/-- The click takes the text before the first comma, and the line's own comma
comes after the symbol. -/
theorem splitFirst_line (s : Suggestion) : splitFirst s.output = splitFirst s.symbol := by
  have hout : s.output = s.symbol ++ ',' :: ' ' :: (s.name ++ '(' :: (s.exch ++ [')'])) := by
    simp [Suggestion.output]
  rw [splitFirst, splitFirst, hout]
  induction s.symbol with
  | nil => rfl
  | cons c symbol ih =>
      rw [List.cons_append, List.takeWhile_cons, List.takeWhile_cons, ih]

/-- **The suggestions on offer** are those of the last handled answer that had
any; a click on one searches its symbol up to the first comma, if there is
anything before it. -/
theorem suggestions_of_run {es : List Event} {s : State} (h : app.run app.init es = some s) :
    ∃ handled, es.filterMap Event.result = handled ++ s.executor.posted ∧
      handled.length = es.countP Event.handles ∧
      ∀ position,
        (app.step s (.onItemClick position) = none ↔ (offered handled).length ≤ position) ∧
        ∀ sug t, (offered handled)[position]? = some sug →
          app.step s (.onItemClick position) = some t →
            t.activity = { s.activity with autocompTV := splitFirst sug.symbol } ∧
            t.submitted = s.submitted ++
              (if splitFirst sug.symbol = [] then [] else [splitFirst sug.symbol]) ∧
            t.executor = s.executor.submit
              (if splitFirst sug.symbol = [] then []
                else [.retrieveStockList (splitFirst sug.symbol),
                  .retrieveStockData (splitFirst sug.symbol)]) := by
  obtain ⟨handled, hs⟩ := history h
  refine ⟨handled, hs.ended, hs.count, fun position => ?_⟩
  have hlist : s.activity.country_list = (offered handled).map Suggestion.output :=
    congrArg Activity.country_list hs.activity
  have hstep : app.step s (.onItemClick position) = ((offered handled)[position]?).map
      fun sug => (s.setText (splitFirst sug.symbol)).getStockData := by
    show s.activity.country_list[position]?.map _ = _
    rw [hlist, List.getElem?_map, Option.map_map]
    refine congrArg (Option.map · _) (funext fun sug => ?_)
    show ((s.setText (splitFirst sug.output)).getStockData) = _
    rw [splitFirst_line]
  rw [hstep]
  refine ⟨by simp, ?_⟩
  rintro sug t hsug ht
  rw [hsug] at ht
  cases ht
  by_cases hempty : splitFirst sug.symbol = []
  · simp [State.getStockData, State.setText, hempty]
  · simp [State.getStockData, State.setText, hempty, Executor.submit]

/-- A text is typed and its suggestion arrives. -/
def offerRun : List Event :=
  [.onTextChanged ['A'], .background ⟨.retrieveStockList ['A'], some [⟨['A', 'B'], ['C'], ['D']⟩]⟩,
    .onPostExecute]

theorem offered_is_searched :
    ∃ s t, app.run app.init offerRun = some s ∧ app.step s (.onItemClick 0) = some t ∧
      t.submitted = s.submitted ++ [['A', 'B']] := by
  obtain ⟨handled, hended, -, hclick⟩ := @suggestions_of_run offerRun _ rfl
  have hhandled := hended.trans (List.append_nil handled)
  subst hhandled
  exact ⟨_, _, rfl, rfl, ((hclick 0).2 _ _ rfl rfl).2.1⟩

end WebTech.MainActivity
