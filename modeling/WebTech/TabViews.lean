/-
# `WebTech.TabViews` — one response in each tab view

A tab view is rendered in a later turn than the one that schedules it.  Its
headlines were fixed when it was scheduled, its quote table is made of the
variables as they are when it is rendered, and `#demoo` is emptied by the
handler, not by the rendering.

    no response is handled while a tab view waits
      ⟹  each view is made of one response, and there is at most one     (`views_of_one_response`)
    two responses before the first rendering
      ⟹  a quote of the second beside headlines of the first             (`view_of_two_responses`)
-/
import WebTech.EventLoop

namespace WebTech.Page

open Ecma Ecma.Script

section Views
variable [Floating]

/-- The two tabs are made of the response `content`. -/
def ViewOf (content : Text) (v : TabView) : Prop :=
  ∃ g, Reads (Rfc8259.parse content) g ∧ quoteTable g = some v.quote ∧
    newsList (Rfc8259.parse content) (g .news) = some v.news

/-- The summary in `data_display` is made of the response `content`. -/
def Displayed (w : Window) (content : Text) : Prop :=
  ∃ g, Reads (Rfc8259.parse content) g ∧ summary g = some w.data_display

/-- Both tabs of the view are made of one response. -/
def OneResponse (w : Window) (v : TabView) : Prop :=
  ∃ i content, Received w i content ∧ ViewOf content v

/-- And it is the response whose stock is shown. -/
def OfDisplayed (w : Window) (v : TabView) : Prop :=
  ∃ i content, Received w i content ∧ ViewOf content v ∧ Displayed w content

/-- The handler would not return at once. -/
def Window.responds (w : Window) : Bool :=
  w.request.any fun (_, r) => r.readyState = 4 && r.status = 200

omit [Floating] in
theorem Responds.responds {w : Window} {i : Nat} {content : Text} (h : Responds w i content) :
    w.responds = true := by
  obtain ⟨r, hq, hr, h₄, h₂₀₀, -⟩ := h
  rw [Window.responds, Window.request, hq]
  simp only [hr, Option.map_some, Option.any_some, h₄, h₂₀₀]
  rfl

/-- No response is handled while a tab view waits to be rendered. -/
def Undisturbed (w : Window) : Event → Prop
  | .readystatechange i readyState status responseText =>
      (w.receive i readyState status responseText).responds = true → w.pending = []
  | .search _ _ | .tabview _ => True

instance decUndisturbed (w : Window) : ∀ (e : Event), Decidable (Undisturbed w e)
  | .readystatechange i readyState status responseText =>
      inferInstanceAs (Decidable
        ((w.receive i readyState status responseText).responds = true → w.pending = []))
  | .search _ _ | .tabview _ => isTrue trivial

/-! ## The invariant -/

/-- The tab view that waits will be made of the response on display. -/
def Waiting (w : Window) : Prop :=
  w.pending = [] ∨
  ∃ newslist, w.pending = [newslist] ∧ w.demoo = [] ∧
    ∃ i content, Received w i content ∧ Reads (Rfc8259.parse content) w.globals ∧
      newsList (Rfc8259.parse content) (w.globals .news) = some newslist ∧
      summary w.globals = some w.data_display

/-- At most one tab view, of the response on display. -/
def Rendered (w : Window) : Prop := w.demoo = [] ∨ ∃ v, w.demoo = [v] ∧ OfDisplayed w v

structure Tabs (w : Window) : Prop where
  objects : Objects w
  waiting : Waiting w
  rendered : Rendered w

/-- What a step leaves alone stays in place. -/
theorem Tabs.frame {w w' : Window} (h : Tabs w) (ho : Objects w') (hp : w'.pending = w.pending)
    (hd : w'.demoo = w.demoo) (hg : w'.globals = w.globals)
    (hs : w'.data_display = w.data_display)
    (hr : ∀ i content, Received w i content → Received w' i content) : Tabs w' := by
  refine ⟨ho, ?_, ?_⟩
  · rcases h.waiting with hnil | ⟨newslist, h₁, h₂, i, content, h₃, h₄⟩
    · exact .inl (hp.trans hnil)
    · refine .inr ⟨newslist, hp.trans h₁, hd.trans h₂, i, content, hr i content h₃, ?_⟩
      rw [hg, hs]
      exact h₄
  · rcases h.rendered with hnil | ⟨v, h₁, i, content, h₂, h₃, g, h₄⟩
    · exact .inl (hd.trans hnil)
    · exact .inr ⟨v, hd.trans h₁, i, content, hr i content h₂, h₃, g, hs ▸ h₄⟩

/-- The handler empties `#demoo` and schedules one view at most, of the
response it shows. -/
theorem Handled.tabs {i : Nat} {content : Text} {w w' : Window} {r : Except TypeError Unit}
    (h : Handled i content w r w') (hidle : w.pending = []) (ho : Objects w')
    (hrec : Received w' i content) : Tabs w' := by
  cases h with
  | empty _ => exact ⟨ho, .inl hidle, .inl rfl⟩
  | unread _ _ _ _ => exact ⟨ho, .inl hidle, .inl rfl⟩
  | untested _ _ _ => exact ⟨ho, .inl hidle, .inl rfl⟩
  | zero _ _ _ => exact ⟨ho, .inl hidle, .inl rfl⟩
  | unnamed _ _ _ _ => exact ⟨ho, .inl hidle, .inl rfl⟩
  | unfinished _ _ _ _ _ _ => exact ⟨ho, .inl hidle, .inl rfl⟩
  | complete g buff newslist img1 hg _ hs hn _ =>
      refine ⟨ho, .inr ⟨newslist, ?_, rfl, i, content, hrec, hg, hn, hs⟩, .inl rfl⟩
      show w.pending ++ [newslist] = [newslist]
      rw [hidle]
      rfl

theorem Tabs.step {w w' : Window} {e : Event} (h : Tabs w) (hu : Undisturbed w e)
    (hs : Page.step w e = some w') : Tabs w' := by
  have ho := h.objects.step hs
  have hkeep : ∀ i content, Received w i content → Received w' i content :=
    fun i content hr => hr.step hs
  rcases step_cases hs with ⟨url, s, rfl⟩ | ⟨i, r, st, status, text, rfl, hr, hc, hend⟩ |
    ⟨k, newslist, hk, hend⟩
  · obtain ⟨xs, req, heq, -⟩ := getXMLHttpRequest_eq w url s
    rw [heq] at ho hkeep ⊢
    exact h.frame ho rfl rfl rfl rfl hkeep
  · rcases hend with ⟨-, rfl⟩ | ⟨j, content, x, hj, hh⟩
    · exact h.frame ho rfl rfl rfl rfl hkeep
    · obtain ⟨hx, hq⟩ := hh.frame
      have hj' : Responds w' j content := by
        obtain ⟨r', h₁, h₂, h₃⟩ := hj
        exact ⟨r', hq.trans h₁, hx ▸ h₂, h₃⟩
      exact hh.tabs (hu hj.responds) ho (hj'.received ho).1
  · -- the view that waits is the only one, so `#demoo` is empty before it is rendered
    rcases h.waiting with hnil | ⟨newslist', hp, hd, i, content, hrec, hg, hn, hsum⟩
    · rw [hnil] at hk
      exact nomatch hk
    · rw [hp] at hk
      obtain ⟨rfl, rfl⟩ : k = 0 ∧ newslist' = newslist := by
        cases k with
        | zero => exact ⟨rfl, Option.some.inj hk⟩
        | succ k => exact nomatch hk
      have herase : w.pending.eraseIdx 0 = [] := by
        rw [hp]
        rfl
      rcases hend with ⟨-, rfl⟩ | ⟨table, htable, rfl⟩
      · exact ⟨ho, .inl herase, .inl hd⟩
      · refine ⟨ho, .inl herase, .inr ⟨⟨table, newslist'⟩, ?_, i, content, hkeep i content hrec,
          ⟨w.globals, hg, htable, hn⟩, w.globals, hg, hsum⟩⟩
        show w.demoo ++ [_] = [_]
        rw [hd]
        rfl

theorem tabs {w : Window} (h : (page.guarded Undisturbed).Reachable w) : Tabs w :=
  Machine.guarded_invariant (M := page) ⟨⟨nofun, nofun⟩, .inl rfl, .inl rfl⟩
    (fun hs hu ht => hs.step hu ht) h

/-- **One response in each tab view**, in every run that handles no response
while a tab view waits: the view is made of one response, there is at most one
view, and it belongs to the stock that is shown. -/
theorem views_of_one_response (w : Window) (h : (page.guarded Undisturbed).Reachable w) :
    (∀ v ∈ w.demoo, OneResponse w v) ∧
    (w.pending = [] → w.demoo.length ≤ 1 ∧ ∀ v ∈ w.demoo, OfDisplayed w v) := by
  rcases (tabs h).rendered with hnil | ⟨v, hv, i, content, hrec, hview, hdisp⟩
  · rw [hnil]
    exact ⟨nofun, fun _ => ⟨Nat.zero_le _, nofun⟩⟩
  · rw [hv]
    refine ⟨fun u hu => ?_, fun _ => ⟨Nat.le_refl _, fun u hu => ?_⟩⟩
    · rw [List.mem_singleton.mp hu]
      exact ⟨i, content, hrec, hview⟩
    · rw [List.mem_singleton.mp hu]
      exact ⟨i, content, hrec, hview, hdisp⟩

/-! ## Two responses before the first rendering -/

theorem ViewOf.eq {content : Text} {v : TabView} (h : ViewOf content v)
    (hs : showable content = true) :
    tableOf content = some v.quote ∧ headlinesOf content = some v.news := by
  simp only [showable, Bool.and_eq_true] at hs
  obtain ⟨g, hg, hq, hn⟩ := h
  cases hg.unique (reads_globalsOf hs.1.1.1.1)
  exact ⟨hq, hn⟩

end Views

attribute [local instance] Floating.unbounded

theorem tableOf_ne : tableOf apple ≠ tableOf cisco := by
  rw [tableOf, tableOf, parse_apple, parse_cisco]
  decide +kernel

theorem headlinesOf_ne : headlinesOf cisco ≠ headlinesOf apple := by
  rw [headlinesOf, headlinesOf, parse_apple, parse_cisco]
  decide +kernel

theorem exists_headlinesOf {content : Text} (h : showable content = true) :
    ∃ newslist, headlinesOf content = some newslist := by
  simp only [showable, Bool.and_eq_true] at h
  exact Option.isSome_iff_exists.mp h.1.2

/-- Two searches, answered one after the other, then both tab views. -/
def twoSearches : List Event :=
  searchRun apple ++
    [.search ['B'] .sent, .readystatechange 1 4 200 cisco, .tabview 0, .tabview 0]

/-- The window in which the second response arrives. -/
def Window.answeredAgain : Window :=
  (((Window.answered apple).showing 0 apple).getXMLHttpRequest ['B'] .sent).receive 1 4 200 cisco

theorem run_twoSearches {table a b : Text} (ht : tableOf cisco = some table)
    (ha : headlinesOf apple = some a) (hb : headlinesOf cisco = some b) :
    ∃ w, page.run page.init twoSearches = some w ∧ w.pending = [] ∧
      w.demoo = [⟨table, a⟩, ⟨table, b⟩] ∧
      w.xhrs = [⟨['A'], true, 4, 200, apple⟩, ⟨['B'], true, 4, 200, cisco⟩] := by
  have hr : Responds Window.answeredAgain 1 cisco := ⟨_, rfl, rfl, rfl, rfl, rfl⟩
  have hanswer : page.step (((Window.answered apple).showing 0 apple).getXMLHttpRequest ['B'] .sent)
      (.readystatechange 1 4 200 cisco) = some (Window.answeredAgain.showing 1 cisco) := by
    rw [← after_showable hr showable_cisco]
    rfl
  have hpending : (Window.answeredAgain.showing 1 cisco).pending = [a, b] := by
    have h₁ : Window.answeredAgain.pending = [(headlinesOf apple).getD []] := rfl
    rw [showing_pending, h₁, ha]
    show [a, (headlinesOf cisco).getD []] = [a, b]
    rw [hb]
    rfl
  have hfirst := step_tabview (Window.answeredAgain.showing 1 cisco) 0
    (show _ = some a by rw [hpending]; rfl) ht
  have hsecond := step_tabview
    (Window.render { Window.answeredAgain.showing 1 cisco with
      pending := (Window.answeredAgain.showing 1 cisco).pending.eraseIdx 0 } ⟨table, a⟩) 0
    (show ((Window.answeredAgain.showing 1 cisco).pending.eraseIdx 0)[0]? = some b by
      rw [hpending]; rfl) ht
  refine ⟨_, Machine.run_append.mpr ⟨_, run_searchRun showable_apple, Machine.run_cons.mpr
    ⟨_, rfl, Machine.run_cons.mpr ⟨_, hanswer, Machine.run_cons.mpr ⟨_, hfirst,
      Machine.run_cons.mpr ⟨_, hsecond, rfl⟩⟩⟩⟩⟩, ?_, ?_, rfl⟩
  · show ((Window.answeredAgain.showing 1 cisco).pending.eraseIdx 0).eraseIdx 0 = []
    rw [hpending]
    rfl
  · show ((Window.answeredAgain.showing 1 cisco).demoo ++ [_]) ++ [_] = _
    rw [showing_demoo]
    rfl

/-- The first view shows the second quote beside the first headlines, and
there are two views when nothing is left to run. -/
theorem view_of_two_responses :
    ∃ w, page.run page.init twoSearches = some w ∧ w.pending = [] ∧ w.demoo.length = 2 ∧
      ∃ v ∈ w.demoo, ¬ OneResponse w v := by
  obtain ⟨table, ht⟩ := exists_tableOf_cisco
  obtain ⟨a, ha⟩ := exists_headlinesOf showable_apple
  obtain ⟨b, hb⟩ := exists_headlinesOf showable_cisco
  obtain ⟨w, hrun, hpending, hdemoo, hxhrs⟩ := run_twoSearches ht ha hb
  refine ⟨w, hrun, hpending, by rw [hdemoo]; rfl, ⟨table, a⟩, by rw [hdemoo]; simp, ?_⟩
  rintro ⟨i, content, ⟨r, hr, -, -, -, rfl⟩, hview⟩
  have hmem := List.mem_of_getElem? hr
  rw [hxhrs] at hmem
  rcases List.mem_cons.mp hmem with rfl | hmem
  · exact tableOf_ne ((hview.eq showable_apple).1.trans ht.symm)
  · rw [List.mem_singleton.mp hmem] at hview
    exact headlinesOf_ne ((hview.eq showable_cisco).2.trans ha.symm)

/-- The first search is answered late, when the second one's view is rendered. -/
theorem views_of_one_response_lateRun :
    ∃ w, (page.guarded Undisturbed).Reachable w ∧ (∀ v ∈ w.demoo, OneResponse w v) ∧
      w.demoo.length = 1 := by
  obtain ⟨table, ht⟩ := exists_tableOf_cisco
  have hrun := guarded_lateRun (G := Undisturbed) (u := ['A']) (v := ['B']) (a := apple)
    showable_cisco ht (fun _ _ => trivial) (fun _ h _ => h) (fun _ h _ => h) fun _ _ => trivial
  refine ⟨_, ⟨_, hrun⟩, (views_of_one_response _ ⟨_, hrun⟩).1, ?_⟩
  rw [(late_screen ['A'] ['B'] apple cisco table).2.2.1]
  rfl

end WebTech.Page
