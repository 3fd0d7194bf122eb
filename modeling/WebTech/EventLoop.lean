/-
# `WebTech.EventLoop` — search_stock.html in its event loop

The loop takes one event at a time: a search makes a new request object, an
object's state changes and its handler runs, or a scheduled tab view is
rendered.  Objects change in any order, and tab views are rendered in any
order.

    event                           script
    search url s                    getXMLHttpRequest(url)
    readystatechange i st s text    the i-th object is in state `st` now; changeRequest()
    tabview k                       the k-th scheduled tab view is rendered

A completed object never changes again, so a response that was received stays
received (`Received.step`); what a step does to the elements is one of the
cases of `step_cases`.
-/
import WebTech.Handler
import WebTech.Lib.Machine

namespace WebTech.Page

open Rfc8259 (Json print Numerals NumeralsElems NumeralsMembers numeralsElems_iff numeralsMembers_iff
  parse_print)
open Ecma Ecma.Script

section Loop
variable [Floating]

/-- How far `getXMLHttpRequest` comes. -/
inductive Start where
  /-- No constructor makes an object. -/
  | noObject
  /-- `open` throws. -/
  | unopened
  /-- `setRequestHeader` throws. -/
  | unsent
  | sent
  deriving DecidableEq, Repr

inductive Event where
  | search (url : Text) (s : Start)
  | readystatechange (i readyState status : Nat) (responseText : Text)
  | tabview (k : Nat)

/-- `getXMLHttpRequest`.  `open` puts the object in state 1 and runs the
handler, which does nothing then. -/
def Window.getXMLHttpRequest (w : Window) (url : Text) : Start → Window
  | .noObject => { w with req := .false }
  | .unopened =>
      { w with xhrs := w.xhrs ++ [⟨url, false, 0, 0, []⟩], req := .object w.xhrs.length }
  | .unsent =>
      { w with xhrs := w.xhrs ++ [⟨url, false, 1, 0, []⟩], req := .object w.xhrs.length }
  | .sent =>
      { w with xhrs := w.xhrs ++ [⟨url, true, 1, 0, []⟩], req := .object w.xhrs.length }

/-- The `i`-th object changes. -/
def Window.receive (w : Window) (i readyState status : Nat) (responseText : Text) : Window :=
  { w with
    xhrs := w.xhrs.modify i fun r =>
      { r with readyState := readyState, status := status, responseText := responseText } }

/-- An object changes after it is sent, forwards, until it is done. -/
def Xhr.canChange (r : Xhr) (readyState : Nat) : Bool :=
  r.sent && r.readyState < 4 && r.readyState ≤ readyState && readyState ≤ 4

/-- A script runs; how it ends is of no concern to the loop. -/
def Window.after (w : Window) (x : Script Window Unit) : Window := (exec x w).2

def step (w : Window) : Event → Option Window
  | .search url s => some (w.getXMLHttpRequest url s)
  | .readystatechange i readyState status responseText =>
      w.xhrs[i]?.bind fun r =>
        if r.canChange readyState then
          some ((w.receive i readyState status responseText).after changeRequest)
        else none
  | .tabview k =>
      w.pending[k]?.map fun newslist =>
        { w with pending := w.pending.eraseIdx k }.after (renderTabView newslist)

/-- The page in its event loop. -/
def page : Machine Window Event where
  init := .loaded
  step := step

/-! ## What a step does -/

/-- The `i`-th request was answered with `content`. -/
def Received (w : Window) (i : Nat) (content : Text) : Prop :=
  ∃ r, w.xhrs[i]? = some r ∧ r.sent = true ∧ r.readyState = 4 ∧ r.status = 200 ∧
    r.responseText = content

/-- The handler does something: `req` is done, with status 200. -/
def Responds (w : Window) (i : Nat) (content : Text) : Prop :=
  ∃ r, w.req = .object i ∧ w.xhrs[i]? = some r ∧ r.readyState = 4 ∧ r.status = 200 ∧
    r.responseText = content

/-- **changeRequest** does nothing unless `req` is done with status 200, and
then it ends as `Handled` says. -/
theorem changeRequest_cases (w : Window) :
    ((∀ i content, ¬ Responds w i content) ∧ w.after changeRequest = w) ∨
    ∃ i content, Responds w i content ∧
      Handled i content w (exec changeRequest w).1 (w.after changeRequest) := by
  rw [Window.after, changeRequest, exec_get_bind]
  cases hq : w.req with
  | undefined => exact .inl ⟨fun _ _ ⟨_, h, _⟩ => (nomatch hq.symm.trans h), rfl⟩
  | false =>
      rw [if_neg nofun, Window.request, hq]
      exact .inl ⟨fun _ _ ⟨_, h, _⟩ => (nomatch hq.symm.trans h), rfl⟩
  | object i =>
      rw [if_neg nofun, Window.request, hq]
      cases hr : w.xhrs[i]? with
      | none =>
          simp only [hr]
          refine .inl ⟨fun j _ ⟨r, h, hr', _⟩ => ?_, rfl⟩
          cases hq.symm.trans h
          exact nomatch hr.symm.trans hr'
      | some r =>
          simp only [hr]
          by_cases hd : r.readyState = 4 ∧ r.status = 200
          · simp only [Option.map_some, if_pos hd]
            exact .inr ⟨i, r.responseText, ⟨r, hq, hr, hd.1, hd.2, rfl⟩, respond_handled _ _ _⟩
          · simp only [Option.map_some, if_neg hd]
            refine .inl ⟨fun j _ ⟨r', h, hr', h₄, h₂₀₀, _⟩ => ?_, rfl⟩
            cases hq.symm.trans h
            cases hr.symm.trans hr'
            exact hd ⟨h₄, h₂₀₀⟩

theorem renderTabView_cases (w : Window) (newslist : Text) :
    (quoteTable w.globals = none ∧ w.after (renderTabView newslist) = w) ∨
    ∃ content, quoteTable w.globals = some content ∧
      w.after (renderTabView newslist) = w.render ⟨content, newslist⟩ := by
  rw [Window.after, renderTabView, exec_get_bind]
  cases hq : quoteTable w.globals with
  | none => exact .inl ⟨rfl, rfl⟩
  | some content => exact .inr ⟨content, rfl, rfl⟩

/-- **What a step can do**: make a request, receive without responding, respond
to `req`, or render a tab view. -/
theorem step_cases {w w' : Window} {e : Event} (h : step w e = some w') :
    (∃ url s, w' = w.getXMLHttpRequest url s) ∨
    (∃ i r st status text, e = .readystatechange i st status text ∧ w.xhrs[i]? = some r ∧
      r.canChange st = true ∧
      ((∀ j content, ¬ Responds (w.receive i st status text) j content) ∧
          w' = w.receive i st status text ∨
        ∃ j content x, Responds (w.receive i st status text) j content ∧
          Handled j content (w.receive i st status text) x w')) ∨
    (∃ k newslist, w.pending[k]? = some newslist ∧
      (quoteTable w.globals = none ∧ w' = { w with pending := w.pending.eraseIdx k } ∨
        ∃ content, quoteTable w.globals = some content ∧
          w' = ({ w with pending := w.pending.eraseIdx k } : Window).render ⟨content, newslist⟩)) := by
  cases e with
  | search url s => exact .inl ⟨url, s, (Option.some.inj h).symm⟩
  | readystatechange i st status text =>
      obtain ⟨r, hr, h⟩ := Option.bind_eq_some_iff.mp h
      by_cases hc : r.canChange st = true
      · rw [if_pos hc] at h
        cases h
        refine .inr (.inl ⟨i, r, st, status, text, rfl, hr, hc, ?_⟩)
        rcases changeRequest_cases (w.receive i st status text) with hidle | ⟨j, content, hj, hh⟩
        · exact .inl hidle
        · exact .inr ⟨j, content, _, hj, hh⟩
      · rw [if_neg hc] at h
        exact nomatch h
  | tabview k =>
      obtain ⟨newslist, hn, rfl⟩ := Option.map_eq_some_iff.mp h
      refine .inr (.inr ⟨k, newslist, hn, ?_⟩)
      rcases renderTabView_cases { w with pending := w.pending.eraseIdx k } newslist with
        hnone | ⟨content, hq, heq⟩
      · exact .inl hnone
      · exact .inr ⟨content, hq, heq⟩

omit [Floating] in
/-- A search adds at most one object, which has no response yet. -/
theorem getXMLHttpRequest_eq (w : Window) (url : Text) (s : Start) :
    ∃ xs req, w.getXMLHttpRequest url s = { w with xhrs := w.xhrs ++ xs, req := req } ∧
      ∀ x ∈ xs, x.responseText = [] ∧ x.readyState ≠ 4 := by
  have hnew : ∀ sent st, st ≠ 4 →
      ∀ x ∈ [Xhr.mk url sent st 0 []], x.responseText = [] ∧ x.readyState ≠ 4 := by
    intro sent st hst x hx
    rw [List.mem_singleton.mp hx]
    exact ⟨rfl, hst⟩
  cases s with
  | noObject => exact ⟨[], .false, by rw [List.append_nil]; rfl, nofun⟩
  | unopened => exact ⟨_, _, rfl, hnew false 0 (by decide)⟩
  | unsent => exact ⟨_, _, rfl, hnew false 1 (by decide)⟩
  | sent => exact ⟨_, _, rfl, hnew true 1 (by decide)⟩

omit [Floating] in
/-- An object when the `i`-th has changed: as it was, or the one that changed. -/
theorem receive_cases {w : Window} {i j st status : Nat} {text : Text} {x : Xhr}
    (h : (w.receive i st status text).xhrs[j]? = some x) :
    w.xhrs[j]? = some x ∨ ∃ r, j = i ∧ w.xhrs[i]? = some r ∧
      x = { r with readyState := st, status := status, responseText := text } := by
  replace h : (w.xhrs.modify i _)[j]? = some x := h
  by_cases hij : i = j
  · subst hij
    rw [List.getElem?_modify_eq] at h
    obtain ⟨r, hr, rfl⟩ := Option.map_eq_some_iff.mp h
    exact .inr ⟨r, rfl, hr, rfl⟩
  · rw [List.getElem?_modify_ne _ _ hij] at h
    exact .inl h

/-! ## What a step leaves alone -/

section Frame
variable {w w' : Window}

theorem Handled.frame {i : Nat} {content : Text} {r : Except TypeError Unit}
    (h : Handled i content w r w') : w'.xhrs = w.xhrs ∧ w'.req = w.req := by
  cases h <;> exact ⟨rfl, rfl⟩

/-- Objects are only added, and an object that is done does not change. -/
theorem getElem?_step {e : Event} (h : step w e = some w') {i : Nat} {r : Xhr}
    (hr : w.xhrs[i]? = some r) (hdone : r.readyState = 4) : w'.xhrs[i]? = some r := by
  have happ : ∀ x, (w.xhrs ++ [x])[i]? = some r := fun x => by
    rw [List.getElem?_append_left (List.getElem?_eq_some_iff.mp hr).1, hr]
  have hrec : ∀ {j r' st status text}, w.xhrs[j]? = some r' → r'.canChange st = true →
      (w.receive j st status text).xhrs[i]? = some r := by
    intro j r' st status text hr' hc
    have hne : j ≠ i := by
      rintro rfl
      cases hr'.symm.trans hr
      rw [Xhr.canChange, hdone] at hc
      simp at hc
    show (w.xhrs.modify j _)[i]? = _
    rw [List.getElem?_modify_ne _ _ hne, hr]
  rcases step_cases h with ⟨url, s, rfl⟩ | ⟨j, r', st, status, text, -, hr', hc, hend⟩ |
    ⟨k, newslist, -, ⟨-, rfl⟩ | ⟨content, -, rfl⟩⟩
  · cases s with
    | noObject => exact hr
    | unopened | unsent | sent => exact happ _
  · rcases hend with ⟨-, rfl⟩ | ⟨_, _, _, -, hh⟩
    · exact hrec hr' hc
    · rw [hh.frame.1]
      exact hrec hr' hc
  · exact hr
  · exact hr

theorem Received.step {e : Event} {i : Nat} {content : Text} (h : Received w i content)
    (hs : Page.step w e = some w') : Received w' i content := by
  obtain ⟨r, hr, hsent, h₄, hrest⟩ := h
  exact ⟨r, getElem?_step hs hr h₄, hsent, h₄, hrest⟩

end Frame

/-! ## The objects -/

/-- Only a sent object can be done, and `req` is the newest object. -/
structure Objects (w : Window) : Prop where
  done : ∀ r ∈ w.xhrs, r.readyState = 4 → r.sent = true
  newest : ∀ i, w.req = .object i → i + 1 = w.xhrs.length

omit [Floating] in
theorem Objects.getXMLHttpRequest {w : Window} (h : Objects w) (url : Text) (s : Start) :
    Objects (w.getXMLHttpRequest url s) := by
  have hadd : ∀ x : Xhr, x.readyState ≠ 4 →
      Objects { w with xhrs := w.xhrs ++ [x], req := .object w.xhrs.length } := by
    intro x hx
    refine ⟨fun r hr h₄ => ?_, fun i hi => ?_⟩
    · rcases List.mem_append.mp hr with hr | hr
      · exact h.done r hr h₄
      · rw [List.mem_singleton.mp hr] at h₄
        exact absurd h₄ hx
    · cases hi
      show w.xhrs.length + 1 = (w.xhrs ++ [x]).length
      rw [List.length_append]
      rfl
  cases s with
  | noObject => exact ⟨h.done, nofun⟩
  | unopened => exact hadd _ (by simp)
  | unsent => exact hadd _ (by simp)
  | sent => exact hadd _ (by simp)

omit [Floating] in
theorem Objects.receive {w : Window} (h : Objects w) {i st : Nat} {r : Xhr} (status : Nat)
    (text : Text) (hr : w.xhrs[i]? = some r) (hc : r.canChange st = true) :
    Objects (w.receive i st status text) := by
  refine ⟨fun x hx h₄ => ?_, fun j hj => ?_⟩
  · obtain ⟨j, hj⟩ := List.mem_iff_getElem?.mp hx
    by_cases hji : i = j
    · subst hji
      have hx' : x = { r with readyState := st, status := status, responseText := text } := by
        have := (List.getElem?_modify_eq _ i w.xhrs).symm.trans hj
        rw [hr] at this
        exact (Option.some.inj this).symm
      rw [hx']
      simp only [Xhr.canChange, Bool.and_eq_true] at hc
      exact hc.1.1.1
    · have : w.xhrs[j]? = some x := (List.getElem?_modify_ne _ _ hji).symm.trans hj
      exact h.done x (List.mem_of_getElem? this) h₄
  · show j + 1 = (w.xhrs.modify i _).length
    rw [List.length_modify]
    exact h.newest j hj

theorem Objects.step {w w' : Window} {e : Event} (h : Objects w) (hs : Page.step w e = some w') :
    Objects w' := by
  rcases step_cases hs with ⟨url, s, rfl⟩ | ⟨i, r, st, status, text, -, hr, hc, hend⟩ |
    ⟨k, newslist, -, ⟨-, rfl⟩ | ⟨content, -, rfl⟩⟩
  · exact h.getXMLHttpRequest url s
  · have hrec := h.receive status text hr hc
    rcases hend with ⟨-, rfl⟩ | ⟨_, _, _, -, hh⟩
    · exact hrec
    · obtain ⟨hx, hq⟩ := hh.frame
      exact ⟨hx ▸ hrec.done, fun j hj => hx ▸ hrec.newest j (hq.symm.trans hj)⟩
  · exact ⟨h.done, h.newest⟩
  · exact ⟨h.done, h.newest⟩

theorem objects {w : Window} (h : page.Reachable w) : Objects w :=
  Machine.invariant (M := page) ⟨nofun, nofun⟩ (fun hs ht => hs.step ht) h

omit [Floating] in
/-- What is responded to was sent, and is the newest request's answer. -/
theorem Responds.received {w : Window} (h : Objects w) {i : Nat} {content : Text}
    (hr : Responds w i content) : Received w i content ∧ i + 1 = w.xhrs.length := by
  obtain ⟨r, hq, hi, h₄, h₂₀₀, htext⟩ := hr
  exact ⟨⟨r, hi, h.done r (List.mem_of_getElem? hi) h₄, h₄, h₂₀₀, htext⟩, h.newest i hq⟩

/-! ## One search, answered -/

omit [Floating] in
theorem Responds.unique {w : Window} {i j : Nat} {c c' : Text} (h : Responds w i c)
    (h' : Responds w j c') : i = j ∧ c = c' := by
  obtain ⟨r, hq, hr, -, -, rfl⟩ := h
  obtain ⟨r', hq', hr', -, -, rfl⟩ := h'
  cases hq.symm.trans hq'
  cases hr.symm.trans hr'
  exact ⟨rfl, rfl⟩

/-- The response can be shown to the end: every text of it can be built, and it
is not all zeros. -/
def showable (content : Text) : Bool :=
  let v : Value := Rfc8259.parse content
  readable v && allZero (globalsOf v) zeroTested = some false && (summary (globalsOf v)).isSome
    && (newsList v (globalsOf v .news)).isSome && (chartImg (globalsOf v)).isSome

/-- The quote table and the headlines of a response. -/
def tableOf (content : Text) : Option Text := quoteTable (globalsOf (Rfc8259.parse content))
def headlinesOf (content : Text) : Option Text :=
  newsList (Rfc8259.parse content) (globalsOf (Rfc8259.parse content) .news)

/-- The window once such a response is shown. -/
def Window.showing (w : Window) (i : Nat) (content : Text) : Window :=
  let v : Value := Rfc8259.parse content
  ((((w.cleared.read (globalsOf v)).post.display i ((summary (globalsOf v)).getD [])).rule.chart
    ((chartImg (globalsOf v)).getD [])).schedule ((newsList v (globalsOf v .news)).getD []))

section Showing
variable (w : Window) (i : Nat) (content : Text)

@[simp] theorem showing_xhrs : (w.showing i content).xhrs = w.xhrs := rfl

@[simp] theorem showing_globals :
    (w.showing i content).globals = globalsOf (Rfc8259.parse content) := rfl

@[simp] theorem showing_data_display :
    (w.showing i content).data_display = (summary (globalsOf (Rfc8259.parse content))).getD [] := rfl

@[simp] theorem showing_errormessage : (w.showing i content).errormessage = [] := rfl

@[simp] theorem showing_demoo : (w.showing i content).demoo = [] := rfl

@[simp] theorem showing_pending :
    (w.showing i content).pending = w.pending ++
      [(newsList (Rfc8259.parse content) (globalsOf (Rfc8259.parse content) .news)).getD []] := rfl

@[simp] theorem showing_fbpost : (w.showing i content).fbpost = fb_button := by
  simp only [Window.showing, Window.schedule, Window.chart, Window.rule, Window.display,
    Window.post]

end Showing

theorem after_showable {w : Window} {i : Nat} {content : Text} (h : Responds w i content)
    (hs : showable content = true) : w.after changeRequest = w.showing i content := by
  simp only [showable, Bool.and_eq_true, decide_eq_true_eq] at hs
  obtain ⟨⟨⟨⟨hread, hz⟩, hsum⟩, hnews⟩, himg⟩ := hs
  obtain ⟨buff, hbuff⟩ := Option.isSome_iff_exists.mp hsum
  obtain ⟨newslist, hlist⟩ := Option.isSome_iff_exists.mp hnews
  obtain ⟨img1, himg1⟩ := Option.isSome_iff_exists.mp himg
  rcases changeRequest_cases w with ⟨hidle, -⟩ | ⟨j, c, hj, hh⟩
  · exact absurd h (hidle i content)
  · obtain ⟨rfl, rfl⟩ := h.unique hj
    rw [(hh.eq_complete (reads_globalsOf hread) hz hbuff hlist himg1).2, Window.showing]
    simp only [hbuff, hlist, himg1, Option.getD_some]

theorem step_readystatechange {w : Window} {i st status : Nat} {r : Xhr} {text : Text}
    (hr : w.xhrs[i]? = some r) (hc : r.canChange st = true) :
    page.step w (.readystatechange i st status text) =
      some ((w.receive i st status text).after changeRequest) := by
  show w.xhrs[i]?.bind _ = _
  rw [hr, Option.bind_some, if_pos hc]

/-- The `i`-th object is done, and the handler shows the response of `req`. -/
theorem step_showable {w : Window} {i j : Nat} {r : Xhr} {text content : Text}
    (hr : w.xhrs[i]? = some r) (hc : r.canChange 4 = true)
    (hresponds : Responds (w.receive i 4 200 text) j content) (hs : showable content = true) :
    page.step w (.readystatechange i 4 200 text) =
      some ((w.receive i 4 200 text).showing j content) := by
  rw [step_readystatechange hr hc, after_showable hresponds hs]

/-- One search, answered with `content`. -/
def searchRun (content : Text) : List Event :=
  [.search ['A'] .sent, .readystatechange 0 4 200 content]

/-- The window that has received `content` and runs the handler. -/
def Window.answered (content : Text) : Window :=
  (Window.loaded.getXMLHttpRequest ['A'] .sent).receive 0 4 200 content

theorem step_answer {content : Text} (h : showable content = true) :
    page.step (Window.loaded.getXMLHttpRequest ['A'] .sent) (.readystatechange 0 4 200 content) =
      some ((Window.answered content).showing 0 content) :=
  step_showable rfl rfl ⟨_, rfl, rfl, rfl, rfl, rfl⟩ h

theorem step_tabview (w : Window) (k : Nat) {newslist table : Text}
    (hk : w.pending[k]? = some newslist) (hq : quoteTable w.globals = some table) :
    page.step w (.tabview k) =
      some (({ w with pending := w.pending.eraseIdx k } : Window).render ⟨table, newslist⟩) := by
  show w.pending[k]?.map _ = _
  rw [hk]
  rcases renderTabView_cases { w with pending := w.pending.eraseIdx k } newslist with
    ⟨hnone, -⟩ | ⟨content, hsome, heq⟩
  · exact nomatch hq.symm.trans hnone
  · cases hq.symm.trans hsome
    exact congrArg some heq

theorem run_searchRun {content : Text} (h : showable content = true) :
    page.run page.init (searchRun content) = some ((Window.answered content).showing 0 content) :=
  Machine.run_cons.mpr ⟨_, rfl, Machine.run_cons.mpr ⟨_, step_answer h, rfl⟩⟩

/-! ## Two searches and a late answer -/

/-- Two searches.  The second is answered first, and its tab view is rendered
before the answer to the first one comes, which makes the handler show the
second response once more. -/
def lateRun (u v a b : Text) : List Event :=
  [.search u .sent, .search v .sent, .readystatechange 1 4 200 b, .tabview 0,
    .readystatechange 0 4 200 a, .tabview 0]

/-- Both requests are under way. -/
def Window.searching (u v : Text) : Window :=
  (Window.loaded.getXMLHttpRequest u .sent).getXMLHttpRequest v .sent

/-- The tab view that waits is rendered. -/
def Window.viewing (w : Window) (table newslist : Text) : Window :=
  { w with pending := w.pending.eraseIdx 0 }.render ⟨table, newslist⟩

omit [Floating] in
theorem viewing_fbpost (w : Window) (table newslist : Text) :
    (w.viewing table newslist).fbpost = w.fbpost := rfl

/-- The second response on the screen. -/
def Window.answeredFirst (u v b : Text) : Window :=
  ((Window.searching u v).receive 1 4 200 b).showing 1 b

/-- And its tab view. -/
def Window.current (u v b table : Text) : Window :=
  (Window.answeredFirst u v b).viewing table ((headlinesOf b).getD [])

/-- The late answer shows it once more. -/
def Window.answeredLate (u v a b table : Text) : Window :=
  ((Window.current u v b table).receive 0 4 200 a).showing 1 b

/-- And renders its tab view again. -/
def Window.late (u v a b table : Text) : Window :=
  (Window.answeredLate u v a b table).viewing table ((headlinesOf b).getD [])

section Late
variable {u v a b table : Text}

theorem current_requests (u v b table : Text) : (Window.current u v b table).req = .object 1 ∧
    (Window.current u v b table).xhrs = [⟨u, true, 1, 0, []⟩, ⟨v, true, 4, 200, b⟩] :=
  ⟨rfl, rfl⟩

theorem current_pending (u v b table : Text) : (Window.current u v b table).pending = [] := rfl

theorem late_screen (u v a b table : Text) :
    (Window.late u v a b table).shown.map Prod.fst = [1, 1] ∧
    (Window.late u v a b table).pending = [] ∧
    (Window.late u v a b table).demoo = [⟨table, (headlinesOf b).getD []⟩] ∧
    (Window.late u v a b table).data_display = (summary (globalsOf (Rfc8259.parse b))).getD [] :=
  ⟨rfl, rfl, rfl, rfl⟩

theorem late_fbpost (u v a b table : Text) : (Window.late u v a b table).fbpost = fb_button := by
  rw [Window.late, viewing_fbpost, Window.answeredLate, showing_fbpost]

theorem step_answeredFirst (hs : showable b = true) :
    page.step (.searching u v) (.readystatechange 1 4 200 b) = some (.answeredFirst u v b) := by
  have hresponds : Responds ((Window.searching u v).receive 1 4 200 b) 1 b :=
    ⟨_, rfl, rfl, rfl, rfl, rfl⟩
  exact step_showable (w := .searching u v) (i := 1) rfl rfl hresponds hs

theorem step_current (ht : tableOf b = some table) :
    page.step (.answeredFirst u v b) (.tabview 0) = some (.current u v b table) :=
  step_tabview (Window.answeredFirst u v b) 0 rfl ht

/-- The response that is shown is still the second one. -/
theorem step_answeredLate (hs : showable b = true) :
    page.step (.current u v b table) (.readystatechange 0 4 200 a) =
      some (.answeredLate u v a b table) := by
  obtain ⟨hreq, hxhrs⟩ := current_requests u v b table
  have hresponds : Responds ((Window.current u v b table).receive 0 4 200 a) 1 b := by
    refine ⟨⟨v, true, 4, 200, b⟩, hreq, ?_, rfl, rfl, rfl⟩
    show ((Window.current u v b table).xhrs.modify 0 fun r => { r with
      readyState := 4, status := 200, responseText := a })[1]? = _
    rw [hxhrs]
    rfl
  have hfirst : (Window.current u v b table).xhrs[0]? = some ⟨u, true, 1, 0, []⟩ := by
    rw [hxhrs]
    rfl
  exact step_showable (i := 0) hfirst rfl hresponds hs

theorem step_late (ht : tableOf b = some table) :
    page.step (.answeredLate u v a b table) (.tabview 0) = some (.late u v a b table) := by
  have hpending : (Window.answeredLate u v a b table).pending[0]? =
      some ((headlinesOf b).getD []) := by
    rw [Window.answeredLate, showing_pending]
    show ((Window.current u v b table).pending ++ _)[0]? = _
    rw [current_pending]
    rfl
  exact step_tabview _ 0 hpending ht

/-- The run, for a guard that its events meet. -/
theorem guarded_lateRun {G : Window → Event → Prop} [∀ w e, Decidable (G w e)]
    (hs : showable b = true) (ht : tableOf b = some table)
    (hsearch : ∀ w url, G w (.search url .sent))
    (ha : ∀ w : Window, w.pending = [] → G w (.readystatechange 0 4 200 a))
    (hb : ∀ w : Window, w.pending = [] → G w (.readystatechange 1 4 200 b))
    (hview : ∀ w k, G w (.tabview k)) :
    (page.guarded G).run page.init (lateRun u v a b) = some (.late u v a b table) := by
  have hwaits := ha _ (current_pending u v b table)
  refine Machine.run_cons.mpr ⟨_, Machine.guarded_step.mpr ⟨hsearch _ _, rfl⟩, ?_⟩
  refine Machine.run_cons.mpr ⟨_, Machine.guarded_step.mpr ⟨hsearch _ _, rfl⟩, ?_⟩
  refine Machine.run_cons.mpr ⟨_, Machine.guarded_step.mpr ⟨hb _ rfl, step_answeredFirst hs⟩, ?_⟩
  refine Machine.run_cons.mpr ⟨_, Machine.guarded_step.mpr ⟨hview _ _, step_current ht⟩, ?_⟩
  refine Machine.run_cons.mpr ⟨_, Machine.guarded_step.mpr ⟨hwaits, step_answeredLate hs⟩, ?_⟩
  exact Machine.run_cons.mpr ⟨_, Machine.guarded_step.mpr ⟨hview _ _, step_late ht⟩, rfl⟩

theorem run_lateRun (hs : showable b = true) (ht : tableOf b = some table) :
    page.run page.init (lateRun u v a b) = some (.late u v a b table) :=
  Machine.run_of_guarded (guarded_lateRun (G := fun _ _ => True) hs ht (fun _ _ => trivial)
    (fun _ _ => trivial) (fun _ _ => trivial) fun _ _ => trivial)

end Late

end Loop

/-! ## Two stocks -/

/-- The members of a quote in a response. -/
def quoteMembers : List String :=
  ["ChangeType", "Change", "ChangeInPercent", "LastTradePriceOnly", "PreviousClose", "DaysLow",
    "DaysHigh", "Open", "YearLow", "YearHigh", "Bid", "Volume", "Ask", "AverageDailyVolume",
    "OneYearTargetPrice", "MarketCapitalization"]

/-- A response as a tree, with the quote's texts in the order of `quoteMembers`
and the headlines with their addresses. -/
def stock (name symbol : String) (quote : List String) (items : List (String × String)) : Json :=
  let str (s : String) : Json := .str s.toList
  .obj [("result".toList, .obj [("Name".toList, str name), ("Symbol".toList, str symbol),
    ("Quote".toList, .obj ((quoteMembers.zip quote).map fun (k, t) => (k.toList, str t))),
    ("StockChartImageURL".toList, str ("http://chart.finance.yahoo.com/t?s=" ++ symbol)),
    ("News".toList, .obj [("Item".toList, .arr (items.map fun (title, link) =>
      .obj [("Title".toList, str title), ("Link".toList, str link)]))])])]

theorem parse_stock (name symbol : String) (quote : List String) (items : List (String × String)) :
    Rfc8259.parse (print (stock name symbol quote items)) =
      some (stock name symbol quote items) := by
  have hnum : Numerals (stock name symbol quote items) := by
    have hquote : NumeralsMembers ((quoteMembers.zip quote).map fun (k, t) =>
        (k.toList, Json.str t.toList)) := by
      rw [numeralsMembers_iff]
      intro m hm
      obtain ⟨p, -, rfl⟩ := List.mem_map.mp hm
      trivial
    have hitems : NumeralsElems (items.map fun (title, link) =>
        Json.obj [("Title".toList, .str title.toList), ("Link".toList, .str link.toList)]) := by
      rw [numeralsElems_iff]
      intro v hv
      obtain ⟨p, -, rfl⟩ := List.mem_map.mp hv
      exact ⟨trivial, trivial, trivial⟩
    exact ⟨⟨trivial, trivial, hquote, trivial, ⟨hitems, trivial⟩, trivial⟩, trivial⟩
  have h := parse_print hnum (w := []) nofun
  rwa [List.append_nil] at h

def appleTree : Json :=
  stock "Apple Inc." "AAPL"
    ["+", "1.25", "0.66%", "190.01", "188.76", "187.68", "190.32", "188.10", "124.17", "199.62",
      "189.90", "45,095,500", "190.10", "52,164,500", "205.00", "2955.4B"]
    [("Apple rises", "http://news.yahoo.com/1"), ("New phones", "http://news.yahoo.com/2")]

def ciscoTree : Json :=
  stock "Cisco Systems, Inc." "CSCO"
    ["-", "0.34", "0.70%", "48.20", "48.54", "47.95", "48.71", "48.60", "38.60", "52.56",
      "48.19", "17,210,300", "48.22", "20,548,900", "55.10", "196.0B"]
    [("Cisco falls", "http://news.yahoo.com/3"), ("New routers", "http://news.yahoo.com/4")]

def apple : Text := print appleTree
def cisco : Text := print ciscoTree

theorem parse_apple : Rfc8259.parse apple = some appleTree := parse_stock _ _ _ _
theorem parse_cisco : Rfc8259.parse cisco = some ciscoTree := parse_stock _ _ _ _

attribute [local instance] Floating.unbounded

theorem showable_apple : showable apple = true := by
  rw [showable, parse_apple]
  decide +kernel

theorem showable_cisco : showable cisco = true := by
  rw [showable, parse_cisco]
  decide +kernel

theorem exists_tableOf_apple : ∃ table, tableOf apple = some table := by
  rw [tableOf, parse_apple]
  exact Option.isSome_iff_exists.mp (by decide +kernel)

theorem exists_tableOf_cisco : ∃ table, tableOf cisco = some table := by
  rw [tableOf, parse_cisco]
  exact Option.isSome_iff_exists.mp (by decide +kernel)

end WebTech.Page
