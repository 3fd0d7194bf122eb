/-
# `WebTech.SearchSystem` — the page, the servers and Yahoo together

Symbols are typed and selected, and every request goes its way: the servlet and
search_stock1.php read the symbol out of the URL, Yahoo answers what it reads
in turn, and the answer comes back to the object that asked, whenever it does.

    event                           what happens
    typed s, selected s             checkinput or the select handler; getXMLHttpRequest(url)
    readystatechange i st s text    as in the page, but with status 200 the text is the
                                    servers' answer to the URL of the `i`-th object
    tabview k                       as in the page

The runs are runs of the page (`run_page`).  For plain symbols the screen is the
outcome of a symbol that was searched for, it is that of the last one as soon as
its answer is there, and it never goes back to an earlier one
(`screen_of_searches`); each tab view shows the figures of a symbol that was
searched for (`panels_of_searches`).
-/
import WebTech.SearchOutcome
import WebTech.QuoteTable
import WebTech.Transport

namespace WebTech.SearchSystem

open Page Servlet Producer Transport Utf8 Url Ecma

/-- The servers, and what Yahoo answers to the parameters it reads. -/
structure World where
  way : Way
  lib : Libraries
  quotes : List (Text × Text) → Quote
  feeds : List (Text × Text) → List ChannelChild

/-- The libraries do what they are relied on for, and Yahoo sends XML. -/
structure World.Documented (W : World) : Prop where
  lib : W.lib.Documented
  fromXml : ∀ ps qs, FromXml (W.quotes ps) (W.feeds qs)

/-- Searches are made on the two ways of the page; the rest are its own events. -/
inductive Event where
  | typed (s : Text) (start : Start)
  | selected (s : Text) (start : Start)
  | readystatechange (i readyState status : Nat) (responseText : Text)
  | tabview (k : Nat)

/-- The symbol an event sends on its way. -/
def Event.symbol : Event → Option Text
  | .typed s _ => (checkinput s).map fun _ => s
  | .selected s _ => some s
  | .readystatechange .. | .tabview _ => none

/-- The symbols that were searched for, in their order. -/
def searched (es : List Event) : List Text := es.filterMap Event.symbol

section World
variable [Floating] (W : World)

/-- The servers' answer for a company: what the script makes of Yahoo's answers
to its two requests. -/
def World.answerFor (company : Text) : Text :=
  answer W.lib (encode company)
    (W.quotes (params W.way.yahoo (W.way.simplexml.delivers (val1 company))))
    (W.feeds (params W.way.yahoo (W.way.simplexml.delivers (val2 company))))

/-- Their answer to a URL. -/
def World.response (url : Text) : Text := W.answerFor (W.way.text url)

/-- A response with status 200 is the answer to the object's own URL. -/
def World.Sends (r : Xhr) (readyState status : Nat) (responseText : Text) : Prop :=
  readyState = 4 → status = 200 → responseText = W.response r.url

instance decSends (r : Xhr) (readyState status : Nat) (responseText : Text) :
    Decidable (W.Sends r readyState status responseText) :=
  inferInstanceAs (Decidable (_ → _))

/-- A URL that no header may have is never sent. -/
def step (w : Window) : Event → Option Window
  | .typed s start =>
      match checkinput s with
      | some url =>
          if start = .sent ∧ isRequested url = false then none
          else page.step w (.search url start)
      | none => some w
  | .selected s start => page.step w (.search (select s) start)
  | .readystatechange i readyState status responseText =>
      w.xhrs[i]?.bind fun r =>
        if W.Sends r readyState status responseText then
          page.step w (.readystatechange i readyState status responseText)
        else none
  | .tabview k => page.step w (.tabview k)

/-- The whole of it. -/
def system : Machine Window Event where
  init := .loaded
  step := step W

/-! ## The way of a symbol -/

/-- The two URLs of a symbol. -/
def UrlOf (s url : Text) : Prop := url = servlet ++ s ∨ url = select s

/-- The screen an answer for the symbol leaves. -/
def World.Answered (s : Text) (x : Elements) : Prop :=
  ∃ url, UrlOf s url ∧ x = elementsOf (W.response url)

/-- What Yahoo answers when it is asked for the symbol. -/
def World.quote (s : Text) : Quote := W.quotes [("q".toList, yql s), ("env".toList, Transport.tables)]

def World.feed (s : Text) : List ChannelChild :=
  W.feeds [("s".toList, s), ("region".toList, "US".toList), ("lang".toList, "en-US".toList)]

/-- **The screen of a symbol**: the outcome for the quote and the feed Yahoo has
for it. -/
def World.Shows (s : Text) (x : Elements) : Prop :=
  ∃ result newslists, Outcome W.lib (encode s) (W.quote s) (W.feed s) result x newslists

omit [Floating] in
theorem checkinput_url {s url : Text} (h : checkinput s = some url) : url = servlet ++ s := by
  rw [checkinput] at h
  split at h
  · cases h
  · split at h
    · cases h
    · exact (Option.some.inj h).symm

variable {W}

omit [Floating] in
/-- The answer for a plain symbol is made of what Yahoo has for it. -/
theorem response_eq {s url : Text} (h : Plain W.way s) (hurl : UrlOf s url) :
    W.response url = answer W.lib (encode s) (W.quote s) (W.feed s) := by
  have htext : W.way.text url = s := by
    rcases hurl with rfl | rfl
    · exact h.text_eq h.compny_typed
    · exact h.text_eq h.compny_selected
  obtain ⟨-, hval₁, hval₂⟩ := sends_urls W.way.simplexml h.noEscape
  rw [World.response, htext, World.answerFor, Connection.delivers_of_sends (hval₁.trans h.simplexml),
    Connection.delivers_of_sends (hval₂.trans h.simplexml), params_val1 h.toClean,
    params_val2 h.toClean, World.quote, World.feed]

theorem World.Answered.shows (hW : W.Documented) {s : Text} (h : Plain W.way s) {x : Elements}
    (hx : W.Answered s x) : W.Shows s x := by
  obtain ⟨url, hurl, rfl⟩ := hx
  have hr : Responds (.answered (W.response url)) 0 (W.response url) := ⟨_, rfl, rfl, rfl, rfl, rfl⟩
  have hel : ((Window.answered (W.response url)).after changeRequest).elements =
      elementsOf (W.response url) := by
    rcases changeRequest_cases (.answered (W.response url)) with ⟨hidle, -⟩ | ⟨j, c, hj, hh⟩
    · exact absurd hr (hidle _ _)
    · obtain ⟨-, rfl⟩ := hr.unique hj
      exact hh.elements
  rw [← hel]
  rw [response_eq h hurl] at hr ⊢
  obtain ⟨newslists, -, hout⟩ := search_outcome hW.lib (hW.fromXml _ _) hr
  exact ⟨_, newslists, hout⟩

/-! ## The requests of a run -/

variable (W)

/-- **What the objects of the page know**: an answer is the one to the object's
URL, an object was made for a symbol that was searched for, and the newest one
for the last.  `asked` are the symbols so far. -/
structure Sent (asked : List Text) (w : Window) : Prop where
  answers : ∀ r ∈ w.xhrs, r.readyState = 4 → r.status = 200 → r.responseText = W.response r.url
  urls : ∀ r ∈ w.xhrs, ∃ s ∈ asked, UrlOf s r.url
  newest : ∀ i r, w.req = .object i → w.xhrs[i]? = some r →
    ∃ s, asked.getLast? = some s ∧ UrlOf s r.url

/-- And the screen is that of the newest object, once it is done. -/
structure Served (asked : List Text) (w : Window) : Prop extends Sent W asked w where
  screen : ∀ i content, Responds w i content → w.elements = elementsOf content

variable {W} {asked : List Text} {w w' : Window}

omit [Floating] in
theorem Sent.congr (h : Sent W asked w) (hx : w'.xhrs = w.xhrs) (hq : w'.req = w.req) :
    Sent W asked w' :=
  ⟨hx ▸ h.answers, hx ▸ h.urls, hx ▸ hq ▸ h.newest⟩

theorem Sent.answered (h : Sent W asked w) {i : Nat} {content : Text} (hr : Responds w i content) :
    ∃ s, asked.getLast? = some s ∧ W.Answered s (elementsOf content) := by
  obtain ⟨r, hq, hi, h₄, h₂₀₀, rfl⟩ := hr
  obtain ⟨s, hs, hurl⟩ := h.newest i r hq hi
  rw [h.answers r (List.mem_of_getElem? hi) h₄ h₂₀₀]
  exact ⟨s, hs, r.url, hurl, rfl⟩

/-- A search: the newest object is not done yet. -/
theorem Served.search (h : Served W asked w) {s url : Text} (hurl : UrlOf s url) (start : Start) :
    Served W (asked ++ [s]) (w.getXMLHttpRequest url start) := by
  have hlast : (asked ++ [s]).getLast? = some s := List.getLast?_concat
  have hold : ∀ r ∈ w.xhrs, ∃ s' ∈ asked ++ [s], UrlOf s' r.url := by
    intro r hr
    obtain ⟨s', hs', hurl'⟩ := h.urls r hr
    exact ⟨s', List.mem_append_left _ hs', hurl'⟩
  have hnew : ∀ sent st, st ≠ 4 →
      Served W (asked ++ [s])
        { w with xhrs := w.xhrs ++ [⟨url, sent, st, 0, []⟩], req := .object w.xhrs.length } := by
    intro sent st hst
    have hget : (w.xhrs ++ [⟨url, sent, st, 0, []⟩])[w.xhrs.length]? = some ⟨url, sent, st, 0, []⟩ :=
      List.getElem?_concat_length
    refine ⟨⟨fun r hr h₄ h₂₀₀ => ?_, fun r hr => ?_, fun i r hq hr => ?_⟩, ?_⟩
    · rcases List.mem_append.mp hr with hr | hr
      · exact h.answers r hr h₄ h₂₀₀
      · rw [List.mem_singleton.mp hr] at h₄
        exact absurd h₄ hst
    · rcases List.mem_append.mp hr with hr | hr
      · exact hold r hr
      · rw [List.mem_singleton.mp hr]
        exact ⟨s, List.mem_append_right _ List.mem_cons_self, hurl⟩
    · cases hq
      cases hget.symm.trans hr
      exact ⟨s, hlast, hurl⟩
    · rintro i content ⟨r, hq, hr, h₄, -, -⟩
      cases hq
      cases hget.symm.trans hr
      exact absurd h₄ hst
  cases start with
  | noObject =>
      refine ⟨⟨h.answers, hold, fun i r hq => ?_⟩, ?_⟩
      · cases hq
      · rintro i content ⟨r, hq, -⟩
        cases hq
  | unopened => exact hnew false 0 (by decide)
  | unsent => exact hnew false 1 (by decide)
  | sent => exact hnew true 1 (by decide)

omit [Floating] in
theorem Sent.receive (h : Sent W asked w) {i st status : Nat} {text : Text} {r : Xhr}
    (hi : w.xhrs[i]? = some r) (hs : W.Sends r st status text) :
    Sent W asked (w.receive i st status text) := by
  constructor
  · intro x hx h₄ h₂₀₀
    obtain ⟨j, hj⟩ := List.mem_iff_getElem?.mp hx
    rcases receive_cases hj with hj | ⟨r', -, hr', rfl⟩
    · exact h.answers x (List.mem_of_getElem? hj) h₄ h₂₀₀
    · cases hi.symm.trans hr'
      exact hs h₄ h₂₀₀
  · intro x hx
    obtain ⟨j, hj⟩ := List.mem_iff_getElem?.mp hx
    rcases receive_cases hj with hj | ⟨r', -, hr', rfl⟩
    · exact h.urls x (List.mem_of_getElem? hj)
    · exact h.urls r' (List.mem_of_getElem? hr')
  · intro j x hq hx
    rcases receive_cases hx with hx | ⟨r', rfl, hr', rfl⟩
    · exact h.newest j x hq hx
    · exact h.newest j r' hq hr'

/-- The handler runs: it does nothing, or its screen is the newest answer's. -/
theorem Sent.changeRequest (h : Sent W asked w) :
    Served W asked (w.after changeRequest) ∧
      ((w.after changeRequest).elements = w.elements ∨
        ∃ s, asked.getLast? = some s ∧ W.Answered s (w.after changeRequest).elements) := by
  rcases changeRequest_cases w with ⟨hidle, heq⟩ | ⟨i, content, hr, hh⟩
  · rw [heq]
    exact ⟨⟨h, fun i content hr => absurd hr (hidle i content)⟩, .inl rfl⟩
  · obtain ⟨hx, hq⟩ := hh.frame
    refine ⟨⟨h.congr hx hq, fun j c hj => ?_⟩, .inr ?_⟩
    · obtain ⟨r, hq', hj', hdone⟩ := hj
      obtain ⟨-, rfl⟩ := hr.unique ⟨r, hq ▸ hq', hx ▸ hj', hdone⟩
      exact hh.elements
    · rw [hh.elements]
      exact h.answered hr

theorem step_typed {s : Text} {start : Start} (h : (system W).step w (.typed s start) = some w') :
    (checkinput s = none ∧ w' = w) ∨
      ∃ url, checkinput s = some url ∧ page.step w (.search url start) = some w' := by
  have hstep : (system W).step w (.typed s start) = step W w (.typed s start) := rfl
  rw [hstep, step] at h
  cases hc : checkinput s with
  | none =>
      rw [hc] at h
      exact .inl ⟨rfl, (Option.some.inj h).symm⟩
  | some url =>
      rw [hc] at h
      by_cases hnever : start = .sent ∧ isRequested url = false
      · cases (if_pos hnever).symm.trans h
      · exact .inr ⟨url, rfl, (if_neg hnever).symm.trans h⟩

theorem step_readystatechange {i st status : Nat} {text : Text}
    (h : (system W).step w (.readystatechange i st status text) = some w') :
    ∃ r, w.xhrs[i]? = some r ∧ W.Sends r st status text ∧
      page.step w (.readystatechange i st status text) = some w' := by
  obtain ⟨r, hi, h⟩ := Option.bind_eq_some_iff.mp h
  by_cases hs : W.Sends r st status text
  · exact ⟨r, hi, hs, (if_pos hs).symm.trans h⟩
  · cases (if_neg hs).symm.trans h

/-- **One step** keeps what the objects know, and leaves the screen or makes it
that of the symbol searched for last. -/
theorem Served.step {e : Event} (h : Served W asked w) (he : (system W).step w e = some w') :
    Served W (asked ++ e.symbol.toList) w' ∧
      (w'.elements = w.elements ∨
        ∃ s, (asked ++ e.symbol.toList).getLast? = some s ∧ W.Answered s w'.elements) := by
  have hkept : ∀ {url start}, (w.getXMLHttpRequest url start).elements = w.elements := by
    intro url start
    obtain ⟨xs, req, heq, -⟩ := getXMLHttpRequest_eq w url start
    rw [heq]
    rfl
  cases e with
  | typed s start =>
      rw [Event.symbol]
      rcases step_typed he with ⟨hc, rfl⟩ | ⟨url, hc, he⟩
      · rw [hc, Option.map_none, Option.toList_none, List.append_nil]
        exact ⟨h, .inl rfl⟩
      · rw [hc]
        cases he
        exact ⟨h.search (.inl (checkinput_url hc)) start, .inl hkept⟩
  | selected s start =>
      cases he
      exact ⟨h.search (.inr rfl) start, .inl hkept⟩
  | readystatechange i st status text =>
      rw [Event.symbol, Option.toList_none, List.append_nil]
      obtain ⟨r, hi, hs, he⟩ := step_readystatechange he
      obtain ⟨r', -, he⟩ := Option.bind_eq_some_iff.mp he
      by_cases hc : r'.canChange st = true
      · cases (if_pos hc).symm.trans he
        exact (h.toSent.receive hi hs).changeRequest
      · cases (if_neg hc).symm.trans he
  | tabview k =>
      rw [Event.symbol, Option.toList_none, List.append_nil]
      obtain ⟨newslist, -, rfl⟩ := Option.map_eq_some_iff.mp he
      rcases renderTabView_cases { w with pending := w.pending.eraseIdx k } newslist with
        ⟨-, heq⟩ | ⟨content, -, heq⟩
      · rw [heq]
        exact ⟨⟨h.toSent.congr rfl rfl, h.screen⟩, .inl rfl⟩
      · rw [heq]
        exact ⟨⟨h.toSent.congr rfl rfl, h.screen⟩, .inl rfl⟩

/-- **A run** from any such state: the screen is left, or it is that of the
symbol searched for last before the run or of one searched for in it. -/
theorem Served.run {es : List Event} (h : Served W asked w) (hrun : (system W).run w es = some w') :
    Served W (asked ++ searched es) w' ∧
      (w'.elements = w.elements ∨
        ∃ s ∈ asked.getLast?.toList ++ searched es, W.Answered s w'.elements) := by
  refine Machine.run_log (M := system W) (P := fun es v => Served W (asked ++ searched es) v ∧
    (v.elements = w.elements ∨
      ∃ s ∈ asked.getLast?.toList ++ searched es, W.Answered s v.elements))
    ⟨(List.append_nil asked).symm ▸ h, .inl rfl⟩ ?_ hrun
  rintro es u v e - ⟨hserved, hscreen⟩ hstep
  have hsnoc : searched (es ++ [e]) = searched es ++ e.symbol.toList := by
    rw [searched, List.filterMap_append, ← searched]
    cases he : e.symbol <;> simp [he]
  rw [hsnoc]
  obtain ⟨hserved', hstep'⟩ := hserved.step hstep
  rw [List.append_assoc] at hserved' hstep'
  refine ⟨hserved', ?_⟩
  rcases hstep' with heq | ⟨s, hs, hanswered⟩
  · rw [heq]
    exact hscreen.imp_right fun ⟨s, hs, ha⟩ =>
      ⟨s, List.append_assoc .. ▸ List.mem_append_left _ hs, ha⟩
  · refine .inr ⟨s, ?_, hanswered⟩
    rw [List.getLast?_append] at hs
    cases hl : (searched es ++ e.symbol.toList).getLast? with
    | none =>
        rw [hl, Option.none_or] at hs
        exact List.mem_append_left _ (Option.mem_toList.mpr hs)
    | some s' =>
        rw [hl, Option.some_or] at hs
        cases hs
        exact List.mem_append_right _ (List.mem_of_getLast? hl)

theorem served_init : Served W [] (system W).init where
  answers := fun r hr => absurd hr List.not_mem_nil
  urls := fun r hr => absurd hr List.not_mem_nil
  newest := fun i r hq => by cases hq
  screen := by
    rintro i content ⟨r, hq, -⟩
    cases hq

/-- **The screen of any run of plain searches** is the outcome of a symbol that
was searched for.  Once the newest request is answered it is the outcome of the
last one, and from then on, in whatever order the events go on, that of it or of
a later one. -/
theorem screen_of_searches (hW : W.Documented) {es es' : List Event}
    (h : (system W).run (system W).init es = some w) (h' : (system W).run w es' = some w')
    (hplain : ∀ s ∈ searched es ++ searched es', Plain W.way s) :
    (w.elements = .loaded ∨ ∃ s ∈ searched es, W.Shows s w.elements) ∧
    ((∃ i content, Responds w i content) → ∃ s, (searched es).getLast? = some s ∧
      W.Shows s w.elements ∧ ∃ s' ∈ s :: searched es', W.Shows s' w'.elements) := by
  obtain ⟨hserved, hscreen⟩ := served_init.run h
  constructor
  · refine hscreen.imp_right fun ⟨s, hs, ha⟩ => ⟨s, hs, ha.shows hW ?_⟩
    exact hplain s (List.mem_append_left _ hs)
  · rintro ⟨i, content, hr⟩
    obtain ⟨s, hs, hanswered⟩ := hserved.toSent.answered hr
    rw [← hserved.screen i content hr] at hanswered
    replace hs : (searched es).getLast? = some s := hs
    have hshows := hanswered.shows hW (hplain s (List.mem_append_left _ (List.mem_of_getLast? hs)))
    refine ⟨s, hs, hshows, ?_⟩
    rcases (hserved.run h').2 with heq | ⟨s', hs', hanswered'⟩
    · exact ⟨s, List.mem_cons_self, heq ▸ hshows⟩
    · replace hs' : s' ∈ (searched es).getLast?.toList ++ searched es' := hs'
      rw [hs] at hs'
      refine ⟨s', hs', hanswered'.shows hW (hplain s' ?_)⟩
      rcases List.mem_cons.mp hs' with rfl | hs'
      · exact List.mem_append_left _ (List.mem_of_getLast? hs)
      · exact List.mem_append_right _ hs'

/-! ## The tab views of a run -/

omit [Floating] in
/-- Every answer of the servers is one of the servlet's. -/
theorem isAnswer_response (hW : W.Documented) (url : Text) : IsAnswer W.lib (W.response url) :=
  ⟨_, _, _, hW.fromXml _ _, rfl⟩

/-- The page follows every step with one of its own, or with none. -/
theorem step_page (hW : W.Documented) {u v : Window} {e : Event}
    (h : (system W).step u e = some v) :
    ∃ es' v', (∀ e' ∈ es', FromServlet W.lib e') ∧ page.run u es' = some v' ∧ v = v' := by
  have hone : ∀ {e' : Page.Event}, page.step u e' = some v → FromServlet W.lib e' →
      ∃ es' v', (∀ e' ∈ es', FromServlet W.lib e') ∧ page.run u es' = some v' ∧ v = v' := by
    intro e' hstep he'
    exact ⟨[e'], v, List.forall_mem_singleton.mpr he', Machine.run_cons.mpr ⟨v, hstep, rfl⟩, rfl⟩
  cases e with
  | typed s start =>
      rcases step_typed h with ⟨-, rfl⟩ | ⟨url, -, h⟩
      · exact ⟨[], _, nofun, rfl, rfl⟩
      · exact hone h trivial
  | selected s start => exact @hone (.search (select s) start) h trivial
  | readystatechange i st status text =>
      obtain ⟨r, -, hs, h⟩ := step_readystatechange h
      refine hone h fun h₄ h₂₀₀ => ?_
      rw [hs h₄ h₂₀₀]
      exact isAnswer_response hW r.url
  | tabview k => exact @hone (.tabview k) h trivial

/-- **The system refines the page**: its runs are runs of the page that is
answered by the servlet. -/
theorem run_page (hW : W.Documented) {es : List Event}
    (h : (system W).run (system W).init es = some w) :
    ∃ es', (∀ e ∈ es', FromServlet W.lib e) ∧ page.run page.init es' = some w := by
  have hstart : (system W).init = page.init := rfl
  obtain ⟨es', w', hes', hrun, rfl⟩ :=
    Machine.run_simulation (R := Eq) (fun hu hstep => hu ▸ step_page hW hstep) hstart h
  exact ⟨es', hes', hrun⟩

omit [Floating] in
/-- The variables a plain symbol's answer is read into. -/
theorem reads_response (hW : W.Documented) {s url : Text} (hs : Plain W.way s) (hurl : UrlOf s url)
    {g : Globals} (hg : Reads (Rfc8259.parse (W.response url)) g) :
    g = globalsArrived W.lib (encode s) (W.quote s) (W.feed s) := by
  have hxml : FromXml (W.quote s) (W.feed s) := hW.fromXml _ _
  rw [response_eq hs hurl] at hg
  have hread : Readable W.lib (encode s) (W.quote s) := by
    by_contra hnot
    rw [answer_nil hW.lib hxml hnot] at hg
    exact not_reads_nil hg
  rw [parse_arrived hW.lib hxml hread] at hg
  exact hg.unique (reads_received hW.lib _ _ _ _ _)

/-- **The tab views of any run of plain searches** show the table of a symbol
that was searched for, with the figures of its own quote. -/
theorem panels_of_searches (hW : W.Documented) (E : Html.Entities) {es : List Event}
    (h : (system W).run (system W).init es = some w) (hplain : ∀ s ∈ searched es, Plain W.way s) :
    ∀ v ∈ w.demoo, ∃ s ∈ searched es, Html.tokenize E v.quote =
      tableTokens (figure (globalsArrived W.lib (encode s) (W.quote s) (W.feed s))) := by
  obtain ⟨es', hes', hrun⟩ := run_page hW h
  have hsent := (served_init.run h).1.toSent
  intro v hv
  obtain ⟨i, content, g, ⟨r, hr, -, h₄, h₂₀₀, rfl⟩, hg, htokens⟩ :=
    panels_of_run hW.lib E hes' hrun v hv
  have hmem := List.mem_of_getElem? hr
  obtain ⟨s, hs, hurl⟩ := hsent.urls r hmem
  replace hs : s ∈ searched es := hs
  rw [hsent.answers r hmem h₄ h₂₀₀] at hg
  rw [reads_response hW (hplain s hs) hurl hg] at htokens
  exact ⟨s, hs, htokens⟩

end World

/-! ## Two searches and a late answer -/

attribute [local instance] Floating.unbounded

def ciscoQuote : Quote :=
  { ordinaryQuote with
    Name := "Cisco Systems, Inc.".toList, Symbol := "CSCO".toList,
    LastTradePriceOnly := "48.20".toList, Change := "-0.34".toList,
    ChangeinPercent := "-0.70%".toList, PreviousClose := "48.54".toList,
    MarketCapitalization := "196.0B".toList }

def ciscoFeed : List ChannelChild :=
  twoItems.take 1 ++ [⟨"item".toList, [⟨"link".toList, "http://finance.yahoo.com/3".toList⟩]⟩,
    ⟨"item".toList, [⟨"link".toList, "http://finance.yahoo.com/4".toList⟩]⟩]

/-- Yahoo has two stocks. -/
def twoQuotes (ps : List (Text × Text)) : Quote :=
  if ("q".toList, yql "AAPL".toList) ∈ ps then ordinaryQuote else ciscoQuote

def twoFeeds (ps : List (Text × Text)) : List ChannelChild :=
  if ("s".toList, "AAPL".toList) ∈ ps then twoItems else ciscoFeed

theorem twoQuotes_apple (ps : List (Text × Text)) :
    twoQuotes (("q".toList, yql "AAPL".toList) :: ps) = ordinaryQuote := if_pos List.mem_cons_self

theorem twoFeeds_apple (ps : List (Text × Text)) :
    twoFeeds (("s".toList, "AAPL".toList) :: ps) = twoItems := if_pos List.mem_cons_self

/-- Servers that read UTF-8. -/
def plainWorld : World where
  way := .utf8
  lib := plain
  quotes := twoQuotes
  feeds := twoFeeds

theorem plainWorld_documented : plainWorld.Documented := by
  refine ⟨plain_documented, fun ps qs => ?_⟩
  have hquotes : plainWorld.quotes ps = ordinaryQuote ∨ plainWorld.quotes ps = ciscoQuote :=
    ite_eq_or_eq ..
  have hfeeds : plainWorld.feeds qs = twoItems ∨ plainWorld.feeds qs = ciscoFeed := ite_eq_or_eq ..
  rcases hquotes with hq | hq <;> rcases hfeeds with hf | hf <;> rw [hq, hf] <;>
    exact ⟨by decide, by decide⟩

theorem plain_symbols : ∀ s ∈ ["CSCO".toList, "AAPL".toList], Plain plainWorld.way s := by
  intro s hs
  rcases List.mem_pair.mp hs with rfl | rfl
  · exact ⟨⟨by decide, by decide, by decide, by decide, rfl⟩, rfl, rfl⟩
  · exact ⟨⟨by decide, by decide, by decide, by decide, rfl⟩, rfl, rfl⟩

/-- Cisco is typed, Apple is selected and answered first. -/
def firstAnswer (b : Text) : List Event :=
  [.typed "CSCO".toList .sent, .selected "AAPL".toList .sent, .readystatechange 1 4 200 b,
    .tabview 0]

def lateAnswer (a : Text) : List Event := [.readystatechange 0 4 200 a, .tabview 0]

theorem ordinaryAnswer_eq : plainWorld.response (select "AAPL".toList) = ordinaryAnswer := by
  have hplain := plain_symbols _ (List.mem_cons_of_mem _ List.mem_cons_self)
  have hquotes : plainWorld.quotes = twoQuotes := rfl
  have hfeeds : plainWorld.feeds = twoFeeds := rfl
  rw [response_eq hplain (.inr rfl), World.quote, World.feed, hquotes, hfeeds, twoQuotes_apple,
    twoFeeds_apple]
  rfl

section Late
variable {W : World} {a b table : Text} (hs : showable b = true) (ht : tableOf b = some table)
include hs ht

theorem run_firstAnswer (hb : b = W.response (select "AAPL".toList)) :
    (system W).run (system W).init (firstAnswer b) =
      some (.current (servlet ++ "CSCO".toList) (select "AAPL".toList) b table) := by
  have hsends : W.Sends ⟨select "AAPL".toList, true, 1, 0, []⟩ 4 200 b := fun _ _ => hb
  refine Machine.run_cons.mpr ⟨_, rfl, Machine.run_cons.mpr ⟨_, rfl, ?_⟩⟩
  refine Machine.run_cons.mpr ⟨_, (if_pos hsends).trans (step_answeredFirst hs), ?_⟩
  exact Machine.run_cons.mpr ⟨_, step_current ht, rfl⟩

theorem run_lateAnswer (ha : a = W.response (servlet ++ "CSCO".toList)) :
    (system W).run (.current (servlet ++ "CSCO".toList) (select "AAPL".toList) b table)
      (lateAnswer a) =
      some (.late (servlet ++ "CSCO".toList) (select "AAPL".toList) a b table) := by
  have hsends : W.Sends ⟨servlet ++ "CSCO".toList, true, 1, 0, []⟩ 4 200 a := fun _ _ => ha
  refine Machine.run_cons.mpr ⟨_, (if_pos hsends).trans (step_answeredLate hs), ?_⟩
  exact Machine.run_cons.mpr ⟨_, step_late ht, rfl⟩

end Late

/-- The late answer leaves the screen that of the last search. -/
theorem screen_of_twoSearches : ∃ w w',
    (system plainWorld).run (system plainWorld).init (firstAnswer ordinaryAnswer) = some w ∧
    (system plainWorld).run w
      (lateAnswer (plainWorld.response (servlet ++ "CSCO".toList))) = some w' ∧
    plainWorld.Shows "AAPL".toList w.elements ∧ plainWorld.Shows "AAPL".toList w'.elements := by
  obtain ⟨table, ht⟩ := Option.isSome_iff_exists.mp tableOf_ordinaryAnswer
  have hrun := run_firstAnswer showable_ordinaryAnswer ht ordinaryAnswer_eq.symm
  have hlate := run_lateAnswer showable_ordinaryAnswer ht
    (a := plainWorld.response (servlet ++ "CSCO".toList)) rfl
  have hresponds : ∃ i content, Responds (.current (servlet ++ "CSCO".toList)
      (select "AAPL".toList) ordinaryAnswer table) i content := by
    obtain ⟨hreq, hxhrs⟩ := current_requests (servlet ++ "CSCO".toList) (select "AAPL".toList)
      ordinaryAnswer table
    exact ⟨1, ordinaryAnswer, ⟨_, true, 4, 200, _⟩, hreq, congrArg (·[1]?) hxhrs, rfl, rfl, rfl⟩
  obtain ⟨s, hs, hshows, s', hs', hlater⟩ :=
    (screen_of_searches plainWorld_documented hrun hlate plain_symbols).2 hresponds
  cases hs
  cases List.mem_singleton.mp hs'
  exact ⟨_, _, hrun, hlate, hshows, hlater⟩

/-- The table in the tab view is that of one of the two. -/
theorem panels_of_twoSearches : ∃ w,
    (system plainWorld).run (system plainWorld).init (firstAnswer ordinaryAnswer ++
      lateAnswer (plainWorld.response (servlet ++ "CSCO".toList))) = some w ∧
    w.demoo.length = 1 ∧
    ∀ v ∈ w.demoo, ∃ s ∈ ["CSCO".toList, "AAPL".toList], Html.tokenize .basic v.quote =
      tableTokens (figure (globalsArrived plainWorld.lib (encode s) (plainWorld.quote s)
        (plainWorld.feed s))) := by
  obtain ⟨table, ht⟩ := Option.isSome_iff_exists.mp tableOf_ordinaryAnswer
  have hrun := Machine.run_append.mpr
    ⟨_, run_firstAnswer showable_ordinaryAnswer ht ordinaryAnswer_eq.symm,
      run_lateAnswer showable_ordinaryAnswer ht
        (a := plainWorld.response (servlet ++ "CSCO".toList)) rfl⟩
  refine ⟨_, hrun, ?_, panels_of_searches plainWorld_documented .basic hrun plain_symbols⟩
  rw [(late_screen _ _ _ _ table).2.2.1]
  rfl

end WebTech.SearchSystem
