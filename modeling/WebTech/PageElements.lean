/-
# `WebTech.PageElements` — the elements of the page after any run

Searches, events of any object and renderings of tab views come in any order.
The summary, the chart, the message, the post button and the rule are written
by `changeRequest` alone, and it clears them first, so what they hold is told by
one text, the response that was handled last (`elements_of_run`).

    response that was handled last            message    button   summary and rule   chart
    none yet
    not readable, or compared with a TypeError
    empty, or all zeros                       x
    its summary cannot be built                          x
    its headlines or its chart cannot                    x        x
    any other                                            x        x                  x
-/
import WebTech.PostButton

namespace WebTech.Page

open Ecma Ecma.Script

section Writes
variable [Floating]

/-- The elements `changeRequest` writes to, but for the tab views. -/
structure Elements where
  data_display : Text
  img : Text
  errormessage : Text
  fbpost : Text
  hr1 : Text
  deriving DecidableEq, Repr

def Window.elements (w : Window) : Elements :=
  ⟨w.data_display, w.img, w.errormessage, w.fbpost, w.hr1⟩

namespace Elements

def loaded : Elements := ⟨[], [], [], [], "<br/>".toList⟩
def cleared : Elements := ⟨[], [], [], [], []⟩
def message : Elements := ⟨[], [], notAvailable, [], []⟩
def posted : Elements := ⟨[], [], [], fb_button, []⟩
def stock (buff img1 : Text) : Elements := ⟨buff, img1, [], fb_button, "<hr/>".toList⟩

end Elements

/-- What a response leaves in the elements. -/
def elementsOf (content : Text) : Elements :=
  let v : Value := Rfc8259.parse content
  if content = [] then .message
  else if readable v then
    match allZero (globalsOf v) zeroTested, summary (globalsOf v) with
    | none, _ => .cleared
    | some true, _ => .message
    | some false, none => .posted
    | some false, some buff =>
        match newsList v (globalsOf v .news), chartImg (globalsOf v) with
        | some _, some img1 => .stock buff img1
        | _, _ => .stock buff []
  else .cleared

/-- The response a step handles. -/
def handledBy (w : Window) : Event → Option Text
  | .readystatechange i readyState status responseText =>
      (w.receive i readyState status responseText).request.bind fun (_, r) =>
        if r.readyState = 4 ∧ r.status = 200 then some r.responseText else none
  | .search _ _ => none
  | .tabview _ => none

/-! ## One response -/

omit [Floating] in
theorem Reads.eq_globalsOf {v : Value} {g : Globals} (h : Reads v g) :
    readable v = true ∧ globalsOf v = g := by
  have hread : readable v = true := by
    refine List.all_eq_true.mpr fun x _ => ?_
    rw [h x]
    rfl
  exact ⟨hread, (reads_globalsOf hread).unique h⟩

omit [Floating] in
theorem not_readable {v : Value} {x : Global} (h : getPath v x.path = none) : readable v = false := by
  by_contra hread
  rw [Bool.not_eq_false] at hread
  exact nomatch h.symm.trans (reads_globalsOf hread x)

section Ends
variable (w : Window) (g : Globals) (i : Nat) (buff img1 newslist : Text)

omit [Floating] in
theorem elements_cleared : (w.cleared.read g).elements = .cleared := rfl

omit [Floating] in
theorem elements_empty : w.cleared.message.elements = .message := rfl

omit [Floating] in
theorem elements_message : (w.cleared.read g).message.elements = .message := rfl

omit [Floating] in
theorem elements_posted : (w.cleared.read g).post.elements = .posted := by
  simp only [Window.elements, Window.post, Elements.posted, Window.cleared, Window.read]

omit [Floating] in
theorem elements_rule : ((w.cleared.read g).post.display i buff).rule.elements = .stock buff [] := by
  simp only [Window.elements, Window.post, Elements.stock, Window.cleared, Window.read,
    Window.display, Window.rule]

omit [Floating] in
theorem elements_complete :
    ((((w.cleared.read g).post.display i buff).rule.chart img1).schedule newslist).elements =
      .stock buff img1 := by
  simp only [Window.elements, Window.post, Elements.stock, Window.cleared, Window.read,
    Window.display, Window.rule, Window.chart, Window.schedule]

end Ends

/-- **The handler's end** is the response's, whatever the window was. -/
theorem Handled.elements {i : Nat} {content : Text} {w w' : Window} {r : Except TypeError Unit}
    (h : Handled i content w r w') : w'.elements = elementsOf content := by
  have hne : ∀ {g}, Reads (Rfc8259.parse content) g → content ≠ [] := by
    rintro g hg rfl
    exact not_reads_nil hg
  cases h with
  | empty hc => rw [elementsOf, if_pos hc, elements_empty]
  | unread x g hc hx =>
      simp only [elementsOf, if_neg hc, not_readable hx, elements_cleared, Bool.false_eq_true,
        if_false]
  | untested g hg hz =>
      obtain ⟨hread, rfl⟩ := hg.eq_globalsOf
      simp only [elementsOf, if_neg (hne hg), hread, if_true, hz, elements_cleared]
  | zero g hg hz =>
      obtain ⟨hread, rfl⟩ := hg.eq_globalsOf
      simp only [elementsOf, if_neg (hne hg), hread, if_true, hz, elements_message]
  | unnamed g hg hz hs =>
      obtain ⟨hread, rfl⟩ := hg.eq_globalsOf
      simp only [elementsOf, if_neg (hne hg), hread, if_true, hz, hs, elements_posted]
  | unfinished g buff hg hz hs hbad =>
      obtain ⟨hread, rfl⟩ := hg.eq_globalsOf
      simp only [elementsOf, if_neg (hne hg), hread, if_true, hz, hs, elements_rule]
      rcases hbad with hn | hi
      · simp only [hn]
      · simp only [hi]
        cases newsList (Rfc8259.parse content) (globalsOf (Rfc8259.parse content) .news) with
        | none => rfl
        | some newslist => rfl
  | complete g buff newslist img1 hg hz hs hn hi =>
      obtain ⟨hread, rfl⟩ := hg.eq_globalsOf
      simp only [elementsOf, if_neg (hne hg), hread, if_true, hz, hs, hn, hi, elements_complete]

omit [Floating] in
theorem handledBy_eq_some {w : Window} {i st status : Nat} {text content : Text} :
    handledBy w (.readystatechange i st status text) = some content ↔
      ∃ j, Responds (w.receive i st status text) j content := by
  rw [handledBy, Window.request]
  generalize w.receive i st status text = u
  constructor
  · intro h
    obtain ⟨⟨j, r⟩, hreq, hr⟩ := Option.bind_eq_some_iff.mp h
    cases hq : u.req with
    | undefined | false =>
        rw [hq] at hreq
        cases hreq
    | object k =>
        rw [hq] at hreq
        obtain ⟨r', hget, heq⟩ := Option.map_eq_some_iff.mp hreq
        cases heq
        by_cases hd : r.readyState = 4 ∧ r.status = 200
        · cases (if_pos hd).symm.trans hr
          exact ⟨j, r, hq, hget, hd.1, hd.2, rfl⟩
        · cases (if_neg hd).symm.trans hr
  · rintro ⟨j, r, hq, hget, h₄, h₂₀₀, rfl⟩
    simp only [hq, hget, Option.map_some, Option.bind_some]
    exact if_pos ⟨h₄, h₂₀₀⟩

/-- One step: a response is handled, or the elements stay. -/
theorem elements_step {w w' : Window} {e : Event} (h : page.step w e = some w') :
    w'.elements = ((handledBy w e).map elementsOf).getD w.elements := by
  cases e with
  | search url s =>
      cases h
      obtain ⟨xs, req, heq, -⟩ := getXMLHttpRequest_eq w url s
      rw [heq]
      rfl
  | tabview k =>
      obtain ⟨newslist, -, rfl⟩ := Option.map_eq_some_iff.mp h
      rcases renderTabView_cases { w with pending := w.pending.eraseIdx k } newslist with
        ⟨-, heq⟩ | ⟨content, -, heq⟩
      · rw [heq]
        rfl
      · rw [heq]
        rfl
  | readystatechange i st status text =>
      obtain ⟨r, -, h⟩ := Option.bind_eq_some_iff.mp h
      by_cases hc : r.canChange st = true
      · cases (if_pos hc).symm.trans h
        rcases changeRequest_cases (w.receive i st status text) with ⟨hidle, heq⟩ | ⟨j, c, hj, hh⟩
        · have hnone : handledBy w (.readystatechange i st status text) = none := by
            rw [Option.eq_none_iff_forall_ne_some]
            intro content hsome
            obtain ⟨j, hj⟩ := handledBy_eq_some.mp hsome
            exact hidle j content hj
          rw [hnone, heq]
          rfl
        · rw [handledBy_eq_some.mpr ⟨j, hj⟩]
          exact hh.elements
      · exact nomatch (if_neg hc).symm.trans h

/-! ## Every run -/

/-- What never stands side by side, and what never stands alone. -/
structure Elements.Coherent (x : Elements) : Prop where
  message : x.errormessage = [] ∨ x = .message
  chart : x.img ≠ [] → x.data_display ≠ []
  rule : x.hr1 = "<hr/>".toList ↔ x.data_display ≠ []
  button : x.data_display ≠ [] → x.fbpost = fb_button

omit [Floating] in
theorem rule_ne_nil : ([] : Text) ≠ "<hr/>".toList := by decide

omit [Floating] in
theorem coherent_stock {buff : Text} (h : buff ≠ []) (img1 : Text) : (Elements.stock buff img1).Coherent :=
  ⟨.inl rfl, fun _ => h, ⟨fun _ => h, fun _ => rfl⟩, fun _ => by simp only [Elements.stock]⟩

omit [Floating] in
theorem coherent_bare {x : Elements} (hm : x.errormessage = [] ∨ x = .message) (hi : x.img = [])
    (hd : x.data_display = []) (hr : x.hr1 ≠ "<hr/>".toList) : x.Coherent :=
  ⟨hm, fun h => absurd hi h, ⟨fun h => absurd h hr, fun h => absurd hd h⟩, fun h => absurd hd h⟩

/-- The summary is never empty. -/
theorem coherent_elementsOf (content : Text) : (elementsOf content).Coherent := by
  have hcleared : Elements.cleared.Coherent := coherent_bare (.inl rfl) rfl rfl rule_ne_nil
  have hmessage : Elements.message.Coherent := coherent_bare (.inr rfl) rfl rfl rule_ne_nil
  have hposted : Elements.posted.Coherent := coherent_bare (.inl rfl) rfl rfl rule_ne_nil
  have hstock : ∀ {g buff}, summary g = some buff → ∀ img1, (Elements.stock buff img1).Coherent := by
    rintro g buff hs img1
    refine coherent_stock ?_ img1
    rintro rfl
    exact summary_ne_nil hs
  rw [elementsOf]
  split
  · exact hmessage
  · split
    · split
      · exact hcleared
      · exact hmessage
      · exact hposted
      · next hs =>
          split
          · exact hstock hs _
          · exact hstock hs _
    · exact hcleared

omit [Floating] in
theorem coherent_loaded : Elements.loaded.Coherent :=
  coherent_bare (.inl rfl) rfl rfl (by decide)

/-- **The elements after any run** are those of the response that was handled
last: the message excludes everything else, and a chart stands beside a summary,
which has its rule and its button. -/
theorem elements_of_run {es : List Event} {w : Window} (h : page.run page.init es = some w) :
    w.elements = ((page.writes handledBy page.init es).getLast?.map elementsOf).getD .loaded ∧
    w.elements.Coherent := by
  have hlast := Machine.run_lastWrite elements_step h
  refine ⟨hlast, ?_⟩
  rw [hlast]
  cases (page.writes handledBy page.init es).getLast? with
  | none => exact coherent_loaded
  | some content => exact coherent_elementsOf content

end Writes

attribute [local instance] Floating.unbounded

theorem elements_of_lateRun :
    ∃ w, page.run page.init (lateRun ['A'] ['B'] apple cisco) = some w ∧
      w.elements = ((page.writes handledBy page.init (lateRun ['A'] ['B'] apple cisco)).getLast?.map
        elementsOf).getD .loaded ∧ w.elements.Coherent := by
  obtain ⟨table, ht⟩ := exists_tableOf_cisco
  have hrun := run_lateRun (u := ['A']) (v := ['B']) (a := apple) showable_cisco ht
  exact ⟨_, hrun, elements_of_run hrun⟩

end WebTech.Page
