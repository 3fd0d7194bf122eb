/-
# `WebTech.Failures` — what a failed search leaves on the screen

A search fails when its request ends with a status other than 200, or with a
body that is not the stock's JSON.  The page should then show the message and
nothing of an earlier stock, also after the tab views that still wait are
rendered.

    response                              screen afterwards
    status not 200                        as before: the handler returns at once
    200, empty body                       the message
    200, every tested price 0.00          the message
    200, any other body                   the message is not shown

`failure_is_announced_iff` says exactly when a response leaves the failure
screen for good; tab views matter to it because one that waits puts an earlier
stock back (`settled_iff`).
-/
import WebTech.EventLoop

namespace WebTech.Page

open Ecma Ecma.Script

section Failed
variable [Floating]

/-- The message, and nothing of a stock. -/
structure FailureScreen (w : Window) : Prop where
  data_display : w.data_display = []
  img : w.img = []
  demoo : w.demoo = []
  fbpost : w.fbpost = []
  errormessage : w.errormessage = notAvailable

omit [Floating] in
theorem nil_ne_notAvailable : ([] : Text) ≠ notAvailable := by decide

/-- No tab view waits whose table can be built of the variables. -/
def NothingToRender (w : Window) : Prop := w.pending = [] ∨ quoteTable w.globals = none

/-- The quote of a body is all zeros, as for a symbol that does not exist. -/
def ZeroQuote (content : Text) : Prop :=
  ∃ g, Reads (Rfc8259.parse content) g ∧ allZero g zeroTested = some true

/-- The answers a page announces as failures. -/
def Announced (w : Window) (status : Nat) (content : Text) : Prop :=
  (status = 200 ∧ content = [] ∧ NothingToRender w) ∨
  (status = 200 ∧ ZeroQuote content ∧ w.pending = []) ∨
  (status ≠ 200 ∧ FailureScreen w ∧ NothingToRender w)

/-- The failure screen stays, whichever of the tab views that wait are
rendered, in whatever order. -/
def FailureShown (w : Window) : Prop :=
  ∀ (ks : List Nat) (u : Window), page.run w (ks.map .tabview) = some u → FailureScreen u

/-! ## The tab views that wait -/

theorem FailureScreen.tabview {w w' : Window} {k : Nat} (h : FailureScreen w)
    (hn : NothingToRender w) (hs : page.step w (.tabview k) = some w') :
    FailureScreen w' ∧ NothingToRender w' := by
  rcases step_cases (show step w (.tabview k) = some w' from hs) with
    ⟨url, s, rfl⟩ | ⟨i, r, st, status, text, he, -⟩ |
    ⟨k, newslist, hk, hend⟩
  · obtain ⟨xs, req, heq, -⟩ := getXMLHttpRequest_eq w url s
    rw [heq]
    exact ⟨⟨h.data_display, h.img, h.demoo, h.fbpost, h.errormessage⟩, hn⟩
  · exact nomatch he
  · rcases hend with ⟨hnone, rfl⟩ | ⟨table, htable, rfl⟩
    · exact ⟨⟨h.data_display, h.img, h.demoo, h.fbpost, h.errormessage⟩, .inr hnone⟩
    · rcases hn with hnil | hnone
      · rw [hnil] at hk
        exact nomatch hk
      · exact nomatch hnone.symm.trans htable

/-- **A tab view that waits** puts an earlier stock back on the screen, unless
its table cannot be built. -/
theorem settled_iff (w : Window) : FailureShown w ↔ FailureScreen w ∧ NothingToRender w := by
  constructor
  · intro h
    have hw : FailureScreen w := h [] w rfl
    refine ⟨hw, ?_⟩
    cases hp : w.pending with
    | nil => exact .inl hp
    | cons newslist rest =>
        cases ht : quoteTable w.globals with
        | none => exact .inr ht
        | some table =>
            have hstep := step_tabview w 0 (by rw [hp]; rfl) ht
            have hbad := (h [0] _ (Machine.run_cons.mpr ⟨_, hstep, rfl⟩)).demoo
            exact nomatch (List.append_eq_nil_iff.mp hbad).2
  · rintro ⟨hw, hn⟩ ks
    induction ks generalizing w with
    | nil =>
        rintro u ⟨⟩
        exact hw
    | cons k ks ih =>
        intro u hu
        obtain ⟨w₁, hs, hrest⟩ := Machine.run_cons.mp hu
        obtain ⟨hw₁, hn₁⟩ := hw.tabview hn hs
        exact ih w₁ hw₁ hn₁ u hrest

/-! ## The zero quote's table -/

theorem toText_of_zero {v : Value} (h : looseEqZero v = some true) : (toText v).isSome := by
  cases v with
  | none => exact nomatch h
  | some v =>
      cases v with
      | null => exact nomatch h
      | bool b => cases b <;> rfl
      | num lit => rfl
      | str s => rfl
      | arr vs =>
          obtain ⟨t, ht, -⟩ := Option.map_eq_some_iff.mp h
          exact Option.isSome_iff_exists.mpr ⟨t, ht⟩
      | obj ms =>
          obtain ⟨t, ht, -⟩ := Option.map_eq_some_iff.mp h
          exact Option.isSome_iff_exists.mpr ⟨t, ht⟩

theorem looseEqZero_of_allZero {g : Globals} : ∀ {xs : List Global}, allZero g xs = some true →
    ∀ x ∈ xs, looseEqZero (g x) = some true
  | [], _ => nofun
  | x :: xs, h => by
      obtain ⟨b, hb, h'⟩ := Option.bind_eq_some_iff.mp h
      cases b with
      | false => exact nomatch h'
      | true =>
          intro y hy
          rcases List.mem_cons.mp hy with rfl | hy
          · exact hb
          · exact looseEqZero_of_allZero h' y hy

theorem hasText_cells {label : String} {values : List Operand} (h : HasText values) :
    HasText (cells label values) :=
  ((HasText.nil.cons rfl).cons rfl |>.cons rfl |>.cons rfl |>.append h).append (HasText.nil.cons rfl)

theorem hasText_row {left right : List Operand} (hl : HasText left) (hr : HasText right) :
    HasText (row left right) :=
  ((hl.cons rfl).append (hr.cons rfl)).append (HasText.nil.cons rfl)

/-- The table shows the tested prices and no others. -/
theorem quoteTable_isSome {g : Globals} (h : allZero g zeroTested = some true) :
    (quoteTable g).isSome := by
  have hval : ∀ x ∈ zeroTested, (Operand.val (g x)).text.isSome := fun x hx =>
    toText_of_zero (looseEqZero_of_allZero h x hx)
  have hone : ∀ label, ∀ x ∈ zeroTested, HasText (cells label [.val (g x)]) :=
    fun label x hx => hasText_cells (HasText.nil.cons (hval x hx))
  have htwo : ∀ label, ∀ x ∈ zeroTested, ∀ y ∈ zeroTested,
      HasText (cells label [.val (g x), .lit "-", .val (g y)]) := fun label x hx y hy =>
    hasText_cells (((HasText.nil.cons (hval y hy)).cons rfl).cons (hval x hx))
  refine concat_isSome (HasText.cons rfl ?_)
  refine (((((hasText_row ?_ ?_).append (hasText_row ?_ ?_)).append (hasText_row ?_ ?_)).append
    (hasText_row ?_ ?_)).append (hasText_row ?_ ?_)).append (HasText.nil.cons rfl)
  · exact hone _ .prev_close (by decide)
  · exact htwo _ .daylow_val (by decide) .dayhigh_val (by decide)
  · exact hone _ .open1 (by decide)
  · exact htwo _ .yearlow_val (by decide) .yearhigh_val (by decide)
  · exact hone _ .bid (by decide)
  · exact hone _ .volume (by decide)
  · exact hone _ .ask (by decide)
  · exact hone _ .adv_val (by decide)
  · exact hone _ .oneyeartargetprice (by decide)
  · exact hone _ .market_capitalization (by decide)

/-! ## The response of the failed search -/

section Response
variable {w w' : Window} {i status : Nat} {content : Text}

theorem not_zeroQuote_of {g : Globals} {b : Option Bool}
    (hg : Reads (Rfc8259.parse content) g) (hz : allZero g zeroTested = b) (hb : b ≠ some true) :
    ¬ ZeroQuote content := by
  rintro ⟨g', hg', hz'⟩
  cases hg.unique hg'
  exact hb (hz.symm.trans hz')

theorem not_zeroQuote_nil : ¬ ZeroQuote [] := fun ⟨_, hg, _⟩ => not_reads_nil hg

/-- With status 200, the body decides. -/
theorem Handled.failureShown_iff {r : Except TypeError Unit} (h : Handled i content w r w') :
    FailureShown w' ↔
      (content = [] ∧ NothingToRender w) ∨ (ZeroQuote content ∧ w.pending = []) := by
  have hsilent : ∀ {g : Globals} {b : Option Bool}, Reads (Rfc8259.parse content) g →
      allZero g zeroTested = b → b ≠ some true → w'.errormessage = [] →
      (FailureShown w' ↔
        (content = [] ∧ NothingToRender w) ∨ (ZeroQuote content ∧ w.pending = [])) := by
    intro g b hg hz hb he
    constructor
    · intro hshown
      exact absurd (he.symm.trans ((settled_iff w').mp hshown).1.errormessage) nil_ne_notAvailable
    · rintro (⟨rfl, -⟩ | ⟨hzero, -⟩)
      · exact (not_reads_nil hg).elim
      · exact absurd hzero (not_zeroQuote_of hg hz hb)
  cases h with
  | empty hc =>
      subst hc
      rw [settled_iff]
      constructor
      · rintro ⟨-, hn⟩
        exact .inl ⟨rfl, hn⟩
      · rintro (⟨-, hn⟩ | ⟨hzero, -⟩)
        · exact ⟨⟨rfl, rfl, rfl, rfl, rfl⟩, hn⟩
        · exact absurd hzero not_zeroQuote_nil
  | unread x g hc hx =>
      constructor
      · intro hshown
        exact absurd ((settled_iff _).mp hshown).1.errormessage nil_ne_notAvailable
      · rintro (⟨hnil, -⟩ | ⟨⟨g', hg', -⟩, -⟩)
        · exact absurd hnil hc
        · exact nomatch hx.symm.trans (hg' x)
  | zero g hg hz =>
      rw [settled_iff]
      constructor
      · rintro ⟨-, hn | hnone⟩
        · exact .inr ⟨⟨g, hg, hz⟩, hn⟩
        · have hsome := quoteTable_isSome hz
          rw [show quoteTable g = none from hnone] at hsome
          exact nomatch hsome
      · rintro (⟨rfl, -⟩ | ⟨-, hp⟩)
        · exact (not_reads_nil hg).elim
        · exact ⟨⟨rfl, rfl, rfl, rfl, rfl⟩, .inl hp⟩
  | untested g hg hz => exact hsilent hg hz nofun rfl
  | unnamed g hg hz _ => exact hsilent hg hz (by decide) rfl
  | unfinished g buff hg hz _ _ => exact hsilent hg hz (by decide) rfl
  | complete g buff newslist img1 hg hz _ _ _ => exact hsilent hg hz (by decide) rfl

omit [Floating] in
theorem getElem?_receive {r : Xhr} (hr : w.xhrs[i]? = some r) :
    (w.receive i 4 status content).xhrs[i]? =
      some { r with readyState := 4, status := status, responseText := content } := by
  show (w.xhrs.modify i _)[i]? = _
  rw [List.getElem?_modify_eq, hr]
  rfl

/-- With another status the handler does nothing. -/
theorem after_failed {r : Xhr} (hreq : w.req = .object i) (hr : w.xhrs[i]? = some r)
    (hst : status ≠ 200) :
    (w.receive i 4 status content).after changeRequest = w.receive i 4 status content := by
  rcases changeRequest_cases (w.receive i 4 status content) with
    ⟨-, heq⟩ | ⟨j, c, ⟨r', hq, hr', -, h₂₀₀, -⟩, -⟩
  · exact heq
  · cases hreq.symm.trans hq
    cases (getElem?_receive hr).symm.trans hr'
    exact absurd h₂₀₀ hst

/-- **When a failure is announced.**  The response to the current search ends
it, with any status and any body; the failure screen is there and stays exactly
when `Announced` says so. -/
theorem failure_is_announced_iff (hreq : w.req = .object i)
    (hs : page.step w (.readystatechange i 4 status content) = some w') :
    FailureShown w' ↔ Announced w status content := by
  obtain ⟨r, hr, h⟩ := Option.bind_eq_some_iff.mp hs
  by_cases hc : r.canChange 4 = true
  · rw [if_pos hc] at h
    cases h
    by_cases h₂₀₀ : status = 200
    · have hresp : Responds (w.receive i 4 status content) i content :=
        ⟨_, hreq, getElem?_receive hr, rfl, h₂₀₀, rfl⟩
      rcases changeRequest_cases (w.receive i 4 status content) with ⟨hidle, -⟩ | ⟨j, c, hj, hh⟩
      · exact absurd hresp (hidle i content)
      · obtain ⟨rfl, rfl⟩ := hresp.unique hj
        rw [hh.failureShown_iff]
        constructor
        · rintro (⟨hnil, hn⟩ | ⟨hzero, hp⟩)
          · exact .inl ⟨h₂₀₀, hnil, hn⟩
          · exact .inr (.inl ⟨h₂₀₀, hzero, hp⟩)
        · rintro (⟨-, hnil, hn⟩ | ⟨-, hzero, hp⟩ | ⟨hne, -⟩)
          · exact .inl ⟨hnil, hn⟩
          · exact .inr ⟨hzero, hp⟩
          · exact absurd h₂₀₀ hne
    · rw [after_failed hreq hr h₂₀₀, settled_iff]
      constructor
      · rintro ⟨hw, hn⟩
        exact .inr (.inr ⟨h₂₀₀, ⟨hw.data_display, hw.img, hw.demoo, hw.fbpost,
          hw.errormessage⟩, hn⟩)
      · rintro (⟨h, -⟩ | ⟨h, -⟩ | ⟨-, hw, hn⟩)
        · exact absurd h h₂₀₀
        · exact absurd h h₂₀₀
        · exact ⟨⟨hw.data_display, hw.img, hw.demoo, hw.fbpost, hw.errormessage⟩, hn⟩
  · rw [if_neg hc] at h
    exact nomatch h

end Response

/-! ## A failed search after one that shows a stock -/

/-- A stock is shown, its tab view is rendered, and a second search is under
way. -/
def Window.secondSearch (a table : Text) : Window :=
  (((Window.answered a).showing 0 a).viewing table ((headlinesOf a).getD [])).getXMLHttpRequest
    ['B'] .sent

theorem reachable_secondSearch {a table : Text} (h : showable a = true)
    (ht : tableOf a = some table) : page.Reachable (Window.secondSearch a table) := by
  have hview := step_tabview ((Window.answered a).showing 0 a) 0 rfl ht
  have hsearch : page.step (((Window.answered a).showing 0 a).viewing table
      ((headlinesOf a).getD [])) (.search ['B'] .sent) = some (.secondSearch a table) := rfl
  have hshown : page.Reachable ((Window.answered a).showing 0 a) := ⟨_, run_searchRun h⟩
  exact (hshown.step hview).step hsearch

theorem secondSearch_requests (a table : Text) : (Window.secondSearch a table).req = .object 1 ∧
    (Window.secondSearch a table).xhrs[1]? = some ⟨['B'], true, 1, 0, []⟩ ∧
    (Window.secondSearch a table).pending = [] :=
  ⟨rfl, rfl, rfl⟩

theorem secondSearch_screen (a table : Text) : (Window.secondSearch a table).data_display =
    (summary (globalsOf (Rfc8259.parse a))).getD [] ∧
    (Window.secondSearch a table).errormessage = [] :=
  ⟨rfl, rfl⟩

/-- When the second search ends with status 500 the first stock stays, and no
message is shown. -/
theorem stock_stays (a table : Text) :
    page.step (.secondSearch a table) (.readystatechange 1 4 500 []) =
      some ((Window.secondSearch a table).receive 1 4 500 []) ∧
    ((Window.secondSearch a table).receive 1 4 500 []).data_display =
      (summary (globalsOf (Rfc8259.parse a))).getD [] ∧
    ((Window.secondSearch a table).receive 1 4 500 []).errormessage = [] := by
  obtain ⟨hreq, hr, -⟩ := secondSearch_requests a table
  refine ⟨?_, secondSearch_screen a table⟩
  rw [step_readystatechange hr rfl, after_failed hreq hr (by decide)]

theorem not_failureShown {w : Window} (h : w.data_display ≠ []) : ¬ FailureShown w :=
  fun hw => h (hw [] w rfl).data_display

end Failed

/-- The response for a symbol that does not exist. -/
def unknownTree : Rfc8259.Json :=
  stock "XYZW" "XYZW" ("-" :: "0.00" :: "0.00%" :: List.replicate 13 "0.00") []

def unknown : Text := Rfc8259.print unknownTree

theorem parse_unknown : Rfc8259.parse unknown = some unknownTree := parse_stock _ _ _ _

attribute [local instance] Floating.unbounded

theorem zeroQuote_unknown : ZeroQuote unknown := by
  refine ⟨globalsOf (Rfc8259.parse unknown), reads_globalsOf ?_, ?_⟩
  · rw [parse_unknown]
    decide +kernel
  · rw [parse_unknown]
    decide +kernel

theorem summary_apple : (summary (globalsOf (Rfc8259.parse apple))).getD [] ≠ [] := by
  rw [parse_apple]
  decide +kernel

/-- The second search is for a symbol that does not exist. -/
theorem failure_is_announced_unknown :
    ∃ w w', page.Reachable w ∧ w.data_display ≠ [] ∧
      page.step w (.readystatechange 1 4 200 unknown) = some w' ∧ FailureShown w' := by
  obtain ⟨table, ht⟩ := exists_tableOf_apple
  obtain ⟨hreq, hr, hpending⟩ := secondSearch_requests apple table
  have hstep : page.step (.secondSearch apple table) (.readystatechange 1 4 200 unknown) = _ :=
    step_readystatechange hr rfl
  refine ⟨_, _, reachable_secondSearch showable_apple ht, ?_, hstep,
    (failure_is_announced_iff hreq hstep).mpr (.inr (.inl ⟨rfl, zeroQuote_unknown, hpending⟩))⟩
  rw [(secondSearch_screen apple table).1]
  exact summary_apple

theorem failure_keeps_earlier_stock :
    ∃ w w', page.Reachable w ∧ w.req = .object 1 ∧
      page.step w (.readystatechange 1 4 500 []) = some w' ∧ w'.data_display ≠ [] ∧
      w'.errormessage = [] ∧ ¬ FailureShown w' := by
  obtain ⟨table, ht⟩ := exists_tableOf_apple
  obtain ⟨hstep, hdisplay, hmessage⟩ := stock_stays apple table
  have hstock := hdisplay.trans_ne summary_apple
  exact ⟨_, _, reachable_secondSearch showable_apple ht, (secondSearch_requests apple table).1,
    hstep, hstock, hmessage, not_failureShown hstock⟩

end WebTech.Page
