/-
# `WebTech.SearchOutcome` — a search in the web client, from the backend to the screen

search_stock1.php makes a document of a quote and a feed, search_stock.doGet
makes JSON of it, and `changeRequest` a screen of that.

    the document cannot be read, or every tested column is negligible     the message
    the feed has no item                                                  the summary; a TypeError
    it has one                                                            all but the headlines
    it has more                                                           everything

These are all the outcomes, for any quote and any feed (`search_outcome`).
-/
import WebTech.Headlines
import WebTech.PageElements

namespace WebTech.Servlet

open Ecma Xml Utf8 Rfc8259 Producer Page

section Outcome
variable [Floating] (lib : Libraries) (company : PhpString) (q : Quote) (channel : List ChannelChild)

/-- There is no such stock, as far as the page can tell. -/
def Unavailable : Prop := ¬ Readable lib company q ∨ ∀ c ∈ testedColumns q, Negligible c

/-- A text the script cut or joined itself, as it arrives. -/
def arriving (t : PhpString) : Text := (lib.xmlText t).getD []

/-- The document as it arrives. -/
def arrived : Element Text :=
  received q channel (arriving lib ((encode q.Change).take 1))
    (arriving lib ((encode q.Change).drop 1)) (arriving lib (xml_chart company))

/-- The variables it is read into. -/
def globalsArrived : Globals :=
  globalsReceived lib q channel (arriving lib ((encode q.Change).take 1))
    (arriving lib ((encode q.Change).drop 1)) (arriving lib (xml_chart company))

/-- Its summary and its chart. -/
def summaryArrived : Text := (summary (globalsArrived lib company q channel)).getD []

def chartArrived : Text := (chartImg (globalsArrived lib company q channel)).getD []

/-- The headlines for the tab view: none of a feed with one item. -/
def headlinesArrived : Text :=
  if (items channel).length = 1 then newsNotAvailable else headlines lib channel

/-- How `changeRequest` ends, the elements it leaves, and the headlines it hands
to a tab view. -/
inductive Outcome : Except TypeError Unit → Elements → List Text → Prop
  | unavailable : Unavailable lib company q → Outcome (.ok ⟨⟩) .message []
  | noItem : ¬ Unavailable lib company q → items channel = [] →
      Outcome (.error .typeError) (.stock (summaryArrived lib company q channel) []) []
  | shown : ¬ Unavailable lib company q → items channel ≠ [] →
      Outcome (.ok ⟨⟩) (.stock (summaryArrived lib company q channel)
        (chartArrived lib company q channel)) [headlinesArrived lib channel]

end Outcome

section Documented
variable [Floating] {lib : Libraries} (hlib : lib.Documented) {q : Quote} {channel : List ChannelChild}
  (hxml : FromXml q channel) {company : PhpString}
include hlib

omit [Floating] hlib in
theorem xmlText_arriving {t : PhpString} (h : (lib.xmlText t).isSome) :
    lib.xmlText t = some (arriving lib t) := by
  obtain ⟨s, hs⟩ := Option.isSome_iff_exists.mp h
  rw [arriving, hs]
  rfl

include hxml in
omit [Floating] in
theorem parse_arrived (h : Readable lib company q) :
    parse (answer lib company q channel) = some (toJSONObject lib (arrived lib company q channel)) := by
  obtain ⟨hs, hc, hi⟩ := h
  refine parse_doGet hlib ?_
  rw [traverse_document hlib hxml, xmlText_arriving hs, xmlText_arriving hc, xmlText_arriving hi]
  rfl

theorem summary_arrived : summary (globalsArrived lib company q channel) =
    some (summaryArrived lib company q channel) := by
  obtain ⟨buff, hbuff⟩ := Option.isSome_iff_exists.mp
    (summary_isSome fun x hx => isLeaf_received hlib q channel _ _ _ hx)
  rw [summaryArrived, globalsArrived, hbuff]
  rfl

theorem chart_arrived : chartImg (globalsArrived lib company q channel) =
    some (chartArrived lib company q channel) := by
  obtain ⟨img1, himg⟩ := Option.isSome_iff_exists.mp
    (chartImg_isSome fun x hx => isLeaf_received hlib q channel _ _ _ hx)
  rw [chartArrived, globalsArrived, himg]
  rfl

theorem newsList_arrived (h : items channel ≠ []) :
    newsList (some (toJSONObject lib (arrived lib company q channel)))
      (globalsArrived lib company q channel .news) = some (headlinesArrived lib channel) := by
  show newsList _ (some (value lib (newsReceived channel))) = _
  rw [headlinesArrived]
  cases hitems : items channel with
  | nil => exact absurd hitems h
  | cons i is =>
      cases is with
      | nil =>
          rw [if_pos (List.length_singleton)]
          exact newsList_one hlib _ hitems
      | cons j is =>
          rw [if_neg (by simp), headlines, if_neg h]
          refine newsList_many hlib q _ _ _ ?_
          rw [hitems]
          exact Nat.le_add_left 2 is.length

include hxml

/-- **The outcome of a search**: in any window, a search that brings the answer
for the quote and the feed ends as its document says. -/
theorem search_outcome {w : Window} {i : Nat} (hr : Responds w i (answer lib company q channel)) :
    ∃ headlines, (w.after changeRequest).pending = w.pending ++ headlines ∧
      Outcome lib company q channel (Script.exec changeRequest w).1
        (w.after changeRequest).elements headlines := by
  obtain ⟨hh⟩ : Nonempty (Handled i (answer lib company q channel) w
      (Script.exec changeRequest w).1 (w.after changeRequest)) := by
    rcases changeRequest_cases w with ⟨hidle, -⟩ | ⟨j, c, hj, hh⟩
    · exact absurd hr (hidle _ _)
    · obtain ⟨rfl, rfl⟩ := hr.unique hj
      exact ⟨hh⟩
  generalize (Script.exec changeRequest w).1 = r at hh ⊢
  generalize w.after changeRequest = w' at hh ⊢
  by_cases hread : Readable lib company q
  · have hparse := parse_arrived hlib hxml hread
    have hg := reads_received hlib q channel (arriving lib ((encode q.Change).take 1))
      (arriving lib ((encode q.Change).drop 1)) (arriving lib (xml_chart company))
    have hz := allZero_received hlib q channel (arriving lib ((encode q.Change).take 1))
      (arriving lib ((encode q.Change).drop 1)) (arriving lib (xml_chart company)) zeroTested
      fun _ => id
    rw [← arrived, ← hparse] at hg
    by_cases hall : ∀ c ∈ testedColumns q, Negligible c
    · rw [decide_eq_true (negligible_zeroTested.mpr hall)] at hz
      obtain ⟨rfl, rfl⟩ := hh.eq_zero hg hz
      exact ⟨[], (List.append_nil _).symm, .unavailable (.inr hall)⟩
    · rw [decide_eq_false (negligible_zeroTested.not.mpr hall)] at hz
      have havailable : ¬ Unavailable lib company q := by
        rintro (hnot | h)
        · exact hnot hread
        · exact hall h
      by_cases hitems : items channel = []
      · have hn : newsList (parse (answer lib company q channel))
            (globalsArrived lib company q channel .news) = none := newsList_nil _ hitems
        obtain ⟨rfl, rfl⟩ := hh.eq_unfinished hg hz (summary_arrived hlib) (.inl hn)
        refine ⟨[], (List.append_nil _).symm, ?_⟩
        rw [elements_rule]
        exact .noItem havailable hitems
      · have hn := @newsList_arrived _ lib hlib q channel company hitems
        rw [← hparse] at hn
        obtain ⟨rfl, rfl⟩ := hh.eq_complete hg hz (summary_arrived hlib) hn (chart_arrived hlib)
        refine ⟨_, rfl, ?_⟩
        rw [elements_complete]
        exact .shown havailable hitems
  · rw [answer_nil hlib hxml hread] at hh
    obtain ⟨rfl, rfl⟩ := hh.eq_empty
    exact ⟨[], (List.append_nil _).symm, .unavailable (.inl hread)⟩

end Documented

attribute [local instance] Floating.unbounded

theorem search_outcome_twoItems :
    ∃ headlines,
      ((Window.answered (answer plain (lit "AAPL") ordinaryQuote twoItems)).after
        changeRequest).pending = [] ++ headlines ∧
      Outcome plain (lit "AAPL") ordinaryQuote twoItems
        (Script.exec changeRequest (.answered (answer plain (lit "AAPL") ordinaryQuote twoItems))).1
        ((Window.answered (answer plain (lit "AAPL") ordinaryQuote twoItems)).after
          changeRequest).elements headlines :=
  search_outcome plain_documented ⟨by decide, by decide⟩ ⟨_, rfl, rfl, rfl, rfl, rfl⟩

end WebTech.Servlet
