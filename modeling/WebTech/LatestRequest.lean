/-
# `WebTech.LatestRequest` — the stock on display is the latest request's

`changeRequest` is the handler of every object and reads the variable `req`,
which always names the newest object.  So whichever object's event runs it,
what it shows is the newest request's answer, or nothing.

    a handler run writes one summary, made of the response it read    (`Handled.display_cases`)
    in a step, that response is the newest request's                  (`step_display`)
    along a run, the requests shown never go back                     (`shownInOrder`)
-/
import WebTech.EventLoop

namespace WebTech.Page

open Ecma Ecma.Script

section Shown
variable [Floating]

/-- The text shown for a response: the summary of its stock. -/
def SummaryOf (content buff : Text) : Prop :=
  ∃ g, Reads (Rfc8259.parse content) g ∧ summary g = some buff

/-- The `i`-th request is the last one that was issued. -/
def LastIssued (w : Window) (i : Nat) : Prop :=
  ∃ r, w.xhrs[i]? = some r ∧ r.sent = true ∧
    ∀ j r', w.xhrs[j]? = some r' → r'.sent = true → j ≤ i

/-- A handler run writes the summary of its response, or leaves
`data_display` empty. -/
theorem Handled.display_cases {i : Nat} {content : Text} {w w' : Window}
    {r : Except TypeError Unit} (h : Handled i content w r w') :
    (w'.shown = w.shown ∧ w'.data_display = []) ∨
    ∃ buff, SummaryOf content buff ∧ w'.shown = w.shown ++ [(i, buff)] ∧
      w'.data_display = buff := by
  cases h with
  | empty _ => exact .inl ⟨rfl, rfl⟩
  | unread _ _ _ _ => exact .inl ⟨rfl, rfl⟩
  | untested _ _ _ => exact .inl ⟨rfl, rfl⟩
  | zero _ _ _ => exact .inl ⟨rfl, rfl⟩
  | unnamed _ _ _ _ => exact .inl ⟨rfl, rfl⟩
  | unfinished g buff hreads _ hs _ => exact .inr ⟨buff, ⟨g, hreads, hs⟩, rfl, rfl⟩
  | complete g buff _ _ hreads _ hs _ _ => exact .inr ⟨buff, ⟨g, hreads, hs⟩, rfl, rfl⟩

omit [Floating] in
theorem Received.lastIssued {w : Window} {i : Nat} {content : Text} (h : Received w i content)
    (hi : i + 1 = w.xhrs.length) : LastIssued w i := by
  obtain ⟨r, hr, hsent, -⟩ := h
  refine ⟨r, hr, hsent, fun j r' hr' _ => ?_⟩
  have := (List.getElem?_eq_some_iff.mp hr').1
  omega

/-- **A step that writes into `data_display`** writes the summary of the answer
to the request issued last; every other step leaves it as it is or empties
it. -/
theorem step_display {w w' : Window} {e : Event} (ho : Objects w) (h : step w e = some w') :
    (w'.shown = w.shown ∧ (w'.data_display = w.data_display ∨ w'.data_display = [])) ∨
    ∃ i content buff, w'.shown = w.shown ++ [(i, buff)] ∧ w'.data_display = buff ∧
      Received w' i content ∧ SummaryOf content buff ∧ LastIssued w' i ∧
      i + 1 = w'.xhrs.length := by
  have ho' := ho.step h
  rcases step_cases h with ⟨url, s, rfl⟩ | ⟨i, r, st, status, text, -, hr, hc, hend⟩ |
    ⟨k, newslist, -, ⟨-, rfl⟩ | ⟨content, -, rfl⟩⟩
  · cases s <;> exact .inl ⟨rfl, .inl rfl⟩
  · rcases hend with ⟨-, rfl⟩ | ⟨j, content, _, hj, hh⟩
    · exact .inl ⟨rfl, .inl rfl⟩
    · obtain ⟨hx, hq⟩ := hh.frame
      have hj' : Responds w' j content := by
        obtain ⟨r', h₁, h₂, h₃⟩ := hj
        exact ⟨r', hq.trans h₁, hx ▸ h₂, h₃⟩
      obtain ⟨hrec, hlast⟩ := hj'.received ho'
      rcases hh.display_cases with ⟨hs, hd⟩ | ⟨buff, hsum, hs, hd⟩
      · exact .inl ⟨hs, .inr hd⟩
      · exact .inr ⟨j, content, buff, hs, hd, hrec, hsum, hrec.lastIssued hlast, hlast⟩
  · exact .inl ⟨rfl, .inl rfl⟩
  · exact .inl ⟨rfl, .inl rfl⟩

/-- No step forgets an object. -/
theorem xhrs_length_step {w w' : Window} {e : Event} (h : step w e = some w') :
    w.xhrs.length ≤ w'.xhrs.length := by
  rcases step_cases h with ⟨url, s, rfl⟩ | ⟨i, r, st, status, text, -, hr, hc, hend⟩ |
    ⟨k, newslist, -, ⟨-, rfl⟩ | ⟨content, -, rfl⟩⟩
  · cases s with
    | noObject => exact Nat.le_refl _
    | unopened | unsent | sent =>
        show _ ≤ (w.xhrs ++ [_]).length
        rw [List.length_append]
        exact Nat.le_add_right _ _
  · have hlen : (w.receive i st status text).xhrs.length = w.xhrs.length := List.length_modify ..
    rcases hend with ⟨-, rfl⟩ | ⟨_, _, _, -, hh⟩
    · exact hlen.ge
    · rw [hh.frame.1]
      exact hlen.ge
  · exact Nat.le_refl _
  · exact Nat.le_refl _

/-- The requests shown so far, each no later than the next, all of them made. -/
structure ShownInOrder (w : Window) : Prop where
  order : (w.shown.map Prod.fst).Pairwise (· ≤ ·)
  made : ∀ p ∈ w.shown, p.1 < w.xhrs.length

theorem ShownInOrder.step {w w' : Window} {e : Event} (ho : Objects w) (h : ShownInOrder w)
    (hs : Page.step w e = some w') : ShownInOrder w' := by
  have hlen := xhrs_length_step hs
  rcases step_display ho hs with ⟨hshown, -⟩ | ⟨i, _, buff, hshown, -, -, -, -, hi⟩
  · refine ⟨hshown ▸ h.order, fun p hp => ?_⟩
    exact Nat.lt_of_lt_of_le (h.made p (hshown ▸ hp)) hlen
  · constructor
    · rw [hshown, List.map_append, List.pairwise_append]
      refine ⟨h.order, List.pairwise_singleton _ _, fun a ha b hb => ?_⟩
      obtain ⟨p, hp, rfl⟩ := List.mem_map.mp ha
      rw [List.mem_singleton.mp hb]
      have := h.made p hp
      show p.1 ≤ i
      omega
    · intro p hp
      rw [hshown] at hp
      rcases List.mem_append.mp hp with hp | hp
      · exact Nat.lt_of_lt_of_le (h.made p hp) hlen
      · rw [List.mem_singleton.mp hp]
        show i < w'.xhrs.length
        omega

theorem shownInOrder {w : Window} (h : page.Reachable w) : ShownInOrder w :=
  (Machine.invariant (M := page) (P := fun w => Objects w ∧ ShownInOrder w)
    ⟨⟨nofun, nofun⟩, ⟨.nil, nofun⟩⟩ (fun hs ht => ⟨hs.1.step ht, hs.2.step hs.1 ht⟩) h).2

/-- **The latest search wins**: every text a step writes into `data_display` is
the summary of the answer to the last request issued, and the requests whose
answers were shown never go back. -/
theorem latest_search_wins (w : Window) (h : page.Reachable w) :
    (∀ e w', page.step w e = some w' →
      (w'.shown = w.shown ∧ (w'.data_display = w.data_display ∨ w'.data_display = [])) ∨
      ∃ i content buff, w'.shown = w.shown ++ [(i, buff)] ∧ w'.data_display = buff ∧
        Received w' i content ∧ SummaryOf content buff ∧ LastIssued w' i) ∧
    (w.shown.map Prod.fst).Pairwise (· ≤ ·) := by
  refine ⟨fun e w' hs => ?_, (shownInOrder h).order⟩
  rcases step_display (objects h) hs with hkeep | ⟨i, content, buff, h₁, h₂, h₃, h₄, h₅, -⟩
  · exact .inl hkeep
  · exact .inr ⟨i, content, buff, h₁, h₂, h₃, h₄, h₅⟩

end Shown

attribute [local instance] Floating.unbounded

theorem latest_search_wins_lateRun :
    ∃ w, page.run page.init (lateRun ['A'] ['B'] apple cisco) = some w ∧
      w.shown.map Prod.fst = [1, 1] ∧ (w.shown.map Prod.fst).Pairwise (· ≤ ·) := by
  obtain ⟨table, ht⟩ := exists_tableOf_cisco
  have hrun := run_lateRun (u := ['A']) (v := ['B']) (a := apple) showable_cisco ht
  exact ⟨_, hrun, (late_screen ['A'] ['B'] apple cisco table).1, (latest_search_wins _ ⟨_, hrun⟩).2⟩

end WebTech.Page
