/-
# `WebTech.Handler` — the ends of changeRequest

`Handled i content w r w'`: handling the response `content` in the window `w`
ends with `r` and leaves `w'`.  There is one constructor for each place the
script can end at, and every run of `respond` is one of them.

    the assignments reach every variable, or stop at a TypeError   (`exec_readGlobals`)
    every run of respond ends as Handled says                      (`respond_handled`)
    a response that can be shown is shown                          (`Handled.eq_complete`)
-/
import WebTech.Page

namespace WebTech.Page

open Ecma Ecma.Script

variable [Floating]

/-- Every variable's expression has a value, and `g` holds them. -/
def Reads (printval : Value) (g : Globals) : Prop := ∀ x, getPath printval x.path = some (g x)

def Window.read (w : Window) (g : Globals) : Window := { w with globals := g }

omit [Floating] in
@[simp] theorem read_globals (w : Window) (g : Globals) : (w.read g).globals = g := rfl

inductive Handled (i : Nat) (content : Text) (w : Window) :
    Except TypeError Unit → Window → Prop
  /-- The body is empty. -/
  | empty :
      content = [] → Handled i content w (.ok ⟨⟩) w.cleared.message
  /-- No JSON, or a member is missing on the way to a variable. -/
  | unread (x : Global) (g : Globals) :
      content ≠ [] → getPath (Rfc8259.parse content) x.path = none →
      Handled i content w (.error .typeError) (w.cleared.read g)
  /-- The comparison with `'0.00'` throws. -/
  | untested (g : Globals) :
      Reads (Rfc8259.parse content) g → allZero g zeroTested = none →
      Handled i content w (.error .typeError) (w.cleared.read g)
  | zero (g : Globals) :
      Reads (Rfc8259.parse content) g → allZero g zeroTested = some true →
      Handled i content w (.ok ⟨⟩) (w.cleared.read g).message
  /-- The summary throws, after the button is in place. -/
  | unnamed (g : Globals) :
      Reads (Rfc8259.parse content) g → allZero g zeroTested = some false → summary g = none →
      Handled i content w (.error .typeError) (w.cleared.read g).post
  /-- The headlines or the chart throw, after the summary is in place. -/
  | unfinished (g : Globals) (buff : Text) :
      Reads (Rfc8259.parse content) g → allZero g zeroTested = some false →
      summary g = some buff →
      newsList (Rfc8259.parse content) (g .news) = none ∨ chartImg g = none →
      Handled i content w (.error .typeError) ((w.cleared.read g).post.display i buff).rule
  | complete (g : Globals) (buff newslist img1 : Text) :
      Reads (Rfc8259.parse content) g → allZero g zeroTested = some false →
      summary g = some buff → newsList (Rfc8259.parse content) (g .news) = some newslist →
      chartImg g = some img1 →
      Handled i content w (.ok ⟨⟩)
        ((((w.cleared.read g).post.display i buff).rule.chart img1).schedule newslist)

/-! ## The assignments -/

omit [Floating] in
theorem mem_assignments (x : Global) : x ∈ assignments := by
  cases x <;> decide

omit [Floating] in
/-- **The assignments**: they go through and the variables hold the response's
values, or one of them throws. -/
theorem exec_readGlobals (printval : Value) : ∀ (xs : List Global) (w : Window),
    (∃ g : Globals, (∀ x ∈ xs, getPath printval x.path = some (g x)) ∧
      (∀ x, x ∉ xs → g x = w.globals x) ∧
      exec (readGlobals printval xs) w = (.ok ⟨⟩, w.read g)) ∨
    (∃ x ∈ xs, getPath printval x.path = none ∧
      ∃ g : Globals,
        exec (readGlobals printval xs) w = (.error .typeError, w.read g))
  | [], w => .inl ⟨w.globals, nofun, fun _ _ => rfl, rfl⟩
  | x :: xs, w => by
      rw [readGlobals]
      cases hx : getPath printval x.path with
      | none => exact .inr ⟨x, List.mem_cons_self, hx, w.globals, exec_none_bind _ w⟩
      | some v =>
          rw [exec_some_bind, exec_modify_bind]
          rcases exec_readGlobals printval xs (w.assign x v) with
            ⟨g, hmem, hother, he⟩ | ⟨y, hy, hnone, g, he⟩
          · refine .inl ⟨g, ?_, ?_, he⟩
            · intro y hy
              by_cases hyx : y ∈ xs
              · exact hmem y hyx
              · rcases List.mem_cons.mp hy with rfl | hy
                · rw [hother y hyx, hx]
                  exact congrArg some (Function.update_self y v w.globals).symm
                · exact absurd hy hyx
            · intro y hy
              rw [List.mem_cons, not_or] at hy
              rw [hother y hy.2]
              exact Function.update_of_ne hy.1 v w.globals
          · exact .inr ⟨y, List.mem_cons_of_mem x hy, hnone, g, he⟩

/-! ## The whole handler -/

omit [Floating] in
theorem not_reads_nil {g : Globals} (h : Reads (Rfc8259.parse []) g) : False :=
  nomatch h .nameval

/-- **Every run of the handler** is one of the ends of `Handled`. -/
theorem respond_handled (i : Nat) (content : Text) (w : Window) :
    Handled i content w (exec (respond i content) w).1 (exec (respond i content) w).2 := by
  rw [respond, exec_modify_bind]
  by_cases hc : content = []
  · rw [if_pos hc]
    exact .empty hc
  rw [if_neg hc]
  rcases exec_readGlobals (Rfc8259.parse content) assignments w.cleared with
    ⟨g, hmem, -, he⟩ | ⟨x, -, hnone, g, he⟩
  · have hreads : Reads (Rfc8259.parse content) g := fun x => hmem x (mem_assignments x)
    rw [exec_bind_ok he, exec_get_bind, read_globals]
    cases hz : allZero g zeroTested with
    | none =>
        rw [exec_none_bind]
        exact .untested g hreads hz
    | some zero =>
        rw [exec_some_bind]
        cases zero with
        | true =>
            rw [if_pos rfl]
            exact .zero g hreads hz
        | false =>
            rw [if_neg (by decide), exec_modify_bind]
            cases hs : summary g with
            | none =>
                rw [exec_none_bind]
                exact .unnamed g hreads hz hs
            | some buff =>
                rw [exec_some_bind, exec_modify_bind, exec_modify_bind]
                cases hn : newsList (Rfc8259.parse content) (g .news) with
                | none =>
                    rw [exec_none_bind]
                    exact .unfinished g buff hreads hz hs (.inl hn)
                | some newslist =>
                    rw [exec_some_bind]
                    cases hi : chartImg g with
                    | none =>
                        rw [exec_none_bind]
                        exact .unfinished g buff hreads hz hs (.inr hi)
                    | some img1 =>
                        rw [exec_some_bind, exec_modify_bind]
                        exact .complete g buff newslist img1 hreads hz hs hn hi
  · rw [exec_bind_error he]
    exact .unread x g hc hnone

/-! ## Which end it is -/

omit [Floating] in
theorem Reads.unique {printval : Value} {g g' : Globals} (h : Reads printval g)
    (h' : Reads printval g') : g = g' :=
  funext fun x => Option.some.inj ((h x).symm.trans (h' x))

/-- The variables' values, where they have one. -/
def globalsOf (printval : Value) : Globals := fun x => (getPath printval x.path).getD none

/-- Whether all the assignments go through. -/
def readable (printval : Value) : Bool :=
  assignments.all fun x => (getPath printval x.path).isSome

omit [Floating] in
theorem reads_globalsOf {printval : Value} (h : readable printval = true) :
    Reads printval (globalsOf printval) := by
  intro x
  have hx := List.all_eq_true.mp h x (mem_assignments x)
  obtain ⟨v, hv⟩ := Option.isSome_iff_exists.mp hx
  rw [globalsOf, hv]
  rfl

/-- Leaves have texts, so the summary is built. -/
theorem summary_isSome {g : Globals} (h : ∀ x, x ≠ .news → isLeaf (g x) = true) :
    (summary g).isSome := by
  have hval : ∀ x : Global, x ≠ .news → (Operand.val (g x)).text.isSome := fun x hx =>
    toText_isSome (h x hx)
  refine concat_isSome ?_
  simp only [HasText, List.forall_mem_cons]
  exact ⟨rfl, hval _ nofun, rfl, hval _ nofun, rfl, hval _ nofun, rfl, rfl, rfl, hval _ nofun,
    rfl, hval _ nofun, rfl, nofun⟩

theorem chartImg_isSome {g : Globals} (h : ∀ x, x ≠ .news → isLeaf (g x) = true) :
    (chartImg g).isSome := by
  have himg : (Operand.val (g .stock_chart_img)).text.isSome := toText_isSome (h _ nofun)
  exact concat_isSome (((HasText.nil.cons rfl).cons himg).cons rfl)

section Ends
variable {i : Nat} {content : Text} {w w' : Window} {r : Except TypeError Unit} {g : Globals}

/-- A response whose texts can all be built, and which is not all zeros, is
shown. -/
theorem Handled.eq_complete {buff newslist img1 : Text} (h : Handled i content w r w')
    (hg : Reads (Rfc8259.parse content) g) (hz : allZero g zeroTested = some false)
    (hs : summary g = some buff)
    (hn : newsList (Rfc8259.parse content) (g .news) = some newslist)
    (hi : chartImg g = some img1) :
    r = .ok ⟨⟩ ∧
      w' = (((w.cleared.read g).post.display i buff).rule.chart img1).schedule newslist := by
  cases h with
  | empty hc => exact (not_reads_nil (hc ▸ hg)).elim
  | unread x _ _ hx => exact nomatch hx.symm.trans (hg x)
  | untested g' hg' hz' | zero g' hg' hz' =>
      cases hg.unique hg'
      exact nomatch hz.symm.trans hz'
  | unnamed g' hg' _ hs' =>
      cases hg.unique hg'
      exact nomatch hs.symm.trans hs'
  | unfinished g' _ hg' _ _ hbad =>
      cases hg.unique hg'
      rcases hbad with hn' | hi'
      · exact nomatch hn.symm.trans hn'
      · exact nomatch hi.symm.trans hi'
  | complete g' _ _ _ hg' _ hs' hn' hi' =>
      cases hg.unique hg'
      cases hs.symm.trans hs'
      cases hn.symm.trans hn'
      cases hi.symm.trans hi'
      exact ⟨rfl, rfl⟩

/-- A response of zeros is announced. -/
theorem Handled.eq_zero (h : Handled i content w r w') (hg : Reads (Rfc8259.parse content) g)
    (hz : allZero g zeroTested = some true) : r = .ok ⟨⟩ ∧ w' = (w.cleared.read g).message := by
  cases h with
  | empty hc => exact (not_reads_nil (hc ▸ hg)).elim
  | unread x _ _ hx => exact nomatch hx.symm.trans (hg x)
  | zero g' hg' _ =>
      cases hg.unique hg'
      exact ⟨rfl, rfl⟩
  | untested g' hg' hz' | unnamed g' hg' hz' _ | unfinished g' _ hg' hz' _ _
  | complete g' _ _ _ hg' hz' _ _ _ =>
      cases hg.unique hg'
      exact nomatch hz.symm.trans hz'

theorem Handled.eq_empty (h : Handled i [] w r w') : r = .ok ⟨⟩ ∧ w' = w.cleared.message := by
  cases h with
  | empty _ => exact ⟨rfl, rfl⟩
  | unread _ _ hc _ => exact absurd rfl hc
  | untested _ hg | zero _ hg | unnamed _ hg | unfinished _ _ hg | complete _ _ _ _ hg =>
      exact (not_reads_nil hg).elim

/-- A response without headlines or a chart is shown up to there. -/
theorem Handled.eq_unfinished {buff : Text} (h : Handled i content w r w')
    (hg : Reads (Rfc8259.parse content) g) (hz : allZero g zeroTested = some false)
    (hs : summary g = some buff)
    (hbad : newsList (Rfc8259.parse content) (g .news) = none ∨ chartImg g = none) :
    r = .error .typeError ∧ w' = ((w.cleared.read g).post.display i buff).rule := by
  cases h with
  | empty hc => exact (not_reads_nil (hc ▸ hg)).elim
  | unread x _ _ hx => exact nomatch hx.symm.trans (hg x)
  | untested g' hg' hz' | zero g' hg' hz' =>
      cases hg.unique hg'
      exact nomatch hz.symm.trans hz'
  | unnamed g' hg' _ hs' =>
      cases hg.unique hg'
      exact nomatch hs.symm.trans hs'
  | unfinished g' _ hg' _ hs' _ =>
      cases hg.unique hg'
      cases hs.symm.trans hs'
      exact ⟨rfl, rfl⟩
  | complete g' _ _ _ hg' _ _ hn' hi' =>
      cases hg.unique hg'
      rcases hbad with hn | hi
      · exact nomatch hn.symm.trans hn'
      · exact nomatch hi.symm.trans hi'

end Ends

end WebTech.Page
