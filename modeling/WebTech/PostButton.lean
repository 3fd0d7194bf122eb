/-
# `WebTech.PostButton` — what the post button would send

`postFB` reads seven variables that `changeRequest` overwrites one by one and
that a TypeError can leave half overwritten.  The button is on the page only
after all of them are assigned, and every response takes it away first.

    leaves have texts, so the summary is shown with the button    (`isLeaf_of_reads`)
    the button is there only with a response's summary, its chart
    or none, no message, and that response's variables            (`Posted`, `posted`)

The runs are those whose responses have no array or object where a text is
expected: an object can make the summary throw when the button is already in
place.
-/
import WebTech.EventLoop

namespace WebTech.Page

open Ecma Ecma.Script

section Button
variable [Floating]

/-! ## What is sent -/

/-- The feed dialog's arguments. -/
structure FeedDialog where
  name : Value
  caption : Text
  description : Text
  link : Text
  picture : Value

/-- `postFB`, up to the dialog's arguments. -/
def postFB (g : Globals) : Option FeedDialog := do
  return {
    name := g .nameval
    caption := ← concat [.lit "Stock Information of ", .val (g .nameval), .lit "(",
      .val (g .symbolval), .lit ")"]
    description := ← concat [.lit "Last Trade Price:", .val (g .lasttradeprice_val),
      .lit ", Change:", .val (g .changetype_val), .val (g .change_val), .lit "(",
      .val (g .changepercent_val), .lit ")"]
    link := ← concat [.lit "http://finance.yahoo.com/q?s=", .val (g .symbolval)]
    picture := g .stock_chart_img }

/-- The variables `postFB` reads. -/
def postedGlobals : List Global :=
  [.nameval, .symbolval, .lasttradeprice_val, .changetype_val, .change_val, .changepercent_val,
    .stock_chart_img]

theorem postFB_congr {g g' : Globals} (h : ∀ x ∈ postedGlobals, g x = g' x) :
    postFB g = postFB g' := by
  simp only [postedGlobals, List.forall_mem_cons] at h
  obtain ⟨h₁, h₂, h₃, h₄, h₅, h₆, h₇, -⟩ := h
  rw [postFB, postFB, h₁, h₂, h₃, h₄, h₅, h₆, h₇]

/-! ## Leaves -/

/-- Every variable but `news` is a leaf, if it is read at all. -/
def leaves (content : Text) : Bool :=
  assignments.all fun x => x = .news || (getPath (Rfc8259.parse content) x.path).all isLeaf

/-- The event brings no response, or one with leaves for texts. -/
def LeafBodies (_ : Window) : Event → Prop
  | .readystatechange _ _ _ responseText => leaves responseText = true
  | .search _ _ | .tabview _ => True

instance decLeafBodies (w : Window) : ∀ (e : Event), Decidable (LeafBodies w e)
  | .readystatechange _ _ _ responseText => inferInstanceAs (Decidable (leaves responseText = true))
  | .search _ _ | .tabview _ => isTrue trivial

omit [Floating] in
theorem isLeaf_of_reads {content : Text} {g : Globals} (h : leaves content = true)
    (hg : Reads (Rfc8259.parse content) g) {x : Global} (hx : x ≠ .news) :
    isLeaf (g x) = true := by
  have hx' := List.all_eq_true.mp h x (mem_assignments x)
  rw [hg x, decide_eq_false hx, Bool.false_or] at hx'
  exact hx'

/-- A summary is never empty. -/
theorem summary_ne_nil {g : Globals} : summary g ≠ some [] := by
  intro h
  obtain ⟨u, v, hu, -, huv⟩ := concat_cons.mp h
  cases hu
  exact nomatch huv

/-! ## The invariant -/

/-- The button, if it is there, stands by the summary of a response that the
variables hold. -/
def Posted (w : Window) : Prop :=
  w.fbpost = [] ∨
  ∃ i content, Received w i content ∧ Reads (Rfc8259.parse content) w.globals ∧
    summary w.globals = some w.data_display ∧
    (w.img = [] ∨ chartImg w.globals = some w.img) ∧ w.errormessage = []

/-- The texts of all objects are responses with leaves. -/
def AllLeaves (w : Window) : Prop := ∀ r ∈ w.xhrs, leaves r.responseText = true

theorem Handled.posted {i : Nat} {content : Text} {w w' : Window} {r : Except TypeError Unit}
    (h : Handled i content w r w') (hl : leaves content = true)
    (hrec : Received w' i content) : Posted w' := by
  cases h with
  | empty _ => exact .inl rfl
  | unread _ _ _ _ => exact .inl rfl
  | untested _ _ _ => exact .inl rfl
  | zero _ _ _ => exact .inl rfl
  | unnamed g hg _ hs =>
      have := summary_isSome fun _ => isLeaf_of_reads hl hg
      rw [hs] at this
      exact nomatch this
  | unfinished g buff hg _ hs _ =>
      exact .inr ⟨i, content, hrec, hg, hs, .inl rfl, rfl⟩
  | complete g buff newslist img1 hg _ hs _ hi =>
      exact .inr ⟨i, content, hrec, hg, hs, .inr hi, rfl⟩

omit [Floating] in
theorem AllLeaves.receive {w : Window} (h : AllLeaves w) (i st status : Nat) {text : Text}
    (ht : leaves text = true) : AllLeaves (w.receive i st status text) := by
  intro x hx
  obtain ⟨j, hj⟩ := List.mem_iff_getElem?.mp hx
  have hj' := (List.getElem?_modify _ i w.xhrs j).symm.trans hj
  obtain ⟨r, hr, hx'⟩ := Option.map_eq_some_iff.mp hj'
  by_cases hij : i = j
  · rw [if_pos hij] at hx'
    cases hx'
    exact ht
  · rw [if_neg hij] at hx'
    cases hx'
    exact h _ (List.mem_of_getElem? hr)

/-- Neither a request nor a tab view touches what the button stands by. -/
theorem Posted.frame {w w' : Window} (h : Posted w) (hf : w'.fbpost = w.fbpost)
    (hg : w'.globals = w.globals) (hd : w'.data_display = w.data_display) (hi : w'.img = w.img)
    (he : w'.errormessage = w.errormessage)
    (hr : ∀ i content, Received w i content → Received w' i content) : Posted w' := by
  rcases h with h | ⟨i, content, h₁, h₂, h₃, h₄, h₅⟩
  · exact .inl (hf.trans h)
  · refine .inr ⟨i, content, hr i content h₁, ?_⟩
    rw [hg, hd, hi, he]
    exact ⟨h₂, h₃, h₄, h₅⟩

/-- The three parts of the invariant that go from step to step. -/
structure Postable (w : Window) : Prop where
  objects : Objects w
  bodies : AllLeaves w
  posted : Posted w

theorem Postable.step {w w' : Window} {e : Event} (h : Postable w) (hl : LeafBodies w e)
    (hs : Page.step w e = some w') : Postable w' := by
  have ho := h.objects.step hs
  have hkeep : ∀ i content, Received w i content → Received w' i content :=
    fun i content hr => hr.step hs
  rcases step_cases hs with ⟨url, s, rfl⟩ | ⟨i, r, st, status, text, rfl, hr, hc, hend⟩ |
    ⟨k, newslist, -, ⟨-, rfl⟩ | ⟨content, -, rfl⟩⟩
  · obtain ⟨xs, req, heq, hxs⟩ := getXMLHttpRequest_eq w url s
    rw [heq] at ho hkeep ⊢
    refine ⟨ho, fun x hx => ?_, h.posted.frame rfl rfl rfl rfl rfl hkeep⟩
    rcases List.mem_append.mp hx with hx | hx
    · exact h.bodies x hx
    · rw [(hxs x hx).1]
      decide
  · have hleaves := h.bodies.receive i st status hl
    rcases hend with ⟨-, rfl⟩ | ⟨j, content, x, hj, hh⟩
    · exact ⟨ho, hleaves, h.posted.frame rfl rfl rfl rfl rfl hkeep⟩
    · obtain ⟨hx, hq⟩ := hh.frame
      have hj' : Responds w' j content := by
        obtain ⟨r', h₁, h₂, h₃⟩ := hj
        exact ⟨r', hq.trans h₁, hx ▸ h₂, h₃⟩
      have hlc : leaves content = true := by
        obtain ⟨r', -, hr', -, -, htext⟩ := hj
        exact htext ▸ hleaves r' (List.mem_of_getElem? hr')
      exact ⟨ho, fun y hy => hleaves y (hx ▸ hy), hh.posted hlc (hj'.received ho).1⟩
  · exact ⟨ho, h.bodies, h.posted.frame rfl rfl rfl rfl rfl hkeep⟩
  · exact ⟨ho, h.bodies, h.posted.frame rfl rfl rfl rfl rfl hkeep⟩

theorem postable {w : Window} (h : (page.guarded LeafBodies).Reachable w) : Postable w :=
  Machine.guarded_invariant (M := page) ⟨⟨nofun, nofun⟩, nofun, .inl rfl⟩
    (fun hs hl ht => hs.step hl ht) h

/-- **What the button sends is what is on the screen**, in every state of every
run: the summary shown is a response's, the variables that `postFB` reads are
that response's, the chart is its chart or none is shown, and no message is. -/
theorem posted_is_displayed (w : Window) (h : (page.guarded LeafBodies).Reachable w)
    (hp : w.fbpost ≠ []) :
    w.data_display ≠ [] ∧ w.errormessage = [] ∧
    ∃ i content g, Received w i content ∧ Reads (Rfc8259.parse content) g ∧
      summary g = some w.data_display ∧ (∀ x ∈ postedGlobals, w.globals x = g x) ∧
      postFB w.globals = postFB g ∧ (w.img = [] ∨ chartImg g = some w.img) := by
  rcases (postable h).posted with hnil | ⟨i, content, hrec, hg, hs, hi, he⟩
  · exact absurd hnil hp
  · refine ⟨fun hd => ?_, he, i, content, w.globals, hrec, hg, hs, fun _ _ => rfl, rfl, hi⟩
    rw [hd] at hs
    exact summary_ne_nil hs

omit [Floating] in
theorem leaves_of_parse {content : Text} {v : Rfc8259.Json} (h : Rfc8259.parse content = some v) :
    leaves content = assignments.all fun x => x = .news || (getPath (some v) x.path).all isLeaf := by
  rw [leaves, h]

end Button

theorem fb_button_ne_nil : fb_button ≠ [] := by decide +kernel

theorem leaves_apple : leaves apple = true := (leaves_of_parse parse_apple).trans (by decide +kernel)
theorem leaves_cisco : leaves cisco = true := (leaves_of_parse parse_cisco).trans (by decide +kernel)

attribute [local instance] Floating.unbounded

theorem posted_is_displayed_lateRun :
    ∃ w, (page.guarded LeafBodies).Reachable w ∧ w.fbpost = fb_button ∧ w.data_display ≠ [] ∧
      w.errormessage = [] := by
  obtain ⟨table, ht⟩ := exists_tableOf_cisco
  have hrun := guarded_lateRun (G := LeafBodies) (u := ['A']) (v := ['B']) (a := apple)
    showable_cisco ht (fun _ _ => trivial) (fun _ _ => leaves_apple) (fun _ _ => leaves_cisco) fun _ _ => trivial
  have hbutton := late_fbpost ['A'] ['B'] apple cisco table
  obtain ⟨hd, he, -⟩ := posted_is_displayed _ ⟨_, hrun⟩ (hbutton ▸ fb_button_ne_nil)
  exact ⟨_, ⟨_, hrun⟩, hbutton, hd, he⟩

end WebTech.Page
