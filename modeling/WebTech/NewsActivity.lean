/-
# `WebTech.NewsActivity` — the list of headlines and its dialogs

One `NewsActivity` instance.  The list can be filtered by typing, and what it
then shows is decided by the adapter's filter: some of the headlines, in their
order.  A click keeps the position in the field `pos` and opens a dialog; the
dialog's `onClick` looks `pos` up in the arrays of all the headlines.

    event                what the user does                    handler
    filter shown         types, or clears what was typed       the adapter's; the list is `shown` then
    onItemClick i        picks the i-th headline of the list   pos = i; a dialog opens
    onClick k which      picks an entry of the k-th dialog     View opens newslinks[pos]
    dismiss k            leaves the k-th dialog                none

No run leaves the arrays, and what is opened is an item of the response.  It is
the item that was picked as long as the list shows the first headlines, all up
to some point, and dialogs are answered one at a time (`views_of_news`).
-/
import WebTech.News

namespace WebTech.NewsActivity

open Rfc8259 Util MainActivity

/-- What was opened, and the headline its dialog was opened for. -/
structure Opened where
  picked : Text
  view : NewsView
  deriving DecidableEq, Repr

/-- The instance.  `dialogs` has the headline of each open dialog, and `opened`
records the run. -/
structure State where
  adapter : List Text
  pos : Nat
  dialogs : List Text
  opened : List Opened
  /-- An index was out of bounds. -/
  exception : Bool
  deriving Repr

inductive Event where
  | filter (shown : List Text)
  | onItemClick (position : Nat)
  | onClick (dialog which : Nat)
  | dismiss (dialog : Nat)
  deriving DecidableEq, Repr

/-- After `onCreate`. -/
def onCreate (extras : NewsIntent) : State where
  adapter := extras.news
  pos := 0
  dialogs := []
  opened := []
  exception := false

/-- `onClick`, in the dialog for the headline `picked`. -/
def State.onClick (extras : NewsIntent) (s : State) (picked : Text) (which : Nat) : State :=
  if which = 0 then
    match extras.news[s.pos]?, extras.links[s.pos]? with
    | some headline, some url => { s with opened := s.opened ++ [⟨picked, ⟨headline, url⟩⟩] }
    | _, _ => { s with exception := true }
  else s

def step (extras : NewsIntent) (s : State) : Event → Option State
  | .filter shown => if shown.Sublist extras.news then some { s with adapter := shown } else none
  | .onItemClick position =>
      s.adapter[position]?.map fun headline =>
        { s with pos := position, dialogs := s.dialogs ++ [headline] }
  | .onClick dialog which =>
      s.dialogs[dialog]?.map fun picked =>
        State.onClick extras { s with dialogs := s.dialogs.eraseIdx dialog } picked which
  | .dismiss dialog =>
      s.dialogs[dialog]?.map fun _ => { s with dialogs := s.dialogs.eraseIdx dialog }

/-- The runs of one instance. -/
def activity (extras : NewsIntent) : Machine State Event where
  init := onCreate extras
  step := step extras

/-! ## Every run -/

/-- An item of the intent. -/
def IsItem (extras : NewsIntent) (v : NewsView) : Prop :=
  ∃ i : Nat, extras.news[i]? = some v.headline ∧ extras.links[i]? = some v.url

/-- Whatever the user does. -/
structure Safe (extras : NewsIntent) (s : State) : Prop where
  adapter : s.adapter.Sublist extras.news
  pos : s.dialogs ≠ [] → s.pos < extras.news.length
  opened : ∀ o ∈ s.opened, IsItem extras o.view
  exception : s.exception = false

section Runs
variable {extras : NewsIntent} {s t : State}

theorem getElem?_lt {α : Type} {l : List α} {i : Nat} (h : i < l.length) : ∃ a, l[i]? = some a :=
  ⟨l[i], List.getElem?_eq_getElem h⟩

theorem ne_nil_of_getElem? {α : Type} {l : List α} {i : Nat} {a : α} (h : l[i]? = some a) :
    l ≠ [] :=
  List.ne_nil_of_mem (List.mem_of_getElem? h)

/-- What `onClick` does when `pos` is in range. -/
theorem onClick_cases (hlen : extras.news.length = extras.links.length)
    (hpos : s.pos < extras.news.length) (picked : Text) (which : Nat) :
    State.onClick extras s picked which = s ∨
    ∃ v, extras.news[s.pos]? = some v.headline ∧ extras.links[s.pos]? = some v.url ∧
      State.onClick extras s picked which = { s with opened := s.opened ++ [⟨picked, v⟩] } := by
  obtain ⟨headline, hnews⟩ := getElem?_lt hpos
  obtain ⟨url, hlinks⟩ := getElem?_lt (hlen ▸ hpos)
  rw [State.onClick]
  by_cases hw : which = 0
  · refine .inr ⟨⟨headline, url⟩, hnews, hlinks, ?_⟩
    simp only [if_pos hw, hnews, hlinks]
  · exact .inl (if_neg hw)

theorem Safe.step {e : Event} (hlen : extras.news.length = extras.links.length)
    (h : Safe extras s) (ht : NewsActivity.step extras s e = some t) : Safe extras t := by
  cases e with
  | filter shown =>
      by_cases hsub : shown.Sublist extras.news
      · cases (if_pos hsub).symm.trans ht
        exact ⟨hsub, h.pos, h.opened, h.exception⟩
      · exact nomatch (if_neg hsub).symm.trans ht
  | onItemClick position =>
      obtain ⟨headline, hget, rfl⟩ := Option.map_eq_some_iff.mp ht
      have hlt : position < s.adapter.length := (List.getElem?_eq_some_iff.mp hget).1
      exact ⟨h.adapter, fun _ => lt_of_lt_of_le hlt h.adapter.length_le, h.opened, h.exception⟩
  | onClick dialog which =>
      obtain ⟨picked, hget, rfl⟩ := Option.map_eq_some_iff.mp ht
      have hpos := h.pos (ne_nil_of_getElem? hget)
      rcases @onClick_cases extras { s with dialogs := s.dialogs.eraseIdx dialog } hlen hpos picked
        which with heq | ⟨v, hnews, hlinks, heq⟩
      · rw [heq]
        exact ⟨h.adapter, fun _ => hpos, h.opened, h.exception⟩
      · rw [heq]
        refine ⟨h.adapter, fun _ => hpos, fun o ho => ?_, h.exception⟩
        rcases List.mem_append.mp ho with ho | ho
        · exact h.opened o ho
        · rw [List.mem_singleton.mp ho]
          exact ⟨s.pos, hnews, hlinks⟩
  | dismiss dialog =>
      obtain ⟨_, hget, rfl⟩ := Option.map_eq_some_iff.mp ht
      exact ⟨h.adapter, fun _ => h.pos (ne_nil_of_getElem? hget), h.opened, h.exception⟩

theorem safe (hlen : extras.news.length = extras.links.length)
    (h : (activity extras).Reachable s) : Safe extras s :=
  Machine.invariant (M := activity extras) ⟨List.Sublist.refl _, nofun, nofun, rfl⟩
    (fun hs ht => hs.step hlen ht) h

/-! ## Runs that open what was picked -/

theorem prefix_iff {α : Type} {l l' : List α} :
    l <+: l' ↔ ∀ (i : Nat) a, l[i]? = some a → l'[i]? = some a := by
  rw [List.prefix_iff_getElem?]
  constructor
  · intro h i a ha
    obtain ⟨hi, rfl⟩ := List.getElem?_eq_some_iff.mp ha
    exact h i hi
  · intro h i hi
    exact h i l[i] (List.getElem?_eq_getElem hi)

/-- The list shows the first headlines only, and a click finds no open dialog. -/
def Orderly (extras : NewsIntent) (s : State) : Event → Prop
  | .filter shown => shown <+: extras.news
  | .onItemClick _ => s.dialogs = []
  | .onClick _ _ | .dismiss _ => True

instance decOrderly (extras : NewsIntent) (s : State) : ∀ e, Decidable (Orderly extras s e)
  | .filter shown => inferInstanceAs (Decidable (shown <+: extras.news))
  | .onItemClick _ => inferInstanceAs (Decidable (s.dialogs = []))
  | .onClick _ _ | .dismiss _ => isTrue trivial

/-- The dialog that is open is for the headline at `pos`. -/
structure Faithful (extras : NewsIntent) (s : State) : Prop where
  adapter : s.adapter <+: extras.news
  dialogs : s.dialogs = [] ∨ ∃ headline, s.dialogs = [headline] ∧ extras.news[s.pos]? = some headline
  opened : ∀ o ∈ s.opened, o.view.headline = o.picked

theorem Faithful.closed {dialog : Nat} {picked : Text} (h : Faithful extras s)
    (hget : s.dialogs[dialog]? = some picked) :
    s.dialogs.eraseIdx dialog = [] ∧ extras.news[s.pos]? = some picked := by
  rcases h.dialogs with hnil | ⟨headline, hone, hnews⟩
  · rw [hnil] at hget
    exact nomatch hget
  · rw [hone] at hget ⊢
    cases dialog with
    | zero =>
        cases hget
        exact ⟨rfl, hnews⟩
    | succ k => exact nomatch hget

theorem Faithful.step {e : Event} (hlen : extras.news.length = extras.links.length)
    (h : Faithful extras s) (hg : Orderly extras s e)
    (ht : NewsActivity.step extras s e = some t) : Faithful extras t := by
  cases e with
  | filter shown =>
      by_cases hsub : shown.Sublist extras.news
      · cases (if_pos hsub).symm.trans ht
        exact ⟨hg, h.dialogs, h.opened⟩
      · exact nomatch (if_neg hsub).symm.trans ht
  | onItemClick position =>
      obtain ⟨headline, hget, rfl⟩ := Option.map_eq_some_iff.mp ht
      refine ⟨h.adapter, .inr ⟨headline, ?_, ?_⟩, h.opened⟩
      · show s.dialogs ++ [headline] = [headline]
        rw [show s.dialogs = [] from hg]
        rfl
      · exact prefix_iff.mp h.adapter position headline hget
  | onClick dialog which =>
      obtain ⟨picked, hget, rfl⟩ := Option.map_eq_some_iff.mp ht
      obtain ⟨hclosed, hnews⟩ := h.closed hget
      have hpos : s.pos < extras.news.length := (List.getElem?_eq_some_iff.mp hnews).1
      rcases @onClick_cases extras { s with dialogs := s.dialogs.eraseIdx dialog } hlen hpos picked
        which with heq | ⟨v, hnews', -, heq⟩
      · rw [heq]
        exact ⟨h.adapter, .inl hclosed, h.opened⟩
      · rw [heq]
        refine ⟨h.adapter, .inl hclosed, fun o ho => ?_⟩
        rcases List.mem_append.mp ho with ho | ho
        · exact h.opened o ho
        · rw [List.mem_singleton.mp ho]
          exact Option.some.inj (hnews'.symm.trans hnews)
  | dismiss dialog =>
      obtain ⟨_, hget, rfl⟩ := Option.map_eq_some_iff.mp ht
      exact ⟨h.adapter, .inl (h.closed hget).1, h.opened⟩

theorem faithful (hlen : extras.news.length = extras.links.length)
    (h : ((activity extras).guarded (Orderly extras)).Reachable s) : Faithful extras s :=
  Machine.guarded_invariant (M := activity extras) ⟨List.prefix_refl _, .inl rfl, nofun⟩
    (fun hs hg ht => hs.step hlen hg ht) h

/-! ## One click -/

/-- The list is filtered, a headline picked and viewed. -/
def viewRun (shown : List Text) (i : Nat) : List Event :=
  [.filter shown, .onItemClick i, .onClick 0 0]

/-- What is opened is the item at the same position of the whole list. -/
theorem run_viewRun {shown : List Text} {i : Nat} {picked : Text} {v : NewsView}
    (hsub : shown.Sublist extras.news) (hpicked : shown[i]? = some picked)
    (hnews : extras.news[i]? = some v.headline) (hlinks : extras.links[i]? = some v.url) :
    ∃ u, (activity extras).run (onCreate extras) (viewRun shown i) = some u ∧
      u.opened = [⟨picked, v⟩] := by
  have hfilter : (activity extras).step (onCreate extras) (.filter shown) =
      some { onCreate extras with adapter := shown } := if_pos hsub
  have hclick : (activity extras).step { onCreate extras with adapter := shown } (.onItemClick i) =
      some { onCreate extras with adapter := shown, pos := i, dialogs := [picked] } := by
    show shown[i]?.map _ = _
    rw [hpicked]
    rfl
  refine ⟨_, Machine.run_cons.mpr ⟨_, hfilter, Machine.run_cons.mpr ⟨_, hclick,
    Machine.run_cons.mpr ⟨_, rfl, rfl⟩⟩⟩, ?_⟩
  simp only [State.onClick, if_true, hnews, hlinks]
  rfl

end Runs

/-! ## The arrays of a response -/

section Response
variable {lib : OrgJson}

theorem bind_eq_ok {ε α β : Type} {x : Except ε α} {f : α → Except ε β} {b : β}
    (h : (x >>= f) = .ok b) : ∃ a, x = .ok a ∧ f a = .ok b := by
  cases x with
  | error e => exact nomatch h
  | ok a => exact ⟨a, rfl, h⟩

/-- The loop fills both arrays alike. -/
theorem newsLoop_length (items : List Json) : ∀ {newsh newslinks newsh' newslinks' : List Text}
    {flag flag' : Bool}, newsLoop lib items newsh newslinks flag = .ok (newsh', newslinks', flag') →
      newsh.length = newslinks.length → newsh'.length = newslinks'.length := by
  induction items with
  | nil =>
      intro newsh newslinks newsh' newslinks' flag flag' h hlen
      cases h
      exact hlen
  | cons item items ih =>
      intro newsh newslinks newsh' newslinks' flag flag' h hlen
      obtain ⟨nl, -, h⟩ := bind_eq_ok h
      obtain ⟨title, -, h⟩ := bind_eq_ok h
      obtain ⟨link, -, h⟩ := bind_eq_ok h
      refine ih h ?_
      rw [List.length_append, List.length_append, hlen]
      rfl

theorem length_newsh {body : Text} {m : StockMap} (h : Util.getStockData lib body = .ok m) :
    m.newsh.length = m.newslinks.length := by
  rw [Util.getStockData] at h
  cases hline : readLine body with
  | none =>
      rw [hline] at h
      cases h
  | some line =>
      rw [hline] at h
      -- the assignments before the loop
      iterate 24 obtain ⟨_, -, h⟩ := bind_eq_ok h
      obtain ⟨⟨newsh, newslinks, hasNews⟩, hloop, h⟩ := bind_eq_ok h
      cases h
      exact newsLoop_length _ hloop rfl

/-- **The news of a response.**  Whatever the user does with the list, no index
is out of bounds, and what is opened is an item of the response.  It is the item
that was picked in the runs in which the list shows the first headlines only and
every dialog is answered before the next click; and a list that shows anything
else opens another item at some position. -/
theorem views_of_news {body : Text} {m : StockMap} {extras : NewsIntent}
    (hm : Util.getStockData lib body = .ok m) (hextras : loadNews (some m) = .ok extras) :
    (∀ s, (activity extras).Reachable s →
      s.exception = false ∧ ∀ o ∈ s.opened, IsItem extras o.view) ∧
    (∀ s, ((activity extras).guarded (Orderly extras)).Reachable s →
      ∀ o ∈ s.opened, o.view.headline = o.picked) ∧
    ∀ shown, shown.Sublist extras.news →
      ((∀ (i : Nat) picked, shown[i]? = some picked → ∃ s,
        (activity extras).run (onCreate extras) (viewRun shown i) = some s ∧
          ∀ o ∈ s.opened, o.view.headline = o.picked) ↔ shown <+: extras.news) := by
  cases hextras
  have hlen := length_newsh hm
  refine ⟨fun s hs => ?_, fun s hs => (faithful hlen hs).opened, fun shown hsub => ?_⟩
  · have hsafe := safe hlen hs
    exact ⟨hsafe.exception, hsafe.opened⟩
  · -- the item at the position of the click
    have hitem : ∀ {i : Nat} {picked : Text}, shown[i]? = some picked → ∃ v : NewsView,
        m.newsh[i]? = some v.headline ∧ m.newslinks[i]? = some v.url := by
      intro i picked hpicked
      have hi : i < m.newsh.length :=
        lt_of_lt_of_le (List.getElem?_eq_some_iff.mp hpicked).1 hsub.length_le
      obtain ⟨headline, hnews⟩ := getElem?_lt hi
      obtain ⟨url, hlinks⟩ := getElem?_lt (hlen ▸ hi)
      exact ⟨⟨headline, url⟩, hnews, hlinks⟩
    rw [prefix_iff]
    constructor
    · intro h i picked hpicked
      obtain ⟨v, hnews, hlinks⟩ := hitem hpicked
      obtain ⟨s, hrun, hsame⟩ := h i picked hpicked
      obtain ⟨u, hu, hopened⟩ := run_viewRun hsub hpicked hnews hlinks
      cases hu.symm.trans hrun
      have hv := hsame ⟨picked, v⟩ (by rw [hopened]; exact List.mem_singleton_self _)
      exact hnews.trans (congrArg some hv)
    · intro h i picked hpicked
      obtain ⟨v, hnews, hlinks⟩ := hitem hpicked
      obtain ⟨u, hu, hopened⟩ := run_viewRun hsub hpicked hnews hlinks
      refine ⟨u, hu, fun o ho => ?_⟩
      rw [hopened] at ho
      rw [List.mem_singleton.mp ho]
      exact Option.some.inj (hnews.symm.trans (h i picked hpicked))

end Response

/-- The headlines of a response with two items. -/
theorem views_of_linkedLast : ∃ m extras,
    Util.getStockData strict (print (emptyResponse linkedLast)) = .ok m ∧
      loadNews (some m) = .ok extras ∧
      ∀ s, (activity extras).Reachable s →
        s.exception = false ∧ ∀ o ∈ s.opened, IsItem extras o.view := by
  have hline := readLine_emptyResponse linkedLast (by decide +kernel)
  obtain ⟨m, hm, -⟩ := getStockData_news hline (parse_emptyResponse linkedLast)
    (isResponse_emptyResponse linkedLast)
  exact ⟨m, _, hm, rfl, (views_of_news hm rfl).1⟩

end WebTech.NewsActivity
