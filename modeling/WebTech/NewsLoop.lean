/-
# `WebTech.NewsLoop` — changeRequest: the loop over an array of items

Whatever the elements of `News.Item` are, when each has an entry the list is
their entries in their order (`newsList_arr`).
-/
import WebTech.Page

namespace WebTech.Page

open Rfc8259 Ecma

variable [Floating]

/-- The entry of an element of `news.Item`. -/
def entryOf (v : Json) : Option Text := do
  headline (← getProp (some v) "Link") (← getProp (some v) "Title")

/-- **The loop** over an array appends the entries of the elements that are left,
in their order. -/
theorem newsItems_arr {ι : Type} {printval news : Value} {f : ι → Json} {li : ι → Text}
    (hentry : ∀ x, entryOf (f x) = some (li x)) (rest : List ι) :
    ∀ (done : List ι) (newslist : Text),
      getPath news ["Item", "length"] = some (some (number (done ++ rest).length)) →
      getPath printval ["result", "News", "Item"] = some (some (.arr ((done ++ rest).map f))) →
      Page.newsItems printval news (rest.length + 1) done.length newslist =
        some (newslist ++ rest.flatMap li ++ "</ul>".toList) := by
  induction rest with
  | nil =>
      intro done newslist hlength _
      rw [List.append_nil] at hlength
      rw [List.length_nil, Page.newsItems, hlength]
      simp only [Option.bind_eq_bind, Option.bind_some, lessThan_number]
      rw [decide_eq_false (Nat.lt_irrefl _), List.flatMap_nil, List.append_nil]
      rfl
  | cons x rest ih =>
      intro done newslist hlength hitems
      have hlt : done.length < (done ++ x :: rest).length := by
        rw [List.length_append, List.length_cons]
        omega
      have hmember : ∀ k, itemMember printval done.length k = getProp (some (f x)) k := by
        intro k
        rw [itemMember, hitems]
        show (getProp ((List.map f (done ++ x :: rest))[done.length]?) k) = _
        rw [List.getElem?_map, List.getElem?_append_right (Nat.le_refl _), Nat.sub_self]
        rfl
      have hnext : done ++ x :: rest = done ++ [x] ++ rest := by
        rw [List.append_assoc]
        rfl
      have hloop := ih (done ++ [x]) (newslist ++ li x)
        (by rw [← hnext]; exact hlength) (by rw [← hnext]; exact hitems)
      obtain ⟨link, hlink, hx⟩ := Option.bind_eq_some_iff.mp (hentry x)
      obtain ⟨title, htitle, hx⟩ := Option.bind_eq_some_iff.mp hx
      rw [List.length_append, List.append_assoc newslist] at hloop
      rw [List.length_cons, Page.newsItems, hlength, hmember, hmember, hlink, htitle]
      simp only [Option.bind_eq_bind, Option.bind_some, lessThan_number]
      rw [if_pos (decide_eq_true hlt), hx, List.flatMap_cons]
      exact hloop

/-- **The list of an array**: the entries of its elements. -/
theorem newsList_arr {ι : Type} {printval news : Value} {f : ι → Json} {li : ι → Text}
    (hentry : ∀ x, entryOf (f x) = some (li x)) (items : List ι)
    (hnews : getPath printval ["result", "News"] = some news)
    (hitem : getProp news "Item" = some (some (.arr (items.map f)))) :
    newsList printval news = some ("<ul>".toList ++ items.flatMap li ++ "</ul>".toList) := by
  have hlength : getPath news ["Item", "length"] = some (some (number items.length)) := by
    rw [getPath, hitem]
    show some (some (number (List.length _))) = _
    rw [List.length_map]
  have hitems : getPath printval (["result", "News"] ++ ["Item"]) =
      some (some (.arr (items.map f))) := by
    rw [getPath_append, hnews]
    show (getProp news "Item").bind _ = _
    rw [hitem]
    rfl
  have hloop := newsItems_arr hentry items [] "<ul>".toList hlength hitems
  rw [newsList, hitem]
  simp only [Option.bind_eq_bind, Option.bind_some]
  show (newsItems _ _ ((items.map _).length + 1) 0 "<ul>".toList) = _
  rw [List.length_map]
  exact hloop

end WebTech.Page
