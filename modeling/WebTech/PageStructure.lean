/-
# `WebTech.PageStructure` — the tables and headings of search_stock.php

The heading, the start of the table and the summary row are in the block of a
sign; the rows and the end of the table are in none.

    the change begins with   heading   summary row   </table>
    +, - or 0                one       one           closes it
    anything else            none      none          closes nothing, and its rows are in no table

So the page is well built exactly when the change begins with one of the three
(`page_wellBuilt_iff`).  An echoed string is a text here, whatever is in it.
-/
import WebTech.SearchPage
import WebTech.Lib.Numeral

namespace WebTech.SearchPage

open WebTech.Producer Utf8

/-! ## A well-built page -/

/-- The headings `Search Results`. -/
def headings : List Piece → Nat
  | .start .h2 _ :: .text s :: .stop .h2 :: r => (if s = "Search Results" then 1 else 0) + headings r
  | _ :: r => headings r
  | [] => 0

def endsRow : Piece → Bool
  | .stop .tr => true
  | _ => false

/-- The rows of all tables, each up to its end tag. -/
def tableRows : List Piece → List (List Piece)
  | .start .tr _ :: r => (r.takeWhile fun p => !endsRow p) :: tableRows r
  | _ :: r => tableRows r
  | [] => []

/-- A row with the name, the last price and the change. -/
def IsSummary (quote : List Child) (cells : List Piece) : Prop :=
  .echo (read quote "Name" ++ lit "(" ++ read quote "Symbol" ++ lit ")") ∈ cells ∧
  .echo (number_format (read quote "LastTradePriceOnly") 2 ++ lit " ") ∈ cells ∧
  .echo (number_format ((read quote "Change").drop 1) 2 ++ lit "("
    ++ (read quote "ChangeinPercent").drop 1 ++ lit ")") ∈ cells

instance decIsSummary (quote : List Child) (cells : List Piece) :
    Decidable (IsSummary quote cells) :=
  inferInstanceAs (Decidable (_ ∧ _ ∧ _))

/-- One piece read with `d` tables open: a row needs one, and so does an end. -/
def tableStep (d : Nat) : Piece → Option Nat
  | .start .table _ => some (d + 1)
  | .start .tr _ => if d = 0 then none else some d
  | .stop .table => if d = 0 then none else some (d - 1)
  | _ => some d

/-- The open tables after the pieces. -/
def tables (d : Nat) (ps : List Piece) : Option Nat := ps.foldlM tableStep d

/-- **The structure of the page of a quote.** -/
structure WellBuilt (quote : List Child) (ps : List Piece) : Prop where
  heading : headings ps = 1
  summary : (tableRows ps).countP (fun cells => IsSummary quote cells) = 1
  tables : (tables 0 ps).isSome

/-! ## Fragments -/

/-- **A fragment** of a page: `n` headings and the rows `rs`, whatever follows,
and no table left open or closed. -/
structure Fragment (ps : List Piece) (n : Nat) (rs : List (List Piece)) : Prop where
  headings : ∀ r, headings (ps ++ r) = n + headings r
  rows : ∀ r, tableRows (ps ++ r) = rs ++ tableRows r

theorem Fragment.nil : Fragment [] 0 [] where
  headings _ := (Nat.zero_add _).symm
  rows _ := rfl

theorem Fragment.append {ps qs : List Piece} {n m : Nat} {rs ss : List (List Piece)}
    (hp : Fragment ps n rs) (hq : Fragment qs m ss) : Fragment (ps ++ qs) (n + m) (rs ++ ss) where
  headings r := by rw [List.append_assoc, hp.headings, hq.headings, Nat.add_assoc]
  rows r := by rw [List.append_assoc, hp.rows, hq.rows, List.append_assoc]

/-- The tables open after a fragment are those the next one begins with. -/
theorem tables_append {d d' : Nat} {ps : List Piece} (h : tables d ps = some d') (qs : List Piece) :
    tables d (ps ++ qs) = tables d' qs := by
  rw [tables, List.foldlM_append, ← tables, h]
  rfl

/-- The cells of a summary row. -/
def summaryCells (quote : List Child) (attributes gap : String) (arrow : List Piece)
    (color : String) : List Piece :=
  [.start .td attributes, .start .div " style = \"float:left; \"",
    .echo (read quote "Name" ++ lit "(" ++ read quote "Symbol" ++ lit ")"), .stop .div, .text gap,
    .echo (number_format (read quote "LastTradePriceOnly") 2 ++ lit " ")]
  ++ arrow ++
  [.start .font (" style=\"color:" ++ color ++ ";\""),
    .echo (number_format ((read quote "Change").drop 1) 2 ++ lit "("
      ++ (read quote "ChangeinPercent").drop 1 ++ lit ")"), .stop .font, .stop .td]

section Fragments
variable (quote : List Child)

theorem isSummary_summaryCells (attributes gap : String) (arrow : List Piece) (color : String) :
    IsSummary quote (summaryCells quote attributes gap arrow color) := by
  refine ⟨?_, ?_, ?_⟩ <;> simp [summaryCells]

/-- The block of a sign, with an arrow or without one. -/
theorem fragment_summary (attributes gap : String) {arrow : List Piece} (color : String)
    (harrow : arrow = [] ∨ ∃ s, arrow = [.start .img s]) :
    Fragment (summary quote attributes gap arrow color) 1
      [summaryCells quote attributes gap arrow color] := by
  rcases harrow with rfl | ⟨s, rfl⟩
  · exact ⟨fun _ => rfl, fun _ => rfl⟩
  · exact ⟨fun _ => rfl, fun _ => rfl⟩

theorem tables_summary (attributes gap : String) {arrow : List Piece} (color : String)
    (harrow : arrow = [] ∨ ∃ s, arrow = [.start .img s]) (d : Nat) :
    tables d (summary quote attributes gap arrow color) = some (d + 1) := by
  rcases harrow with rfl | ⟨s, rfl⟩
  · rfl
  · rfl

theorem tables_rows (d : Nat) : tables (d + 1) (rows quote) = some (d + 1) := rfl

theorem tables_rows_zero : tables 0 (rows quote) = none := rfl

/-- The cells of one row. -/
def cells (td₁ label₁ td₂ : String) (b₁ : PhpString) (td₃ label₂ td₄ : String) (b₂ : PhpString) :
    List Piece :=
  [.start .td td₁, .text label₁, .stop .td, .start .td td₂, .echo b₁, .stop .td,
    .start .td td₃, .text label₂, .stop .td, .start .td td₄, .echo b₂, .stop .td]

theorem fragment_row (td₁ label₁ td₂ : String) (b₁ : PhpString) (td₃ label₂ td₄ : String)
    (b₂ : PhpString) : Fragment (row td₁ label₁ td₂ b₁ td₃ label₂ td₄ b₂) 0
      [cells td₁ label₁ td₂ b₁ td₃ label₂ td₄ b₂] where
  headings _ := (Nat.zero_add _).symm
  rows _ := rfl

/-! ## Only the summary has a name in it -/

/-- A string with both parentheses, as the name and the symbol are echoed. -/
def Bracketed (b : PhpString) : Prop := 40 ∈ b ∧ 41 ∈ b

theorem bracketed_name (name symbol : PhpString) :
    Bracketed (name ++ lit "(" ++ symbol ++ lit ")") := by
  have hopen : (40 : UInt8) ∈ lit "(" := List.mem_singleton.mpr rfl
  have hclose : (41 : UInt8) ∈ lit ")" := List.mem_singleton.mpr rfl
  constructor
  · exact List.mem_append_left _ (List.mem_append_left _ (List.mem_append_right _ hopen))
  · exact List.mem_append_right _ hclose

/-- The bytes of a formatted number. -/
theorem mem_number_format {s : PhpString} {places : Nat} {b : UInt8}
    (h : b ∈ number_format s places) : b ≠ 40 ∧ b ≠ 41 := by
  have hrange : ∀ c ∈ Decimals.numberFormat (floatval s) places, 44 ≤ c.toNat ∧ c.toNat ≤ 57 :=
    fun c hc => Decimals.isPriceChar_range (Decimals.isPriceChar_numberFormat _ _ c hc)
  rw [number_format, encode_ascii fun c hc => by have := hrange c hc; omega] at h
  obtain ⟨c, hc, rfl⟩ := List.mem_map.mp h
  obtain ⟨hlo, hhi⟩ := hrange c hc
  have hbyte : c.toNat.toUInt8.toNat = c.toNat := by
    rw [Nat.toUInt8, UInt8.toNat_ofNat']
    exact Nat.mod_eq_of_lt (by omega)
  constructor
  · intro h
    have h40 : c.toNat = 40 := (h ▸ hbyte).symm
    omega
  · intro h
    have h41 : c.toNat = 41 := (h ▸ hbyte).symm
    omega

theorem not_bracketed_number (s : PhpString) (places : Nat) :
    ¬ Bracketed (number_format s places) := by
  intro h
  exact (mem_number_format h.1).1 rfl

theorem not_bracketed_range (s t : PhpString) (p q : Nat) :
    ¬ Bracketed (number_format s p ++ lit " - " ++ number_format t q) := by
  intro h
  rcases List.mem_append.mp h.1 with h | h
  · rcases List.mem_append.mp h with h | h
    · exact (mem_number_format h).1 rfl
    · exact absurd h (by decide)
  · exact (mem_number_format h).1 rfl

/-- The market capitalisation ends in one byte that is of no number. -/
theorem not_bracketed_marketCap (storeVal : PhpString) : ¬ Bracketed (marketCap storeVal) := by
  rintro ⟨hopen, hclose⟩
  have hlast : (storeVal.drop (storeVal.length - 1)).length ≤ 1 := by
    rw [List.length_drop]
    omega
  rcases List.mem_append.mp hopen with hopen | hopen
  · exact (mem_number_format hopen).1 rfl
  · rcases List.mem_append.mp hclose with hclose | hclose
    · exact (mem_number_format hclose).2 rfl
    · generalize storeVal.drop (storeVal.length - 1) = last at *
      match last, hlast, hopen, hclose with
      | [b], _, hopen, hclose =>
          have hb := (List.mem_singleton.mp hopen).trans (List.mem_singleton.mp hclose).symm
          exact absurd hb (by decide)

theorem not_isSummary_cells {td₁ label₁ td₂ : String} {b₁ : PhpString} {td₃ label₂ td₄ : String}
    {b₂ : PhpString} (h₁ : ¬ Bracketed b₁) (h₂ : ¬ Bracketed b₂) :
    ¬ IsSummary quote (cells td₁ label₁ td₂ b₁ td₃ label₂ td₄ b₂) := by
  intro h
  have hname := bracketed_name (read quote "Name") (read quote "Symbol")
  have hmem := h.1
  generalize read quote "Name" ++ lit "(" ++ read quote "Symbol" ++ lit ")" = name at *
  simp only [cells, List.mem_cons, reduceCtorEq, Piece.echo.injEq, List.not_mem_nil, or_false,
    false_or] at hmem
  rcases hmem with rfl | rfl
  · exact h₁ hname
  · exact h₂ hname

/-- The five rows: no heading, and none of them a summary. -/
theorem fragment_rows : ∃ rs, Fragment (rows quote) 0 rs ∧ ∀ cells ∈ rs, ¬ IsSummary quote cells := by
  refine ⟨_, ((((fragment_row _ _ _ _ _ _ _ _).append (fragment_row _ _ _ _ _ _ _ _)).append
    (fragment_row _ _ _ _ _ _ _ _)).append (fragment_row _ _ _ _ _ _ _ _)).append
    (fragment_row _ _ _ _ _ _ _ _), ?_⟩
  have hnumber := not_bracketed_number
  have hrange := not_bracketed_range
  have hcap := not_bracketed_marketCap
  simp only [List.cons_append, List.nil_append, List.forall_mem_cons]
  exact ⟨not_isSummary_cells quote (hnumber _ _) (hrange _ _ _ _),
    not_isSummary_cells quote (hnumber _ _) (hrange _ _ _ _),
    not_isSummary_cells quote (hnumber _ _) (hnumber _ _),
    not_isSummary_cells quote (hnumber _ _) (hnumber _ _),
    not_isSummary_cells quote (hnumber _ _) (hcap _), nofun⟩

end Fragments

/-! ## The news -/

theorem fragment_newsItem (iterate : List Child) : Fragment (newsItem iterate) 0 [] where
  headings _ := (Nat.zero_add _).symm
  rows _ := rfl

theorem tables_newsItem (iterate : List Child) (d : Nat) : tables d (newsItem iterate) = some d := rfl

/-- The headlines, by induction on the items. -/
theorem fragment_newsItems (is : List (List Child)) : Fragment (is.flatMap newsItem) 0 [] := by
  induction is with
  | nil => exact Fragment.nil
  | cons i is ih => exact (fragment_newsItem i).append ih

theorem tables_newsItems (is : List (List Child)) (d : Nat) :
    tables d (is.flatMap newsItem) = some d := by
  induction is with
  | nil => rfl
  | cons i is ih =>
      rw [List.flatMap_cons, tables_append (tables_newsItem i d)]
      exact ih

/-- The news, of either kind: no heading of results, no summary, and its table
is closed. -/
theorem fragment_news (quote : List Child) (channel : List ChannelChild) :
    ∃ rs, Fragment (news channel) 0 rs ∧ ∀ cells ∈ rs, ¬ IsSummary quote cells := by
  rw [news, newsList]
  split
  · have hfront : Fragment [.start .center "", .start .table "", .start .col " width=\"705px\"",
        .start .tr "", .start .td " style=\"border-bottom:2pt solid black;\"", .start .div "",
        .text "News Headlines", .stop .div, .stop .td, .stop .tr, .stop .table, .stop .center] 0
        [[.start .td " style=\"border-bottom:2pt solid black;\"", .start .div "",
          .text "News Headlines", .stop .div, .stop .td]] :=
      ⟨fun _ => (Nat.zero_add _).symm, fun _ => rfl⟩
    have hlist : Fragment [.start .ul " style =\"margin-left:320px;\"", .text "\n\t\t\t\t\t"] 0 [] :=
      ⟨fun _ => (Nat.zero_add _).symm, fun _ => rfl⟩
    refine ⟨_, hfront.append (hlist.append (fragment_newsItems (items channel))), ?_⟩
    intro cells hcells h
    rw [List.append_nil, List.append_nil, List.mem_singleton] at hcells
    rw [hcells] at h
    simp [IsSummary] at h
  · refine ⟨[], ⟨fun r => ?_, fun _ => rfl⟩, nofun⟩
    rw [Nat.zero_add]
    show (if "Financial Company News is not available" = "Search Results" then 1 else 0)
      + headings r = headings r
    rw [if_neg (by decide), Nat.zero_add]

theorem tables_news (channel : List ChannelChild) (d : Nat) : tables d (news channel) = some d := by
  rw [news, newsList]
  split
  · have hfront : tables d [.start .center "", .start .table "", .start .col " width=\"705px\"",
        .start .tr "", .start .td " style=\"border-bottom:2pt solid black;\"", .start .div "",
        .text "News Headlines", .stop .div, .stop .td, .stop .tr, .stop .table, .stop .center] =
        some d := rfl
    have hlist : tables d [.start .ul " style =\"margin-left:320px;\"", .text "\n\t\t\t\t\t"] = some d :=
      rfl
    rw [tables_append hfront, tables_append hlist]
    exact tables_newsItems (items channel) d
  · rfl

/-! ## The page -/

theorem strcmp_eq_zero {s t : PhpString} : strcmp s t = 0 ↔ s = t := by
  rw [strcmp]
  split
  · next h => exact iff_of_true rfl h
  · next h =>
      refine iff_of_false ?_ h
      split <;> decide

/-- The first byte of a change is `+`, `-` or `0`. -/
def hasBranch (change : PhpString) : Prop :=
  change.take 1 = lit "+" ∨ change.take 1 = lit "-" ∨ change.take 1 = lit "0"

instance decHasBranch (change : PhpString) : Decidable (hasBranch change) :=
  inferInstanceAs (Decidable (_ ∨ _ ∨ _))

/-- The three blocks together. -/
def blocks (quote : List Child) : List Piece :=
  let v1 := (read quote "Change").take 1
  (if strcmp v1 (lit "+") = 0 then summaryPlus quote else [])
  ++ (if strcmp v1 (lit "-") = 0 then summaryMinus quote else [])
  ++ (if strcmp v1 (lit "0") = 0 then summaryZero quote else [])

section Page
variable (quote : List Child)

/-- One of the three blocks is sent, and no other. -/
theorem blocks_of_hasBranch (h : hasBranch (read quote "Change")) :
    ∃ attributes gap arrow color, (arrow = [] ∨ ∃ s, arrow = [.start .img s]) ∧
      blocks quote = summary quote attributes gap arrow color := by
  have hplus : lit "+" ≠ lit "-" ∧ lit "+" ≠ lit "0" := by decide
  have hminus : lit "-" ≠ lit "+" ∧ lit "-" ≠ lit "0" := by decide
  have hzero : lit "0" ≠ lit "+" ∧ lit "0" ≠ lit "-" := by decide
  simp only [blocks, strcmp_eq_zero]
  rcases h with h | h | h
  · rw [h, if_pos rfl, if_neg hplus.1, if_neg hplus.2, List.append_nil, List.append_nil]
    exact ⟨_, _, _, _, .inr ⟨_, rfl⟩, rfl⟩
  · rw [h, if_pos rfl, if_neg hminus.1, if_neg hminus.2, List.nil_append, List.append_nil]
    exact ⟨_, _, _, _, .inr ⟨_, rfl⟩, rfl⟩
  · rw [h, if_pos rfl, if_neg hzero.1, if_neg hzero.2, List.nil_append, List.nil_append]
    exact ⟨_, _, _, _, .inl rfl, rfl⟩

theorem blocks_of_not_hasBranch (h : ¬ hasBranch (read quote "Change")) : blocks quote = [] := by
  simp only [hasBranch, not_or] at h
  simp only [blocks, strcmp_eq_zero]
  rw [if_neg h.1, if_neg h.2.1, if_neg h.2.2]
  rfl

theorem results_eq (channel : List ChannelChild) :
    results quote channel = blocks quote ++ (rows quote ++ ([.stop .table, .stop .center]
      ++ news channel)) := by
  simp only [results, blocks, List.append_assoc]

/-- **A page whose change has a block** is well built. -/
theorem wellBuilt_of_hasBranch (channel : List ChannelChild) (h : hasBranch (read quote "Change")) :
    WellBuilt quote (results quote channel ++ [.stop .ul]) := by
  obtain ⟨attributes, gap, arrow, color, harrow, hblocks⟩ := blocks_of_hasBranch quote h
  obtain ⟨rs, hrows, hrs⟩ := fragment_rows quote
  obtain ⟨ss, hnews, hss⟩ := fragment_news quote channel
  have hend : Fragment [.stop .table, .stop .center] 0 [] :=
    ⟨fun _ => (Nat.zero_add _).symm, fun _ => rfl⟩
  have hlast : Fragment [.stop .ul] 0 [] := ⟨fun _ => (Nat.zero_add _).symm, fun _ => rfl⟩
  have hpage := ((fragment_summary quote attributes gap color harrow).append
    (hrows.append (hend.append hnews))).append hlast
  rw [results_eq, hblocks]
  have hothers : ∀ cells ∈ rs ++ ss, ¬ decide (IsSummary quote cells) = true := by
    intro cells hcells
    rw [decide_eq_true_eq]
    rcases List.mem_append.mp hcells with hcells | hcells
    · exact hrs cells hcells
    · exact hss cells hcells
  have hsummary := decide_eq_true (isSummary_summaryCells quote attributes gap arrow color)
  exact {
    heading := by
      have := hpage.headings []
      rwa [List.append_nil] at this
    summary := by
      have hall : tableRows (summary quote attributes gap arrow color ++ (rows quote
          ++ ([.stop .table, .stop .center] ++ news channel)) ++ [.stop .ul]) =
          summaryCells quote attributes gap arrow color :: (rs ++ ss) := by
        have := hpage.rows []
        rw [List.append_nil] at this
        rw [this, tableRows, List.append_nil, List.append_nil, List.nil_append]
        rfl
      rw [hall, List.countP_cons, List.countP_eq_zero.mpr hothers, if_pos hsummary]
    tables := by
      have hopen := tables_summary quote attributes gap color harrow 0
      have hclose : tables 1 [.stop .table, .stop .center] = some 0 := rfl
      rw [List.append_assoc, tables_append hopen, List.append_assoc, tables_append (tables_rows quote 0),
        List.append_assoc, tables_append hclose, tables_append (tables_news channel 0)]
      rfl }

/-- **A page whose change has none** begins with a row of no table. -/
theorem tables_of_not_hasBranch (channel : List ChannelChild)
    (h : ¬ hasBranch (read quote "Change")) (r : List Piece) :
    tables 0 (results quote channel ++ r) = none := by
  rw [results_eq, blocks_of_not_hasBranch quote h, List.nil_append, List.append_assoc, tables,
    List.foldlM_append, ← tables, tables_rows_zero]
  rfl

end Page

/-- **Which pages are well built**: those whose change begins with a plus, a
minus or a zero. -/
theorem page_wellBuilt_iff (post : Post) (quoteAt : PhpString → List Child)
    (channelAt : PhpString → List ChannelChild) (hsubmit : post.submit = true)
    (hblank : noSpaces post.url ≠ [])
    (hchange : read (quoteAt (quoteUrl (noSpaces post.url))) "Change" ≠ []) :
    WellBuilt (quoteAt (quoteUrl (noSpaces post.url))) (page post quoteAt channelAt) ↔
      hasBranch (read (quoteAt (quoteUrl (noSpaces post.url))) "Change") := by
  have hurl : post.url ≠ [] := by
    intro h
    rw [h] at hblank
    exact hblank rfl
  have hpage : page post quoteAt channelAt =
      results (quoteAt (quoteUrl (noSpaces post.url))) (channelAt (newsUrl (noSpaces post.url)))
        ++ [.stop .ul] := by
    rw [page, if_pos ⟨hsubmit, hurl, hblank⟩]
    exact if_pos hchange
  rw [hpage]
  constructor
  · intro hbuilt
    by_contra hno
    have htables := hbuilt.tables
    rw [tables_of_not_hasBranch _ _ hno] at htables
    exact nomatch htables
  · intro hbranch
    exact wellBuilt_of_hasBranch _ _ hbranch

/-! ## Two quotes -/

/-- A posted symbol. -/
def aaplPost : Post := ⟨true, lit "AAPL"⟩

theorem aapl_wellBuilt :
    noSpaces aaplPost.url ≠ [] ∧ read [⟨"Change".toList, "-6.95".toList⟩] "Change" ≠ [] ∧
    WellBuilt [⟨"Change".toList, "-6.95".toList⟩]
      (page aaplPost (fun _ => [⟨"Change".toList, "-6.95".toList⟩]) fun _ => []) := by
  have hblank : noSpaces aaplPost.url ≠ [] := by decide
  have hchange : read [⟨"Change".toList, "-6.95".toList⟩] "Change" ≠ [] := by decide
  refine ⟨hblank, hchange, ?_⟩
  exact (page_wellBuilt_iff aaplPost (fun _ => [⟨"Change".toList, "-6.95".toList⟩]) (fun _ => [])
    rfl hblank hchange).mpr (by decide)

/-- A change `N/A` has no branch: its rows are in no table. -/
theorem notAvailable_not_wellBuilt :
    noSpaces aaplPost.url ≠ [] ∧ read [⟨"Change".toList, "N/A".toList⟩] "Change" ≠ [] ∧
    ¬ WellBuilt [⟨"Change".toList, "N/A".toList⟩]
      (page aaplPost (fun _ => [⟨"Change".toList, "N/A".toList⟩]) fun _ => []) := by
  refine ⟨by decide, by decide, ?_⟩
  intro hbuilt
  have htables := hbuilt.tables
  exact absurd htables (by decide +kernel)

end WebTech.SearchPage
