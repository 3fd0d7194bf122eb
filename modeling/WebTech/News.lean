/-
# `WebTech.News` — is there news, and which item is opened?

The loop over the items fills both arrays in step, so a position in the list is
one item (`newsLoop_items`).  `hasNews` is assigned in every round and so is
what the last item says:

    items                                      hasNews
    none                                       false
    the last has a link                        true
    the last has none                          false, whatever the others have

It is right unless the last item has no link and another one has
(`news_available_iff`).
-/
import WebTech.Util

namespace WebTech.Util

open Rfc8259 MainActivity

/-- An item of the response. -/
structure Headline where
  title : Text
  link : Text
  deriving DecidableEq, Repr

def Headline.hasLink (i : Headline) : Prop := i.link ≠ "No Link".toList

instance decHasLink (i : Headline) : Decidable i.hasLink :=
  inferInstanceAs (Decidable (i.link ≠ "No Link".toList))

/-- The members of `result` and of `result.Quote` that are read as strings. -/
def resultNames : List String := ["Name", "Symbol", "StockChartImageURL"]

def quoteNames : List String :=
  ["ChangeType", "Change", "ChangeInPercent", "LastTradePriceOnly", "Open", "YearLow", "YearHigh",
    "Volume", "OneYearTargetPrice", "Bid", "DaysLow", "DaysHigh", "Ask", "AverageDailyVolume",
    "PreviousClose", "MarketCapitalization"]

def IsHeadline (v : Json) (i : Headline) : Prop :=
  member "Title" v = some (.str i.title) ∧ member "Link" v = some (.str i.link)

/-- The JSON value of a response with the news `items`; it may have other
members. -/
def IsResponse (v : Json) (items : List Headline) : Prop :=
  ∃ rs qs ns vs, member "result" v = some (.obj rs) ∧ member "Quote" (.obj rs) = some (.obj qs) ∧
    (∀ k ∈ resultNames, ∃ s, member k (.obj rs) = some (.str s)) ∧
    (∀ k ∈ quoteNames, ∃ s, member k (.obj qs) = some (.str s)) ∧
    member "News" (.obj rs) = some (.obj ns) ∧ member "Item" (.obj ns) = some (.arr vs) ∧
    List.Forall₂ IsHeadline vs items

/-! ## The loop -/

section Loop
variable {lib : OrgJson}

theorem getString_of_member {v : Json} {k : String} {s : Text} (h : member k v = some (.str s)) :
    getString lib v k = .ok s := by
  rw [getString, h]

theorem IsHeadline.asObject {v : Json} {i : Headline} (h : IsHeadline v i) : asObject v = .ok v := by
  obtain ⟨ms, rfl, -⟩ := member_eq_some h.1
  rfl

/-- **The loop**: both arrays hold the items in their order, and the flag is the
last item's. -/
theorem newsLoop_items {vs : List Json} {items : List Headline} (h : List.Forall₂ IsHeadline vs items) :
    ∀ (newsh newslinks : List Text) (hasNews : Bool),
      newsLoop lib vs newsh newslinks hasNews =
        .ok (newsh ++ items.map Headline.title, newslinks ++ items.map Headline.link,
          (items.getLast?.map fun i => decide i.hasLink).getD hasNews) := by
  induction h with
  | nil =>
      intro newsh newslinks hasNews
      rw [newsLoop, List.map_nil, List.map_nil, List.append_nil, List.append_nil]
      rfl
  | @cons v i vs items hi _ ih =>
      intro newsh newslinks hasNews
      rw [newsLoop, hi.asObject]
      show (getString lib v "Title" >>= fun title => getString lib v "Link" >>= fun link =>
        newsLoop lib vs (newsh ++ [title]) (newslinks ++ [link]) _) = _
      rw [getString_of_member hi.1, getString_of_member hi.2]
      show newsLoop lib vs (newsh ++ [i.title]) (newslinks ++ [i.link]) (decide i.hasLink) = _
      rw [ih, List.map_cons, List.map_cons, List.append_assoc, List.append_assoc, List.getLast?_cons]
      cases items.getLast? with
      | none => rfl
      | some last => rfl

end Loop

/-! ## The map -/

/-- `hasNews`, the count and the two arrays of a map belong to the items, and so
does what is opened at each position. -/
structure NewsOf (m : StockMap) (items : List Headline) : Prop where
  hasNews : m.hasNews = true ↔ ∃ i ∈ items, i.hasLink
  newsLength : m.newsLength = items.length
  newsh : m.newsh = items.map Headline.title
  newslinks : m.newslinks = items.map Headline.link
  opened : ∃ extras, loadNews (some m) = .ok extras ∧
    ∀ pos, onClick extras pos 0 = items[pos]?.map fun i => ⟨i.title, i.link⟩

/-- The flag is right when the last item has a link, or no item has one. -/
def LastDecides (items : List Headline) : Prop :=
  (∀ i ∈ items, ¬ i.hasLink) ∨ ∃ i ∈ items.getLast?, i.hasLink

theorem lastFlag_iff (items : List Headline) :
    (((items.getLast?.map fun i => decide i.hasLink).getD false = true) ↔
      ∃ i ∈ items, i.hasLink) ↔ LastDecides items := by
  cases hl : items.getLast? with
  | none =>
      rw [List.getLast?_eq_none_iff] at hl
      subst hl
      exact ⟨fun _ => .inl nofun, fun _ => ⟨nofun, nofun⟩⟩
  | some last =>
      have hmem : last ∈ items := List.mem_of_getLast? hl
      show (decide last.hasLink = true ↔ _) ↔ _
      rw [decide_eq_true_iff, LastDecides, hl]
      constructor
      · intro h
        by_cases hlast : last.hasLink
        · exact .inr ⟨last, rfl, hlast⟩
        · exact .inl fun i hi hlink => hlast (h.mpr ⟨i, hi, hlink⟩)
      · rintro (hnone | ⟨i, hi, hlink⟩)
        · exact ⟨fun h => absurd h (hnone last hmem), fun ⟨i, hi, h⟩ => absurd h (hnone i hi)⟩
        · cases hi
          exact ⟨fun h => ⟨last, hmem, h⟩, fun _ => hlink⟩

section Response
variable {lib : OrgJson} {body line : Text} {v : Json} {items : List Headline}

/-- What `getStockData` makes of a response: its news. -/
theorem getStockData_news (hline : readLine body = some line) (hparse : lib.parse line = some v)
    (h : IsResponse v items) : ∃ m, getStockData lib body = .ok m ∧
      m.hasNews = (items.getLast?.map fun i => decide i.hasLink).getD false ∧
      m.newsLength = items.length ∧ m.newsh = items.map Headline.title ∧
      m.newslinks = items.map Headline.link := by
  obtain ⟨rs, qs, ns, vs, hres, hquo, hrnames, hqnames, hnews, hitem, hitems⟩ := h
  obtain ⟨ms, rfl, -⟩ := member_eq_some hres
  simp only [resultNames, quoteNames, List.forall_mem_cons] at hrnames hqnames
  obtain ⟨⟨_, h₁⟩, ⟨_, h₂⟩, ⟨_, h₃⟩, -⟩ := hrnames
  obtain ⟨⟨_, q₁⟩, ⟨_, q₂⟩, ⟨_, q₃⟩, ⟨_, q₄⟩, ⟨_, q₅⟩, ⟨_, q₆⟩, ⟨_, q₇⟩, ⟨_, q₈⟩, ⟨_, q₉⟩, ⟨_, q₁₀⟩,
    ⟨_, q₁₁⟩, ⟨_, q₁₂⟩, ⟨_, q₁₃⟩, ⟨_, q₁₄⟩, ⟨_, q₁₅⟩, ⟨_, q₁₆⟩, -⟩ := hqnames
  have hlength : vs.length = items.length := hitems.length_eq
  rw [getStockData, hline]
  simp only [parseObject, hparse, getJSONObject, getJSONArray, hres, hquo, hnews, hitem, bind,
    Except.bind, getString_of_member h₁, getString_of_member h₂, getString_of_member h₃,
    getString_of_member q₁, getString_of_member q₂, getString_of_member q₃, getString_of_member q₄,
    getString_of_member q₅, getString_of_member q₆, getString_of_member q₇, getString_of_member q₈,
    getString_of_member q₉, getString_of_member q₁₀, getString_of_member q₁₁,
    getString_of_member q₁₂, getString_of_member q₁₃, getString_of_member q₁₄,
    getString_of_member q₁₅, getString_of_member q₁₆, newsLoop_items hitems, List.nil_append]
  exact ⟨_, rfl, rfl, hlength, rfl, rfl⟩

/-- **When the news are announced as they are**: the flag, and with it
everything else, is right exactly when the last item decides. -/
theorem news_available_iff (hline : readLine body = some line) (hparse : lib.parse line = some v)
    (h : IsResponse v items) :
    (∃ m, getStockData lib body = .ok m ∧ NewsOf m items) ↔ LastDecides items := by
  obtain ⟨m, hm, hflag, hlen, hnewsh, hlinks⟩ := getStockData_news hline hparse h
  rw [← lastFlag_iff, ← hflag]
  constructor
  · rintro ⟨m', hm', hof⟩
    cases hm.symm.trans hm'
    exact hof.hasNews
  · intro hright
    refine ⟨m, hm, hright, hlen, hnewsh, hlinks, _, rfl, ?_⟩
    intro pos
    rw [onClick, if_pos rfl, hnewsh, hlinks, List.getElem?_map, List.getElem?_map]
    cases items[pos]? with
    | none => rfl
    | some i => rfl

end Response

/-! ## Two responses -/

/-- A response with empty fields. -/
def emptyResponse (items : List Headline) : Json :=
  .obj [("result".toList, .obj (resultNames.map (fun k => (k.toList, .str [])) ++
    [("Quote".toList, .obj (quoteNames.map fun k => (k.toList, .str []))),
      ("News".toList, .obj [("Item".toList, .arr (items.map fun i =>
        .obj [("Title".toList, .str i.title), ("Link".toList, .str i.link)]))])]))]

theorem isResponse_emptyResponse (items : List Headline) : IsResponse (emptyResponse items) items := by
  refine ⟨_, _, _, _, rfl, rfl, ?_, ?_, rfl, rfl, ?_⟩
  · simp only [resultNames, List.forall_mem_cons]
    exact ⟨⟨_, rfl⟩, ⟨_, rfl⟩, ⟨_, rfl⟩, nofun⟩
  · simp only [quoteNames, List.forall_mem_cons]
    exact ⟨⟨_, rfl⟩, ⟨_, rfl⟩, ⟨_, rfl⟩, ⟨_, rfl⟩, ⟨_, rfl⟩, ⟨_, rfl⟩, ⟨_, rfl⟩, ⟨_, rfl⟩, ⟨_, rfl⟩,
      ⟨_, rfl⟩, ⟨_, rfl⟩, ⟨_, rfl⟩, ⟨_, rfl⟩, ⟨_, rfl⟩, ⟨_, rfl⟩, ⟨_, rfl⟩, nofun⟩
  · rw [List.forall₂_map_left_iff, List.forall₂_same]
    exact fun i _ => ⟨rfl, rfl⟩

theorem parse_emptyResponse (items : List Headline) :
    strict.parse (print (emptyResponse items)) = some (emptyResponse items) := by
  have hitems : NumeralsElems (items.map fun i =>
      .obj [("Title".toList, .str i.title), ("Link".toList, .str i.link)]) := by
    rw [numeralsElems_iff]
    intro v hv
    obtain ⟨i, -, rfl⟩ := List.mem_map.mp hv
    exact ⟨trivial, trivial, trivial⟩
  have hnum : Numerals (emptyResponse items) := by
    simpa [emptyResponse, resultNames, quoteNames, Numerals, NumeralsMembers] using hitems
  have hparse := parse_print hnum (w := []) (List.forall_mem_nil _)
  rw [List.append_nil] at hparse
  exact strict_parses _ _ hparse

theorem readLine_emptyResponse (items : List Headline)
    (h : (print (emptyResponse items)).all (fun c => c ≠ '\n' && c ≠ '\r') = true) :
    readLine (print (emptyResponse items)) = some (print (emptyResponse items)) := by
  rw [readLine, if_neg (by rw [emptyResponse, print]; nofun)]
  exact congrArg some (List.takeWhile_eq_self_iff.mpr (List.all_eq_true.mp h))

def linkedLast : List Headline := [⟨"Rally".toList, "No Link".toList⟩, ⟨"Split".toList, "u".toList⟩]

theorem news_available_linkedLast :
    ∃ m, getStockData strict (print (emptyResponse linkedLast)) = .ok m ∧ NewsOf m linkedLast := by
  have hline := readLine_emptyResponse linkedLast (by decide +kernel)
  exact (news_available_iff hline (parse_emptyResponse linkedLast)
    (isResponse_emptyResponse linkedLast)).mpr (.inr ⟨_, rfl, by decide⟩)

def linkedFirst : List Headline := [⟨"Split".toList, "u".toList⟩, ⟨"Rally".toList, "No Link".toList⟩]

/-- The last item hides the one before it. -/
theorem news_hidden_linkedFirst :
    ¬ ∃ m, getStockData strict (print (emptyResponse linkedFirst)) = .ok m ∧
      NewsOf m linkedFirst := by
  have hline := readLine_emptyResponse linkedFirst (by decide +kernel)
  obtain ⟨m', hm', hflag, -⟩ := getStockData_news hline
    (parse_emptyResponse linkedFirst) (isResponse_emptyResponse linkedFirst)
  rintro ⟨m, hm, hof⟩
  cases hm.symm.trans hm'
  have hright := hof.hasNews.mpr ⟨⟨"Split".toList, "u".toList⟩, by decide, by decide⟩
  exact nomatch hflag.symm.trans hright

end WebTech.Util
