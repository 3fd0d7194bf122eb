/-
# `WebTech.Assignment8` — the JSON text that `assignment8.doGet` writes by hand

`doGet` reads a quote record out of the backend document and assembles its
answer in `jsonString` by concatenation: each value goes between quotation
marks as it is.  The clients (`changeRequest` in `search_stock.html`,
`Util.getStockData` on Android) read it with a JSON parser.

**Proved here.**  The text is valid JSON and reads back as the record exactly
when no text of the record holds a quotation mark, a backslash or a control
character (`jsonString_readsBack_iff`).  One direction builds the derivation
of the text.  The other is a count: whatever value a JSON reader gets out of
the text, the accessors find the whole record in it, so it weighs at least as
much as the record's own value, and that weighs one more than the text has
characters for each character the writer should have escaped.
-/
import WebTech.Basic

namespace WebTech

open Rfc8259

namespace Assignment8

/-- One news item. -/
structure Item where
  Link : Text
  Title : Text
  deriving DecidableEq, Repr

/-- The record `doGet` has read from the backend document. -/
structure QuoteRecord where
  Name : Text
  Symbol : Text
  ChangeType : Text
  Change : Text
  ChangeInPercent : Text
  LastTradePriceOnly : Text
  PreviousClose : Text
  DaysLow : Text
  DaysHigh : Text
  Open : Text
  YearLow : Text
  YearHigh : Text
  Bid : Text
  Volume : Text
  Ask : Text
  AverageDailyVolume : Text
  OneYearTargetPrice : Text
  MarketCapitalization : Text
  Items : List Item
  StockChart : Text
  deriving DecidableEq, Repr

/-! ## The writer -/

/-- `"\"Name\":\"" + Name + "\""`. -/
def field (name : Text) (value : Text) : Text :=
  '"' :: name ++ ['"', ':', '"'] ++ value ++ ['"']

/-- Consecutive fields, a comma after each but the last. -/
def fields : List (Text × Text) → Text
  | [] => []
  | [f] => field f.1 f.2
  | f :: fs => field f.1 f.2 ++ ',' :: fields fs

/-- The sixteen lines of the `Quote` object, in their order. -/
def QuoteRecord.quoteFields (q : QuoteRecord) : List (Text × Text) :=
  [("ChangeType".toList, q.ChangeType),
   ("Change".toList, q.Change),
   ("ChangeInPercent".toList, q.ChangeInPercent),
   ("LastTradePriceOnly".toList, q.LastTradePriceOnly),
   ("PreviousClose".toList, q.PreviousClose),
   ("DaysLow".toList, q.DaysLow),
   ("DaysHigh".toList, q.DaysHigh),
   ("Open".toList, q.Open),
   ("YearLow".toList, q.YearLow),
   ("YearHigh".toList, q.YearHigh),
   ("Bid".toList, q.Bid),
   ("Volume".toList, q.Volume),
   ("Ask".toList, q.Ask),
   ("AverageDailyVolume".toList, q.AverageDailyVolume),
   ("OneYearTargetPrice".toList, q.OneYearTargetPrice),
   ("MarketCapitalization".toList, q.MarketCapitalization)]

/-- `"{\"Link\":\"" + Link[i] + "\",\"Title\":\"" + Title[i] + "\"}"`. -/
def itemText (i : Item) : Text :=
  '{' :: fields [("Link".toList, i.Link), ("Title".toList, i.Title)] ++ ['}']

/-- The loop over the items: a comma after each but the last. -/
def itemsText : List Item → Text
  | [] => []
  | [i] => itemText i
  | i :: is => itemText i ++ ',' :: itemsText is

/-- `jsonString`. -/
def jsonString (q : QuoteRecord) : Text :=
  "\x7b\"result\":\x7b".toList
    ++ field "Name".toList q.Name ++ [',']
    ++ field "Symbol".toList q.Symbol ++ [',']
    ++ "\"Quote\":\x7b".toList
    ++ fields q.quoteFields
    ++ "\x7d,".toList
    ++ "\"News\":\x7b \"Item\":[".toList
    ++ itemsText q.Items
    ++ "]\x7d,".toList ++ field "StockChartImageURL".toList q.StockChart ++ "\x7d\x7d".toList

/-! ## The readers

`changeRequest` and `getStockData` use the same accessors on the value their
parser returns. -/

def readItem (v : Json) : Option Item := do
  return { Link := ← stringAt v "Link", Title := ← stringAt v "Title" }

/-- `result.Name`, `result.Quote.*`, `result.News.Item[i].*` and
`result.StockChartImageURL`. -/
def readBack (v : Json) : Option QuoteRecord := do
  let result ← member "result" v
  let quote ← member "Quote" result
  let item ← member "News" result >>= member "Item" >>= elements
  return {
    Name := ← stringAt result "Name"
    Symbol := ← stringAt result "Symbol"
    ChangeType := ← stringAt quote "ChangeType"
    Change := ← stringAt quote "Change"
    ChangeInPercent := ← stringAt quote "ChangeInPercent"
    LastTradePriceOnly := ← stringAt quote "LastTradePriceOnly"
    PreviousClose := ← stringAt quote "PreviousClose"
    DaysLow := ← stringAt quote "DaysLow"
    DaysHigh := ← stringAt quote "DaysHigh"
    Open := ← stringAt quote "Open"
    YearLow := ← stringAt quote "YearLow"
    YearHigh := ← stringAt quote "YearHigh"
    Bid := ← stringAt quote "Bid"
    Volume := ← stringAt quote "Volume"
    Ask := ← stringAt quote "Ask"
    AverageDailyVolume := ← stringAt quote "AverageDailyVolume"
    OneYearTargetPrice := ← stringAt quote "OneYearTargetPrice"
    MarketCapitalization := ← stringAt quote "MarketCapitalization"
    Items := ← item.mapM readItem
    StockChart := ← stringAt result "StockChartImageURL" }

/-- The text is valid JSON, and the accessors read the record out of it. -/
def ReadsBack (q : QuoteRecord) : Prop :=
  ∃ v, parse (jsonString q) = some v ∧ readBack v = some q

/-! ## The record's own value -/

/-- Members with string values. -/
def members (fs : List (Text × Text)) : List (Text × Json) :=
  fs.map fun f => (f.1, .str f.2)

def Item.toJson (i : Item) : Json :=
  .obj (members [("Link".toList, i.Link), ("Title".toList, i.Title)])

/-- What `jsonString q` is meant to be a text of. -/
def QuoteRecord.toJson (q : QuoteRecord) : Json :=
  .obj [("result".toList, .obj
    [("Name".toList, .str q.Name),
     ("Symbol".toList, .str q.Symbol),
     ("Quote".toList, .obj (members q.quoteFields)),
     ("News".toList, .obj [("Item".toList, .arr (q.Items.map Item.toJson))]),
     ("StockChartImageURL".toList, .str q.StockChart)])]

theorem mapM_readItem : ∀ (is : List Item), (is.map Item.toJson).mapM readItem = some is
  | [] => rfl
  | i :: is => by
      rw [List.map_cons, List.mapM_cons, mapM_readItem is]
      rfl

theorem readBack_toJson (q : QuoteRecord) : readBack q.toJson = some q := by
  have h : readBack q.toJson =
      ((q.Items.map Item.toJson).mapM readItem).bind fun is => some { q with Items := is } := rfl
  rw [h, mapM_readItem]
  rfl

/-! ## A clean record is written as its own value -/

/-- The texts of the record, in the order they are written. -/
def QuoteRecord.texts (q : QuoteRecord) : List Text :=
  [q.Name, q.Symbol] ++ q.quoteFields.map Prod.snd
    ++ q.Items.flatMap (fun i => [i.Link, i.Title]) ++ [q.StockChart]

/-- No text of the record holds a character that JSON escapes. -/
def QuoteRecord.Clean (q : QuoteRecord) : Prop := ∀ s ∈ q.texts, Rfc8259.Clean s

theorem field_append (name value r : Text) :
    field name value ++ r = '"' :: (name ++ '"' :: ':' :: '"' :: (value ++ '"' :: r)) := by
  simp [field]

theorem skipWs_quote (t : Text) : skipWs ('"' :: t) = '"' :: t :=
  skipWs_cons_of_not (by decide) _

theorem members_fields {r : Text} : ∀ (fs : List (Text × Text)), fs ≠ [] →
    (∀ f ∈ fs, Rfc8259.Clean f.1 ∧ Rfc8259.Clean f.2) →
    Members (fields fs ++ '}' :: r) (members fs) r
  | [], hne, _ => absurd rfl hne
  | [f], _, h => by
      obtain ⟨hk, hv⟩ := h f List.mem_cons_self
      rw [fields, field_append]
      exact hk.last (skipWs_quote _) hv.val
  | f :: g :: fs, _, h => by
      obtain ⟨hk, hv⟩ := h f List.mem_cons_self
      have ih := members_fields (g :: fs) (by nofun) (fun x hx => h x (List.mem_cons_of_mem _ hx))
        (r := r)
      rw [fields, List.append_assoc, field_append]
      · exact hk.cons (skipWs_quote _) hv.val ih
      · nofun

/-- The object written around some fields. -/
theorem val_fields (fs : List (Text × Text)) (hne : fs ≠ [])
    (h : ∀ f ∈ fs, Rfc8259.Clean f.1 ∧ Rfc8259.Clean f.2) (r : Text) :
    Val ('{' :: (fields fs ++ '}' :: r)) (.obj (members fs)) r :=
  .obj (skipWs_cons_of_not (by decide) _) (members_fields fs hne h)

theorem val_itemText {i : Item} {r : Text} (hl : Rfc8259.Clean i.Link)
    (ht : Rfc8259.Clean i.Title) : Val (itemText i ++ r) i.toJson r := by
  rw [itemText, List.cons_append, List.cons_append, List.append_assoc]
  refine val_fields _ (by nofun) (fun f hf => ?_) r
  rcases List.mem_cons.mp hf with rfl | hf
  · exact ⟨show Rfc8259.Clean "Link".toList by decide, hl⟩
  · rw [List.mem_singleton.mp hf]
    exact ⟨show Rfc8259.Clean "Title".toList by decide, ht⟩

theorem elems_itemsText {r : Text} : ∀ (is : List Item), is ≠ [] →
    (∀ i ∈ is, Rfc8259.Clean i.Link ∧ Rfc8259.Clean i.Title) →
    Elems (itemsText is ++ ']' :: r) (is.map Item.toJson) r
  | [], hne, _ => absurd rfl hne
  | [i], _, h => by
      obtain ⟨hl, ht⟩ := h i List.mem_cons_self
      exact .last (val_itemText hl ht) (skipWs_cons_of_not (by decide) _)
  | i :: j :: is, _, h => by
      obtain ⟨hl, ht⟩ := h i List.mem_cons_self
      have ih := elems_itemsText (j :: is) (by nofun)
        (fun x hx => h x (List.mem_cons_of_mem _ hx)) (r := r)
      rw [itemsText, List.append_assoc]
      · exact .cons (val_itemText hl ht) (skipWs_cons_of_not (by decide) _) ih
      · nofun

theorem val_items {r : Text} {is : List Item}
    (h : ∀ i ∈ is, Rfc8259.Clean i.Link ∧ Rfc8259.Clean i.Title) :
    Val ('[' :: (itemsText is ++ ']' :: r)) (.arr (is.map Item.toJson)) r := by
  have hs := skipWs_cons_of_not (c := '[') (by decide) (itemsText is ++ ']' :: r)
  by_cases hne : is = []
  · subst hne
    exact .arrNil hs (skipWs_cons_of_not (by decide) _)
  · exact .arr hs (elems_itemsText is hne h)

theorem clean_quoteFields {q : QuoteRecord} (h : q.Clean) :
    ∀ f ∈ q.quoteFields, Rfc8259.Clean f.1 ∧ Rfc8259.Clean f.2 := by
  intro f hf
  refine ⟨?_, h f.2 ?_⟩
  · have hk : f.1 ∈ q.quoteFields.map Prod.fst := List.mem_map_of_mem hf
    have hall : ∀ k ∈ q.quoteFields.map Prod.fst, Rfc8259.Clean k := by
      show ∀ k ∈ ["ChangeType".toList, "Change".toList, "ChangeInPercent".toList,
        "LastTradePriceOnly".toList, "PreviousClose".toList, "DaysLow".toList,
        "DaysHigh".toList, "Open".toList, "YearLow".toList, "YearHigh".toList, "Bid".toList,
        "Volume".toList, "Ask".toList, "AverageDailyVolume".toList, "OneYearTargetPrice".toList,
        "MarketCapitalization".toList], Rfc8259.Clean k
      decide
    exact hall _ hk
  · simp only [QuoteRecord.texts, List.mem_append]
    exact .inl (.inl (.inr (List.mem_map_of_mem hf)))

theorem clean_items {q : QuoteRecord} (h : q.Clean) :
    ∀ i ∈ q.Items, Rfc8259.Clean i.Link ∧ Rfc8259.Clean i.Title := by
  intro i hi
  have hmem : ∀ s ∈ [i.Link, i.Title], s ∈ q.texts := by
    intro s hs
    simp only [QuoteRecord.texts, List.mem_append]
    exact .inl (.inr (List.mem_flatMap.mpr ⟨i, hi, hs⟩))
  exact ⟨h _ (hmem _ (by simp)), h _ (hmem _ (by simp))⟩

/-- The tail of the text: the chart's member closes both objects. -/
theorem members_chart {q : QuoteRecord} (h : q.Clean) :
    Members (field "StockChartImageURL".toList q.StockChart ++ ['}', '}'])
      [("StockChartImageURL".toList, .str q.StockChart)] ['}'] := by
  have hChart : Rfc8259.Clean q.StockChart := h _ (by simp [QuoteRecord.texts])
  have hkey : Rfc8259.Clean "StockChartImageURL".toList := by decide
  rw [field_append]
  exact hkey.last (skipWs_quote _) hChart.val

/-- The `News` object; the space after its brace is skipped. -/
theorem val_news {q : QuoteRecord} (h : q.Clean) (r : Text) :
    Val ('{' :: ' ' :: '"' :: ("Item".toList ++ '"' :: ':' :: '[' ::
        (itemsText q.Items ++ ']' :: '}' :: r)))
      (.obj [("Item".toList, .arr (q.Items.map Item.toJson))]) r := by
  have hkey : Rfc8259.Clean "Item".toList := by decide
  exact .obj (skipWs_cons_of_not (by decide) _) (hkey.last rfl (val_items (clean_items h)))

theorem jsonString_eq (q : QuoteRecord) :
    jsonString q = '{' :: '"' :: ("result".toList ++ '"' :: ':' :: '{' ::
      (field "Name".toList q.Name ++ ',' ::
        (field "Symbol".toList q.Symbol ++ ',' ::
          '"' :: ("Quote".toList ++ '"' :: ':' :: '{' :: (fields q.quoteFields ++ '}' :: ',' ::
            '"' :: ("News".toList ++ '"' :: ':' ::
              '{' :: ' ' :: '"' :: ("Item".toList ++ '"' :: ':' :: '[' ::
                (itemsText q.Items ++ ']' :: '}' :: ',' ::
                  (field "StockChartImageURL".toList q.StockChart ++ ['}', '}']))))))))) := by
  have hassoc : ∀ a n s b qf c d is e ch f : Text,
      a ++ n ++ [','] ++ s ++ [','] ++ b ++ qf ++ c ++ d ++ is ++ e ++ ch ++ f
        = a ++ (n ++ ',' :: (s ++ ',' :: (b ++ (qf ++ (c ++ (d ++ (is ++ (e ++ (ch ++ f))))))))) := by
    intros
    simp
  exact hassoc _ _ _ _ _ _ _ _ _ _ _

/-- The text of a clean record derives the record's own value. -/
theorem val_jsonString {q : QuoteRecord} (h : q.Clean) : Val (jsonString q) q.toJson [] := by
  have hName : Rfc8259.Clean q.Name := h _ (by simp [QuoteRecord.texts])
  have hSymbol : Rfc8259.Clean q.Symbol := h _ (by simp [QuoteRecord.texts])
  have kresult : Rfc8259.Clean "result".toList := by decide
  have kName : Rfc8259.Clean "Name".toList := by decide
  have kSymbol : Rfc8259.Clean "Symbol".toList := by decide
  have kQuote : Rfc8259.Clean "Quote".toList := by decide
  have kNews : Rfc8259.Clean "News".toList := by decide
  have hnews := kNews.cons (skipWs_quote _) (val_news h _) (members_chart h)
  have hquote := val_fields q.quoteFields (by nofun) (clean_quoteFields h)
  have hrest := kQuote.cons (skipWs_quote _) (hquote _) hnews
  have hsym := kSymbol.cons (skipWs_quote _) hSymbol.val hrest
  have hname := kName.cons (skipWs_quote _) hName.val hsym
  have hresult := kresult.last (skipWs_quote _) (.obj (skipWs_cons_of_not (by decide) _) hname)
  rw [jsonString_eq, field_append, field_append]
  exact .obj (skipWs_cons_of_not (by decide) _) hresult

theorem readsBack_of_clean {q : QuoteRecord} (h : q.Clean) : ReadsBack q :=
  ⟨q.toJson, parse_iff.mpr ⟨[], val_jsonString h, rfl⟩, readBack_toJson q⟩

/-! ## What reads back was clean

`specials` counts the characters of the record that JSON escapes.  The
record's own value weighs the visible characters of `jsonString` and one more
for each of these, and no value the record can be read from weighs less. -/

/-- The number of characters JSON escapes. -/
def specials (s : Text) : Nat := s.countP isSpecial

def fieldsSpecials (fs : List (Text × Text)) : Nat :=
  (fs.map fun f => specials f.1 + specials f.2).sum

def itemsSpecials (is : List Item) : Nat :=
  (is.map fun i => specials i.Link + specials i.Title).sum

theorem visible_field (name value : Text) :
    visible (field name value) = visible name + visible value + 5 := by
  rw [field]
  simp only [List.cons_append]
  simp [visible_cons]
  omega

/-- A comma after each field but the last, and the brace after that one. -/
theorem weightMembers_fields : ∀ (fs : List (Text × Text)), fs ≠ [] →
    weightMembers (members fs) = visible (fields fs) + 1 + fieldsSpecials fs
  | [], hne => absurd rfl hne
  | [f], _ => by
      simp only [members, fields, fieldsSpecials, specials, List.map_cons, List.map_nil,
        List.sum_cons, List.sum_nil, weightMembers, weight, textWeight_eq, visible_field]
      omega
  | f :: g :: fs, _ => by
      have ih := weightMembers_fields (g :: fs) (by nofun)
      rw [members, fieldsSpecials] at ih
      rw [fields, members, fieldsSpecials]
      · simp only [List.map_cons, List.sum_cons] at ih ⊢
        rw [weightMembers, ih, visible_append, visible_field, visible_cons_of_ne (by decide)]
        simp only [weight, textWeight_eq, specials]
        omega
      · nofun

theorem weight_obj_fields (fs : List (Text × Text)) (hne : fs ≠ []) :
    weight (.obj (members fs)) = visible (fields fs) + 2 + fieldsSpecials fs := by
  have := weightMembers_fields fs hne
  simp only [weight]
  omega

theorem weight_item (i : Item) :
    weight i.toJson = visible (itemText i) + (specials i.Link + specials i.Title) := by
  have h := weight_obj_fields [("Link".toList, i.Link), ("Title".toList, i.Title)] (by nofun)
  have hkeys : specials "Link".toList = 0 ∧ specials "Title".toList = 0 := by decide
  rw [Item.toJson, h, itemText, List.cons_append, visible_cons_of_ne (by decide), visible_append,
    visible_cons_of_ne (by decide)]
  simp only [fieldsSpecials, List.map_cons, List.map_nil, List.sum_cons, List.sum_nil, hkeys.1,
    hkeys.2, visible_nil]
  omega

theorem weightElems_items : ∀ (is : List Item), is ≠ [] →
    weightElems (is.map Item.toJson) = visible (itemsText is) + 1 + itemsSpecials is
  | [], hne => absurd rfl hne
  | [i], _ => by
      simp only [List.map_cons, List.map_nil, weightElems, weight_item, itemsText, itemsSpecials,
        List.sum_cons, List.sum_nil]
      omega
  | i :: j :: is, _ => by
      have ih := weightElems_items (j :: is) (by nofun)
      rw [itemsSpecials] at ih
      rw [itemsText, itemsSpecials]
      · simp only [List.map_cons, List.sum_cons] at ih ⊢
        rw [weightElems, ih, visible_append, visible_cons_of_ne (by decide), weight_item]
        omega
      · nofun

theorem weight_items (is : List Item) :
    weight (.arr (is.map Item.toJson)) = visible (itemsText is) + 2 + itemsSpecials is := by
  by_cases hne : is = []
  · subst hne
    rfl
  · have := weightElems_items is hne
    simp only [weight]
    omega

/-- The characters of the record that JSON escapes. -/
def QuoteRecord.specials (q : QuoteRecord) : Nat :=
  Assignment8.specials q.Name + Assignment8.specials q.Symbol + fieldsSpecials q.quoteFields
    + itemsSpecials q.Items + Assignment8.specials q.StockChart

/-- **The record weighs more than its text shows**, by the characters the
writer did not escape. -/
theorem weight_toJson (q : QuoteRecord) :
    weight q.toJson = visible (jsonString q) + q.specials := by
  have hq := weight_obj_fields q.quoteFields (by nofun)
  have hi := weight_items q.Items
  have hN : visible "Name".toList = 4 := by decide
  have hS : visible "Symbol".toList = 6 := by decide
  have hC : visible "StockChartImageURL".toList = 18 := by decide
  have wr : textWeight "result".toList = 6 := by decide
  have wN : textWeight "Name".toList = 4 := by decide
  have wS : textWeight "Symbol".toList = 6 := by decide
  have wQ : textWeight "Quote".toList = 5 := by decide
  have wW : textWeight "News".toList = 4 := by decide
  have wI : textWeight "Item".toList = 4 := by decide
  have wC : textWeight "StockChartImageURL".toList = 18 := by decide
  have hw : weight q.toJson = 1 + max 1 (2 + textWeight "result".toList + 1
      + (1 + max 1 (2 + textWeight "Name".toList + 1 + (2 + textWeight q.Name) + 1
        + (2 + textWeight "Symbol".toList + 1 + (2 + textWeight q.Symbol) + 1
        + (2 + textWeight "Quote".toList + 1 + weight (.obj (members q.quoteFields)) + 1
        + (2 + textWeight "News".toList + 1
          + (1 + max 1 (2 + textWeight "Item".toList + 1
            + weight (.arr (q.Items.map Item.toJson)) + 1 + 0)) + 1
        + (2 + textWeight "StockChartImageURL".toList + 1 + (2 + textWeight q.StockChart) + 1
        + 0)))))) + 1 + 0) := rfl
  have hvis : ∀ a n s b qf c d is e ch f : Text,
      visible (a ++ n ++ [','] ++ s ++ [','] ++ b ++ qf ++ c ++ d ++ is ++ e ++ ch ++ f)
        = visible a + visible n + 1 + visible s + 1 + visible b + visible qf + visible c
          + visible d + visible is + visible e + visible ch + visible f := by
    intros
    simp only [visible_append]
    rfl
  have ht : visible (jsonString q) = 11 + visible (field "Name".toList q.Name) + 1
      + visible (field "Symbol".toList q.Symbol) + 1 + 9 + visible (fields q.quoteFields) + 2 + 16
      + visible (itemsText q.Items) + 3 + visible (field "StockChartImageURL".toList q.StockChart)
      + 2 := hvis _ _ _ _ _ _ _ _ _ _ _
  rw [visible_field, visible_field, visible_field, hN, hS, hC] at ht
  rw [hw, ht, hq, hi, wr, wN, wS, wQ, wW, wI, wC, textWeight_eq, textWeight_eq, textWeight_eq,
    QuoteRecord.specials, specials, specials, specials]
  omega

/-- An item weighs no more than what it was read from. -/
theorem weight_le_of_readItem {v : Json} {i : Item} (h : readItem v = some i) :
    weight i.toJson ≤ weight v := by
  simp only [readItem, bind, Option.bind_eq_some_iff, pure, Option.some.injEq] at h
  obtain ⟨l, hl, t, ht, rfl⟩ := h
  obtain ⟨ms, rfl, hl'⟩ := stringAt_eq_some.mp hl
  obtain ⟨ms', hms, ht'⟩ := stringAt_eq_some.mp ht
  cases hms
  have hnd : ["Link".toList, "Title".toList].Nodup := by decide
  refine weight_obj_le hnd fun p hp => ?_
  rcases List.mem_cons.mp hp with rfl | hp
  · exact ⟨_, hl', Nat.le_refl _⟩
  · rw [List.mem_singleton.mp hp]
    exact ⟨_, ht', Nat.le_refl _⟩

theorem weightElems_le_of_mapM : ∀ {vs : List Json} {is : List Item},
    vs.mapM readItem = some is → weightElems (is.map Item.toJson) ≤ weightElems vs
  | [], is, h => by
      cases h
      exact Nat.le_refl _
  | v :: vs, is, h => by
      simp only [List.mapM_cons, bind, Option.bind_eq_some_iff, pure, Option.some.injEq] at h
      obtain ⟨i, hi, is', his, rfl⟩ := h
      have := weight_le_of_readItem hi
      have := weightElems_le_of_mapM his
      simp only [List.map_cons, weightElems]
      omega

/-- The sixteen quote members, read from one object. -/
theorem weight_le_of_quote (ms : List (Text × Json)) (q : QuoteRecord)
    (h : ∀ f ∈ q.quoteFields, lookup f.1 ms = some (.str f.2)) :
    weight (.obj (members q.quoteFields)) ≤ weight (.obj ms) := by
  have hnd : ((members q.quoteFields).map Prod.fst).Nodup := by
    show ["ChangeType".toList, "Change".toList, "ChangeInPercent".toList,
      "LastTradePriceOnly".toList, "PreviousClose".toList, "DaysLow".toList,
      "DaysHigh".toList, "Open".toList, "YearLow".toList, "YearHigh".toList, "Bid".toList,
      "Volume".toList, "Ask".toList, "AverageDailyVolume".toList, "OneYearTargetPrice".toList,
      "MarketCapitalization".toList].Nodup
    decide
  refine weight_obj_le hnd fun p hp => ?_
  obtain ⟨f, hf, rfl⟩ := List.mem_map.mp hp
  exact ⟨_, h f hf, Nat.le_refl _⟩

/-- **No value the record can be read from is lighter than the record.** -/
theorem weight_le_of_readBack {v : Json} {q : QuoteRecord} (h : readBack v = some q) :
    weight q.toJson ≤ weight v := by
  -- one reading after the other
  obtain ⟨result, hresult, h⟩ := Option.bind_eq_some_iff.mp h
  obtain ⟨quote, hquote, h⟩ := Option.bind_eq_some_iff.mp h
  obtain ⟨item, hitem, h⟩ := Option.bind_eq_some_iff.mp h
  obtain ⟨is, hpath, helems⟩ := Option.bind_eq_some_iff.mp hitem
  obtain ⟨news, hnews, his⟩ := Option.bind_eq_some_iff.mp hpath
  obtain ⟨x₁, h₁, h⟩ := Option.bind_eq_some_iff.mp h
  obtain ⟨x₂, h₂, h⟩ := Option.bind_eq_some_iff.mp h
  obtain ⟨x₃, h₃, h⟩ := Option.bind_eq_some_iff.mp h
  obtain ⟨x₄, h₄, h⟩ := Option.bind_eq_some_iff.mp h
  obtain ⟨x₅, h₅, h⟩ := Option.bind_eq_some_iff.mp h
  obtain ⟨x₆, h₆, h⟩ := Option.bind_eq_some_iff.mp h
  obtain ⟨x₇, h₇, h⟩ := Option.bind_eq_some_iff.mp h
  obtain ⟨x₈, h₈, h⟩ := Option.bind_eq_some_iff.mp h
  obtain ⟨x₉, h₉, h⟩ := Option.bind_eq_some_iff.mp h
  obtain ⟨x₁₀, h₁₀, h⟩ := Option.bind_eq_some_iff.mp h
  obtain ⟨x₁₁, h₁₁, h⟩ := Option.bind_eq_some_iff.mp h
  obtain ⟨x₁₂, h₁₂, h⟩ := Option.bind_eq_some_iff.mp h
  obtain ⟨x₁₃, h₁₃, h⟩ := Option.bind_eq_some_iff.mp h
  obtain ⟨x₁₄, h₁₄, h⟩ := Option.bind_eq_some_iff.mp h
  obtain ⟨x₁₅, h₁₅, h⟩ := Option.bind_eq_some_iff.mp h
  obtain ⟨x₁₆, h₁₆, h⟩ := Option.bind_eq_some_iff.mp h
  obtain ⟨x₁₇, h₁₇, h⟩ := Option.bind_eq_some_iff.mp h
  obtain ⟨x₁₈, h₁₈, h⟩ := Option.bind_eq_some_iff.mp h
  obtain ⟨items, hitems, h⟩ := Option.bind_eq_some_iff.mp h
  obtain ⟨chart, hchart, h⟩ := Option.bind_eq_some_iff.mp h
  obtain rfl := Option.some.inj h
  obtain ⟨vs, rfl, hresult⟩ := member_eq_some hresult
  obtain ⟨rs, rfl, hquote⟩ := member_eq_some hquote
  obtain ⟨_, hrs, hnews⟩ := member_eq_some hnews
  cases hrs
  obtain ⟨ns, rfl, his⟩ := member_eq_some his
  obtain ⟨qs, rfl, -⟩ := stringAt_eq_some.mp h₃
  have hread : ∀ {k : String} {s : Text} {ms : List (Text × Json)},
      stringAt (.obj ms) k = some s → lookup k.toList ms = some (.str s) := by
    intro k s ms hk
    obtain ⟨_, hms, hk⟩ := stringAt_eq_some.mp hk
    cases hms
    exact hk
  -- from the inside out: the items, the quote, the result object, the whole value
  have hitem : weight (.arr (items.map Item.toJson)) ≤ weight is := by
    cases is with
    | arr vs' =>
        cases helems
        have := weightElems_le_of_mapM hitems
        simp only [weight]
        omega
    | _ => exact nomatch helems
  have hnews' : weight (.obj [("Item".toList, .arr (items.map Item.toJson))])
      ≤ weight (.obj ns) := by
    refine weight_obj_le (List.nodup_singleton _) fun p hp => ?_
    rw [List.mem_singleton.mp hp]
    exact ⟨is, his, hitem⟩
  have hquote' := weight_le_of_quote qs ⟨x₁, x₂, x₃, x₄, x₅, x₆, x₇, x₈, x₉, x₁₀, x₁₁,
    x₁₂, x₁₃, x₁₄, x₁₅, x₁₆, x₁₇, x₁₈, items, chart⟩ (by
      simp only [QuoteRecord.quoteFields, List.forall_mem_cons]
      exact ⟨hread h₃, hread h₄, hread h₅, hread h₆, hread h₇, hread h₈, hread h₉, hread h₁₀, hread h₁₁,
        hread h₁₂, hread h₁₃, hread h₁₄, hread h₁₅, hread h₁₆, hread h₁₇, hread h₁₈, nofun⟩)
  have hnd : ["Name".toList, "Symbol".toList, "Quote".toList, "News".toList,
      "StockChartImageURL".toList].Nodup := by decide
  refine weight_obj_le (List.nodup_singleton _) fun p hp => ?_
  rw [List.mem_singleton.mp hp]
  refine ⟨_, hresult, weight_obj_le hnd fun p hp => ?_⟩
  simp only [List.mem_cons, List.not_mem_nil, or_false] at hp
  rcases hp with rfl | rfl | rfl | rfl | rfl
  · exact ⟨_, hread h₁, Nat.le_refl _⟩
  · exact ⟨_, hread h₂, Nat.le_refl _⟩
  · exact ⟨_, hquote, hquote'⟩
  · exact ⟨_, hnews, hnews'⟩
  · exact ⟨_, hread hchart, Nat.le_refl _⟩

theorem clean_of_specials {q : QuoteRecord} (h : q.specials = 0) : q.Clean := by
  rw [QuoteRecord.specials] at h
  intro s hs
  rw [clean_iff_countP]
  simp only [QuoteRecord.texts, List.mem_append, List.mem_map, List.mem_flatMap,
    List.mem_cons, List.not_mem_nil, or_false] at hs
  rcases hs with ((hs | ⟨f, hf, rfl⟩) | ⟨i, hi, hs⟩) | rfl
  · rcases hs with rfl | rfl <;> simp only [specials] at h <;> omega
  · have hz : fieldsSpecials q.quoteFields = 0 := by omega
    have := List.sum_eq_zero_iff.mp hz _ (List.mem_map_of_mem hf)
    simp only [specials] at this
    omega
  · have hz : itemsSpecials q.Items = 0 := by omega
    have := List.sum_eq_zero_iff.mp hz _ (List.mem_map_of_mem hi)
    simp only [specials] at this
    rcases hs with rfl | rfl <;> omega
  · simp only [specials] at h
    omega

theorem clean_of_readsBack {q : QuoteRecord} (h : ReadsBack q) : q.Clean := by
  obtain ⟨v, hparse, hread⟩ := h
  have h₁ := parse_weight_le hparse
  have h₂ := weight_le_of_readBack hread
  rw [weight_toJson] at h₂
  exact clean_of_specials (by omega)

/-- **The hand-written JSON reads back as the record exactly when no text of
the record holds a quotation mark, a backslash or a control character.** -/
theorem jsonString_readsBack_iff (q : QuoteRecord) : ReadsBack q ↔ q.Clean :=
  ⟨clean_of_readsBack, readsBack_of_clean⟩

/-- A record like any other, except that one headline quotes somebody. -/
def quotingRecord : QuoteRecord where
  Name := "Facebook, Inc.".toList
  Symbol := "FB".toList
  ChangeType := "+".toList
  Change := "0.51".toList
  ChangeInPercent := "0.83%".toList
  LastTradePriceOnly := "61.75".toList
  PreviousClose := "61.24".toList
  DaysLow := "61.15".toList
  DaysHigh := "62.10".toList
  Open := "61.30".toList
  YearLow := "22.67".toList
  YearHigh := "72.59".toList
  Bid := "61.74".toList
  Volume := "42,257,000.00".toList
  Ask := "61.75".toList
  AverageDailyVolume := "71,000,000.00".toList
  OneYearTargetPrice := "73.00".toList
  MarketCapitalization := "157.40".toList
  Items := [⟨"http://example/a".toList, "Analyst calls it \"overpriced\"".toList⟩]
  StockChart := "http://chart/t?s=FB".toList

/-- The headline's quotation marks end its string early. -/
theorem quotingRecord_not_readsBack : ¬ ∀ q : QuoteRecord, ReadsBack q := by
  intro h
  have hclean := clean_of_readsBack (h quotingRecord)
  have hbad : Rfc8259.Clean "Analyst calls it \"overpriced\"".toList :=
    (clean_items hclean _ List.mem_cons_self).2
  exact absurd hbad (by decide)

end Assignment8
end WebTech
