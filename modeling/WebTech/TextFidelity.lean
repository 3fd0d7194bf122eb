/-
# `WebTech.TextFidelity` — from the texts of the document to the texts on the page

The servlet's conversion gives a text the type it looks like, and the page
writes the value, not the text.  What looks like a literal comes back as the
literal of its value:

    TRUE, Null             true, null
    531.70, 007, -0        531.7, 7, 0
    0.0000001              1e-7

A text survives when it is no such literal, or is written as its value is
(`shown_iff`).  A price survives when it has a comma or its second decimal is
not zero (`survives_numberFormat`), so most documents lose something.
-/
import WebTech.Servlet
import WebTech.FieldFidelity
import WebTech.Page
import WebTech.Lib.Shortest

namespace WebTech.Servlet

open Xml Utf8 Rfc8259 Ecma Decimals Producer Page

/-! ## The conversion by content -/

/-- A letter without its case; the long s is an s. -/
def foldCase (c : Char) : Char := if c = 'ſ' then 's' else c.toLower

/-- The words that become literals. -/
def words : List String := ["true", "false", "null"]

def IsWord (t : Text) (w : String) : Prop := t.map foldCase = w.toList

instance decIsWord (t : Text) (w : String) : Decidable (IsWord t w) :=
  inferInstanceAs (Decidable (_ = _))

/-- `XML.stringToValue` of a text that is not empty. -/
def stringToValue (t : Text) : Json :=
  if IsWord t "true" then .bool true
  else if IsWord t "false" then .bool false
  else if IsWord t "null" then .null
  else if isDecimal t then .num (floatval t).shortest
  else .str t

/-- The conversion looks at nothing but the text. -/
def TypeDirected (lib : Libraries) : Prop :=
  ∀ t, t ≠ [] → lib.stringToValue t = stringToValue t

theorem foldCase_of_isDigit {c : Char} (h : c.isDigit = true) : foldCase c = c := by
  obtain ⟨n, hn, rfl⟩ := eq_digitChar h
  have hfold : ∀ k < 10, foldCase (Nat.digitChar k) = Nat.digitChar k := by decide
  exact hfold n hn

/-- A word is no number. -/
theorem not_isDecimal_of_isWord {t : Text} {w : String} (hw : w ∈ words) (h : IsWord t w) :
    isDecimal t = false := by
  have hletters : ∀ w ∈ words, ∀ c ∈ w.toList, c.isDigit = false := by decide
  by_contra hdec
  rw [Bool.not_eq_false] at hdec
  obtain ⟨neg, int, frac, hparts, rfl⟩ := exists_parts hdec
  obtain ⟨c, r, rfl⟩ := List.exists_cons_of_ne_nil hparts.int_ne
  have hc : c.isDigit = true := hparts.int_digits c List.mem_cons_self
  have hmem : c ∈ literal neg (c :: r) frac :=
    List.mem_append_right _ (List.mem_append_left _ List.mem_cons_self)
  have hfold : c ∈ w.toList := by
    have hmap := List.mem_map_of_mem (f := foldCase) hmem
    rwa [foldCase_of_isDigit hc, h] at hmap
  exact nomatch hc.symm.trans (hletters w hw c hfold)

/-- The word of a text, if it is one. -/
theorem isWord_unique {t : Text} {w w' : String} (h : IsWord t w) (h' : IsWord t w') : w = w' :=
  String.toList_injective (h.symm.trans h')

/-- A price has the letters of no word. -/
theorem not_isWord_numberFormat (d : Dec) {w : String} (hw : w ∈ words) :
    ¬ IsWord (numberFormat d 2) w := by
  have hfirst : ∀ w ∈ words, ∀ c ∈ w.toList, c ≠ '.' := by decide
  intro h
  have hpoint : '.' ∈ numberFormat d 2 := by
    show '.' ∈ _ ++ (_ ++ '.' :: _)
    exact List.mem_append_right _ (List.mem_append_right _ List.mem_cons_self)
  have hfold : '.' ∈ w.toList := by
    rw [← h]
    exact List.mem_map_of_mem (f := foldCase) hpoint
  exact hfirst w hw '.' hfold rfl

section Shown
variable [Floating]

/-! ## One text -/

/-- **A text that survives**: a word is in lower case, and a literal is written
as its number is. -/
structure Survives (t : Text) : Prop where
  word : ∀ w ∈ words, IsWord t w → t = w.toList
  literal : isDecimal t = true →
    ShortForm t ∧ Floating.print (floatval t) = (floatval t).shortest

theorem survives_word {t : Text} {w : String} (hw : w ∈ words) (h : IsWord t w) :
    Survives t ↔ t = w.toList := by
  constructor
  · intro hs
    exact hs.word w hw h
  · intro ht
    refine ⟨fun w' _ h' => ?_, fun hdec => ?_⟩
    · rw [isWord_unique h' h]
      exact ht
    · rw [not_isDecimal_of_isWord hw h] at hdec
      exact nomatch hdec

/-- **One text**: shown as it was exactly when it survives. -/
theorem shown_iff (t : Text) : toText (some (stringToValue t)) = some t ↔ Survives t := by
  have hword : ∀ {w : String}, w ∈ words → IsWord t w → (some w.toList = some t ↔ Survives t) := by
    intro w hw h
    rw [survives_word hw h, Option.some_inj, eq_comm]
  rw [stringToValue]
  by_cases htrue : IsWord t "true"
  · rw [if_pos htrue]
    exact hword (by decide) htrue
  · rw [if_neg htrue]
    by_cases hfalse : IsWord t "false"
    · rw [if_pos hfalse]
      exact hword (by decide) hfalse
    · rw [if_neg hfalse]
      by_cases hnull : IsWord t "null"
      · rw [if_pos hnull]
        exact hword (by decide) hnull
      · rw [if_neg hnull]
        have hnone : ∀ w ∈ words, ¬ IsWord t w := by
          intro w hw
          simp only [words, List.mem_cons, List.not_mem_nil, or_false] at hw
          rcases hw with rfl | rfl | rfl
          · exact htrue
          · exact hfalse
          · exact hnull
        by_cases hdec : isDecimal t = true
        · rw [if_pos hdec]
          obtain ⟨d, hscan, hd⟩ := scan_shortest (floatval t)
          have hshown : toText (some (.num (floatval t).shortest)) = some (Floating.print (floatval t)) := by
            show some (numText (floatval t).shortest) = _
            rw [numText, hscan]
            exact congrArg some (Floating.number d (floatval t) hd)
          rw [hshown, Option.some_inj]
          constructor
          · intro hself
            have hshort : ShortForm t := by
              have := Floating.needless (floatval t)
              rw [hself] at this
              exact this hdec
            refine ⟨fun w hw h => absurd h (hnone w hw), fun _ => ⟨hshort, ?_⟩⟩
            rw [hself, (shortest_floatval_iff hdec).mpr hshort]
          · intro hs
            obtain ⟨hshort, hprint⟩ := hs.literal hdec
            rw [hprint, (shortest_floatval_iff hdec).mpr hshort]
        · rw [if_neg hdec]
          exact iff_of_true rfl ⟨fun w hw h => absurd h (hnone w hw), fun h => absurd h hdec⟩

/-- An empty text survives. -/
theorem survives_nil : Survives [] := by
  have hno : ∀ w ∈ words, ¬ IsWord [] w := by decide
  exact ⟨fun w hw h => absurd h (hno w hw), nofun⟩

/-! ## A price -/

/-- The prices that survive: a comma, or a second decimal that is not zero. -/
def PriceSurvives (d : Dec) : Prop := 100000 ≤ (d.round 2).natAbs ∨ (d.round 2).natAbs % 10 ≠ 0

instance decPriceSurvives (d : Dec) : Decidable (PriceSurvives d) :=
  inferInstanceAs (Decidable (_ ∨ _))

theorem survives_numberFormat (d : Dec) : Survives (numberFormat d 2) ↔ PriceSurvives d := by
  by_cases hlt : (d.round 2).natAbs < 100000
  · have hdec := (isDecimal_numberFormat d).mpr hlt
    have hprint := print_numberFormat hdec
    constructor
    · intro hs
      exact .inr ((shortForm_numberFormat hlt).mp (hs.literal hdec).1)
    · rintro (hge | hmod)
      · omega
      · exact ⟨fun w hw h => absurd h (not_isWord_numberFormat d hw),
          fun _ => ⟨(shortForm_numberFormat hlt).mpr hmod, hprint⟩⟩
  · refine iff_of_true ⟨fun w hw h => absurd h (not_isWord_numberFormat d hw), fun hdec => ?_⟩ ?_
    · exact absurd ((isDecimal_numberFormat d).mp hdec) hlt
    · exact .inl (by omega)

end Shown

/-! ## The document -/

/-- The texts that are written as they are read. -/
def texts : List Global := [.nameval, .symbolval, .changetype_val, .change_val, .changepercent_val]

/-- The formatted numbers, each with its column. -/
def prices : List (Global × String) :=
  [(.lasttradeprice_val, "LastTradePriceOnly"), (.prev_close, "PreviousClose"),
    (.daylow_val, "DaysLow"), (.dayhigh_val, "DaysHigh"), (.open1, "open"), (.yearlow_val, "YearLow"),
    (.yearhigh_val, "YearHigh"), (.bid, "Bid"), (.volume, "Volume"), (.ask, "ask"),
    (.adv_val, "AverageDailyVolume"), (.oneyeartargetprice, "OneYearTargetPrice"),
    (.market_capitalization, "MarketCapitalization")]

/-- What `changeRequest` reads besides the chart and the news. -/
def scalars : List Global := texts ++ prices.map Prod.fst

theorem mem_scalars (x : Global) : x ∈ scalars ↔ x ≠ .stock_chart_img ∧ x ≠ .news := by
  cases x with
  | _ => decide

section Document
variable (lib : Libraries)

/-- The text of the element a variable is read from. -/
def elementText (doc : Element PhpString) (x : Global) : Option Text :=
  (doc.textAt x.path.tail).bind lib.xmlText

variable (company : PhpString) (elemFinance : List Child) (channel : List ChannelChild)

theorem reach_scalar : ∀ x ∈ scalars, ∃ n s,
    (document company elemFinance channel).reach x.path.tail = some (.leaf n s) ∧
      (document company elemFinance channel).textAt x.path.tail = some s := by
  simp only [scalars, texts, prices, List.map_cons, List.map_nil, List.cons_append, List.nil_append,
    List.forall_mem_cons]
  refine ⟨?_, ?_, ?_, ?_, ?_, ?_, ?_, ?_, ?_, ?_, ?_, ?_, ?_, ?_, ?_, ?_, ?_, ?_, nofun⟩
  all_goals exact ⟨_, _, rfl, rfl⟩

theorem textAt_price : ∀ p ∈ prices, (document company elemFinance channel).textAt p.1.path.tail =
    some (number_format (Producer.floatval (read elemFinance p.2))) := by
  simp only [prices, List.forall_mem_cons]
  exact ⟨rfl, rfl, rfl, rfl, rfl, rfl, rfl, rfl, rfl, rfl, rfl, rfl, rfl, nofun⟩

end Document

/-! ## The libraries as the conversion is documented -/

/-- The conversion by content, with UTF-8 as it is and members in the order they
came in. -/
def orgJson : Libraries := { plain with stringToValue := stringToValue }

theorem orgJson_documented : orgJson.Documented where
  xmlText_encode := plain_documented.xmlText_encode
  order_perm := plain_documented.order_perm
  parse_toString := plain_documented.parse_toString
  isScalar_stringToValue t := by
    show isScalar (stringToValue t) = true
    rw [stringToValue]
    repeat' split
    · rfl
    · rfl
    · rfl
    · exact isNumeral_shortest _
    · rfl
  stringToValue_amount d := by
    have hno : ∀ w ∈ words, ¬ IsWord (numberFormat d 2) w := fun w hw => not_isWord_numberFormat d hw
    have hsame : orgJson.stringToValue (numberFormat d 2) = plain.stringToValue (numberFormat d 2) := by
      show stringToValue (numberFormat d 2) = _
      rw [stringToValue, if_neg (hno _ (by decide)), if_neg (hno _ (by decide)),
        if_neg (hno _ (by decide))]
      rfl
    rw [hsame]
    exact plain_documented.stringToValue_amount d

theorem orgJson_typeDirected : TypeDirected orgJson := fun _ _ => rfl

end WebTech.Servlet
