/-
# `WebTech.ChangeSign` — the change, cut in two and shown

search_stock1.php cuts the first byte off the change and calls it the sign; the
page and the app choose an arrow by that sign and print the rest.  The byte is
cut off whether it is a sign or not, and the page has one arrow for all that is
not a plus.

    +1.25    green, up      1.25
    -1.25    red, down      1.25
    -0.00    red, down      0.00       nothing went down
    1.25     red, down      .25        (in the app: black, up)

The pair shows the change for a text that begins with a plus, or with a minus
before a number other than zero, and for no other (`showsChange_iff`).
-/
import WebTech.FieldFidelity
import WebTech.MainActivity
import WebTech.Page
import WebTech.Lib.Magnitude

namespace WebTech.Producer

open Xml Utf8 Decimals

/-! ## A change and its value -/

def dropSign : Text → Text
  | '+' :: u => u
  | '-' :: u => u
  | u => u

/-- A numeral with an optional sign. -/
def isChange (t : Text) : Bool := isUnsigned (dropSign t)

def changeValue : Text → Rat
  | '+' :: u => magnitude u
  | '-' :: u => -magnitude u
  | u => magnitude u

/-- A sign that says which way the price went. -/
def hasDirection : Text → Bool
  | '+' :: _ => true
  | '-' :: u => digitsValue u ≠ 0
  | _ => false

/-! ## What the two front ends show -/

def greenUp : String := "<img src=\"http://www-scf.usc.edu/~csci571/2014Spring/hw6/up_g.gif\" width=\"10px\" height=\"35px\"/>&nbsp;<span style=\"color:green;font-size:25px\">"

def redDown : String := "<img src=\"http://www-scf.usc.edu/~csci571/2014Spring/hw6/down_r.gif\" width=\"10px\" height=\"35px\"/>&nbsp;<span style=\"color:red;font-size:25px\"\">"

/-- **The pair shows the change**: on the page and in the app, the direction
and the amount. -/
structure ShowsChange (change sign amount : Text) : Prop where
  page_down : Page.arrow_disp (some (.str sign)) = redDown ↔ changeValue change < 0
  page_up : 0 < changeValue change → Page.arrow_disp (some (.str sign)) = greenUp
  app_down : MainActivity.changeStyle sign = ("#ff0000".toList, .down_r) ↔ changeValue change < 0
  app_up : 0 < changeValue change → MainActivity.changeStyle sign = ("#00ff00".toList, .up_g)
  amount : isUnsigned amount = true ∧ magnitude amount = |changeValue change|

/-- The page prints the arrow of the one text, and then the other text. -/
theorem summary_shows [Ecma.Floating] {g : Page.Globals} {s sign amount : Text}
    (htype : g .changetype_val = some (.str sign)) (hchange : g .change_val = some (.str amount))
    (h : Page.summary g = some s) :
    ∃ pre post, s = pre ++ (Page.arrow_disp (some (.str sign))).toList ++ amount ++ post := by
  let front : List Ecma.Operand :=
    [.lit "<font size = \"7px\">", .val (g .nameval), .lit "&#40;", .val (g .symbolval),
      .lit "&#41;<br><br>", .val (g .lasttradeprice_val), .lit "&nbsp;&nbsp;</font>", .lit " "]
  have hsplit : Page.summary g = Ecma.concat (front ++
      [.lit (Page.arrow_disp (g .changetype_val)), .val (g .change_val), .lit "&#40;",
        .val (g .changepercent_val), .lit "&#41;</span>"]) := rfl
  obtain ⟨pre, r, -, hr, rfl⟩ := Ecma.concat_append (hsplit ▸ h)
  obtain ⟨arrow, r', harrow, hr', rfl⟩ := Ecma.concat_cons.mp hr
  obtain ⟨change, post, hval, -, rfl⟩ := Ecma.concat_cons.mp hr'
  rw [htype] at harrow
  rw [hchange] at hval
  cases harrow
  cases hval
  exact ⟨pre, post, by simp only [List.append_assoc]⟩

/-- The app sets the colour and the arrow of the one text, and prints the other. -/
theorem setDatatoUI_shows (m : MainActivity.StockMap) (a : MainActivity.Activity) :
    ((MainActivity.setDatatoUI (some m) a).1.textColor,
        (MainActivity.setDatatoUI (some m) a).1.indicator) = MainActivity.changeStyle m.ChangeType ∧
      (MainActivity.setDatatoUI (some m) a).1.texts.stock_Change =
        m.Change ++ (" (".toList ++ m.ChangeInPercent ++ ")".toList) := by
  refine ⟨rfl, ?_⟩
  show m.Change ++ " (".toList ++ m.ChangeInPercent ++ ")".toList = _
  simp only [List.append_assoc]

theorem changeStyle_plus :
    MainActivity.changeStyle ['+'] = ("#00ff00".toList, .up_g) := if_pos rfl

theorem changeStyle_minus :
    MainActivity.changeStyle ['-'] = ("#ff0000".toList, .down_r) := rfl

theorem green_ne_red :
    ("#00ff00".toList, MainActivity.Drawable.up_g) ≠ ("#ff0000".toList, .down_r) := by
  intro h
  exact nomatch (Prod.mk.inj h).2

theorem greenUp_ne_redDown : greenUp ≠ redDown := by decide +kernel

/-- **After a plus**: the pair shows a change that is not negative. -/
theorem showsChange_plus {u : Text} (h : isUnsigned u = true) : ShowsChange ('+' :: u) ['+'] u where
  page_down := by
    constructor
    · intro heq
      exact absurd heq greenUp_ne_redDown
    · intro hneg
      exact absurd hneg (not_lt.mpr (magnitude_nonneg u))
  page_up _ := rfl
  app_down := by
    rw [changeStyle_plus]
    constructor
    · intro heq
      exact absurd heq green_ne_red
    · intro hneg
      exact absurd hneg (not_lt.mpr (magnitude_nonneg u))
  app_up _ := changeStyle_plus
  amount := ⟨h, (abs_of_nonneg (magnitude_nonneg u)).symm⟩

theorem neg_magnitude_iff (u : Text) : changeValue ('-' :: u) < 0 ↔ digitsValue u ≠ 0 := by
  show -magnitude u < 0 ↔ _
  rw [neg_lt_zero, lt_iff_le_and_ne, ne_comm, Ne, magnitude_eq_zero_iff]
  exact and_iff_right (magnitude_nonneg u)

/-- **After a minus**: the pair shows a change that is negative, and no other. -/
theorem showsChange_minus {u : Text} (h : isUnsigned u = true) :
    ShowsChange ('-' :: u) ['-'] u ↔ digitsValue u ≠ 0 := by
  have hnot : ¬ 0 < changeValue ('-' :: u) :=
    not_lt.mpr (neg_nonpos.mpr (magnitude_nonneg u))
  constructor
  · intro hshows
    exact (neg_magnitude_iff u).mp (hshows.page_down.mp rfl)
  · intro hne
    have hneg := (neg_magnitude_iff u).mpr hne
    exact {
      page_down := ⟨fun _ => hneg, fun _ => rfl⟩
      page_up := fun hpos => absurd hpos hnot
      app_down := ⟨fun _ => hneg, fun _ => changeStyle_minus⟩
      app_up := fun hpos => absurd hpos hnot
      amount := ⟨h, (abs_neg (magnitude u)).symm ▸ (abs_of_nonneg (magnitude_nonneg u)).symm⟩ }

/-- **After a digit or a point**: the page points down, and nothing went down. -/
theorem not_showsChange {c : Char} {u : Text} (hplus : c ≠ '+') (hminus : c ≠ '-') (amount : Text) :
    ¬ ShowsChange (c :: u) [c] amount := by
  intro h
  have harrow : Page.arrow_disp (some (.str [c])) = redDown := by
    rw [Page.arrow_disp]
    · rfl
    · rintro ⟨⟩
      exact hplus rfl
  have hvalue : changeValue (c :: u) = magnitude (c :: u) := by
    rw [changeValue]
    · rintro r ⟨⟩
      exact hplus rfl
    · rintro r ⟨⟩
      exact hminus rfl
  have hneg := h.page_down.mp harrow
  rw [hvalue] at hneg
  exact absurd hneg (not_lt.mpr (magnitude_nonneg _))

/-! ## The cut -/

theorem utf8Size_of_isDigit {c : Char} (h : c.isDigit = true) : c.utf8Size = 1 := by
  simp only [Char.isDigit, Bool.and_eq_true, decide_eq_true_eq] at h
  have hle : c.val ≤ 0x7f := UInt32.le_trans h.2 (by decide)
  rw [Char.utf8Size]
  exact if_pos hle

/-- A change begins with a character of one byte. -/
theorem isChange_cons {t : Text} (h : isChange t = true) :
    ∃ c u, t = c :: u ∧ c.utf8Size = 1 := by
  cases t with
  | nil => exact nomatch h
  | cons c u =>
      refine ⟨c, u, rfl, ?_⟩
      by_cases hplus : c = '+'
      · rw [hplus]
        rfl
      · by_cases hminus : c = '-'
        · rw [hminus]
          rfl
        · have hdrop : dropSign (c :: u) = c :: u := by
            rw [dropSign]
            · rintro r ⟨⟩
              exact hplus rfl
            · rintro r ⟨⟩
              exact hminus rfl
          rw [isChange, hdrop, isUnsigned, Bool.and_eq_true, Bool.and_eq_true, List.all_cons,
            Bool.and_eq_true, Bool.or_eq_true, decide_eq_true_eq] at h
          rcases h.1.2.1 with hc | rfl
          · exact utf8Size_of_isDigit hc
          · rfl

section Document
variable (company : PhpString) (q : Quote) (channel : List ChannelChild)

/-- The document's pair: the first character, and the others. -/
theorem pair_document {c : Char} {u : Text} (hq : q.Change = c :: u) (hc : c.utf8Size = 1) :
    (document company q.columns channel).textAt ["Quote", "ChangeType"] = some (encode [c]) ∧
      (document company q.columns channel).textAt ["Quote", "Change"] = some (encode u) := by
  obtain ⟨htake, hdrop⟩ := encodeChar_of_size hc (encode u)
  have hone : encode [c] = String.utf8EncodeChar c := List.append_nil _
  constructor
  · show some ((encode q.Change).take 1) = _
    rw [hq, encode_cons, htake, hone]
  · show some ((encode q.Change).drop 1) = _
    rw [hq, encode_cons, hdrop]

/-- **Which changes are shown**: those with a plus, and those with a minus
before a number other than zero. -/
theorem showsChange_iff (h : isChange q.Change = true) :
    (∃ sign amount,
      (document company q.columns channel).textAt ["Quote", "ChangeType"] = some (encode sign) ∧
      (document company q.columns channel).textAt ["Quote", "Change"] = some (encode amount) ∧
      ShowsChange q.Change sign amount) ↔ hasDirection q.Change = true := by
  obtain ⟨c, u, hq, hc⟩ := isChange_cons h
  obtain ⟨htype, hchange⟩ := pair_document company q channel hq hc
  have hpair : (∃ sign amount,
      (document company q.columns channel).textAt ["Quote", "ChangeType"] = some (encode sign) ∧
      (document company q.columns channel).textAt ["Quote", "Change"] = some (encode amount) ∧
      ShowsChange q.Change sign amount) ↔ ShowsChange (c :: u) [c] u := by
    constructor
    · rintro ⟨sign, amount, hs, ha, hshows⟩
      cases encode_injective (Option.some.inj (htype.symm.trans hs))
      cases encode_injective (Option.some.inj (hchange.symm.trans ha))
      exact hq ▸ hshows
    · intro hshows
      exact ⟨[c], u, htype, hchange, hq ▸ hshows⟩
  rw [hpair, hq]
  rw [hq] at h
  by_cases hplus : c = '+'
  · subst hplus
    exact iff_of_true (showsChange_plus h) rfl
  · by_cases hminus : c = '-'
    · subst hminus
      rw [showsChange_minus (u := u) h]
      exact decide_eq_true_iff.symm
    · refine iff_of_false (not_showsChange hplus hminus u) ?_
      rw [hasDirection]
      · exact Bool.false_ne_true
      · rintro r ⟨⟩
        exact hplus rfl
      · rintro r ⟨⟩
        exact hminus rfl

end Document

/-- A quote whose change has a sign. -/
theorem ordinaryQuote_showsChange :
    isChange ordinaryQuote.Change = true ∧
    ∃ sign amount,
      (document (lit "AAPL") ordinaryQuote.columns []).textAt ["Quote", "ChangeType"] =
        some (encode sign) ∧
      (document (lit "AAPL") ordinaryQuote.columns []).textAt ["Quote", "Change"] =
        some (encode amount) ∧
      ShowsChange ordinaryQuote.Change sign amount :=
  ⟨rfl, (showsChange_iff (lit "AAPL") ordinaryQuote [] rfl).mpr rfl⟩

/-- The change `1.25` is shown as a fall of 25 cents. -/
theorem unsigned_not_showsChange :
    isChange "1.25".toList = true ∧
    ¬ ∃ sign amount,
      (document (lit "AAPL") { ordinaryQuote with Change := "1.25".toList }.columns []).textAt
        ["Quote", "ChangeType"] = some (encode sign) ∧
      (document (lit "AAPL") { ordinaryQuote with Change := "1.25".toList }.columns []).textAt
        ["Quote", "Change"] = some (encode amount) ∧
      ShowsChange "1.25".toList sign amount := by
  refine ⟨by decide, ?_⟩
  rintro ⟨sign, amount, hs, -, hshows⟩
  cases encode_injective (s := ['1']) (Option.some.inj hs)
  exact not_showsChange (by decide) (by decide) amount hshows

end WebTech.Producer
