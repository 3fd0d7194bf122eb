/-
# `WebTech.Suggestions` — from a suggestion to the symbol that is searched

A suggestion becomes one line of text, `symbol, name(exch)`, and the click on it
takes the text before the first comma back out.

    the text between the callback and the closing character is parsed    (`substring_body`)
    every suggestion becomes its line                                    (`stockLoop_suggestions`)
    the line's first piece is the symbol                                 (`splitFirst_output`)

Together: the symbol survives, whatever stands in the names
(`suggestion_round_trip`).
-/
import WebTech.Util

namespace WebTech.Util

open Rfc8259 MainActivity

/-- The JSON value of a suggestion; it may have other members. -/
def IsSuggestion (v : Json) (s : Suggestion) : Prop :=
  member "symbol" v = some (.str s.symbol) ∧ member "name" v = some (.str s.name) ∧
    member "exch" v = some (.str s.exch)

/-- The JSON value of an answer with the suggestions `ss`. -/
def IsAnswer (v : Json) (ss : List Suggestion) : Prop :=
  ∃ rs vs, member "ResultSet" v = some (.obj rs) ∧ member "Result" (.obj rs) = some (.arr vs) ∧
    List.Forall₂ IsSuggestion vs ss

/-- No line ends inside the text. -/
def OneLine (t : Text) : Prop := ∀ c ∈ t, c ≠ '\n' ∧ c ≠ '\r'

/-! ## The JSON text in the line -/

theorem OneLine.append {s t : Text} (hs : OneLine s) (ht : OneLine t) : OneLine (s ++ t) := by
  intro c hc
  rcases List.mem_append.mp hc with h | h
  · exact hs c h
  · exact ht c h

theorem readLine_oneLine {t : Text} (hne : t ≠ []) (h : OneLine t) : readLine t = some t := by
  rw [readLine, if_neg hne]
  refine congrArg some (List.takeWhile_eq_self_iff.mpr fun c hc => ?_)
  rw [Bool.and_eq_true, decide_eq_true_iff, decide_eq_true_iff]
  exact h c hc

/-- A text of an object begins, after whitespace, with its brace, and what
stands before the brace is not needed. -/
theorem parse_obj_cases {t : Text} {ms : List (Text × Json)} (h : parse t = some (.obj ms)) :
    ∃ w r, t = w ++ '{' :: r ∧ '{' ∉ w ∧ parse ('{' :: r) = some (.obj ms) := by
  obtain ⟨r, hval, hr⟩ := parse_iff.mp h
  obtain ⟨r', hs⟩ : ∃ r', skipWs t = '{' :: r' := by
    cases hval with
    | objNil hs _ | obj hs _ => exact ⟨_, hs⟩
  have hw : '{' ∉ t.takeWhile isWs := fun hmem => nomatch List.mem_takeWhile_imp hmem
  have hsplit : t = t.takeWhile isWs ++ '{' :: r' := by
    rw [← hs, skipWs, List.takeWhile_append_dropWhile]
  have hagain : skipWs ('{' :: r') = '{' :: r' := List.dropWhile_cons_of_neg (by decide)
  refine ⟨_, r', hsplit, hw, parse_iff.mpr ⟨r, ?_, hr⟩⟩
  cases hval with
  | objNil hs' he =>
      cases hs.symm.trans hs'
      exact .objNil hagain he
  | obj hs' hm =>
      cases hs.symm.trans hs'
      exact .obj hagain hm

theorem findIdx?_brace {p r : Text} (h : '{' ∉ p) :
    (p ++ '{' :: r).findIdx? (fun c => c = '{') = some p.length := by
  induction p with
  | nil => rfl
  | cons c p ih =>
      rw [List.mem_cons, not_or] at h
      rw [List.cons_append, List.findIdx?_cons, if_neg (by simpa using Ne.symm h.1), ih h.2]
      rfl

/-- **Unwrapping**: what is left is the JSON text from its brace on. -/
theorem substring_body (p r : Text) (c : Char) :
    substring (p ++ '{' :: r ++ [c]) p.length = '{' :: r := by
  have hlen : (p ++ '{' :: r ++ [c]).length - 1 = (p ++ '{' :: r).length := by
    rw [List.length_append, List.length_singleton, Nat.add_sub_cancel]
  rw [substring, hlen, List.take_left' rfl, List.drop_left' rfl]

/-! ## The loop -/

section Loop
variable {lib : OrgJson}

theorem output_of_isSuggestion {v : Json} {s : Suggestion} (h : IsSuggestion v s) :
    (asObject v >>= output lib) = .ok s.output := by
  obtain ⟨hsymbol, hname, hexch⟩ := h
  obtain ⟨ms, rfl, -⟩ := member_eq_some hsymbol
  show output lib (.obj ms) = _
  simp only [output, getString, hsymbol, hname, hexch]
  rfl

theorem stockLoop_suggestions {vs : List Json} {ss : List Suggestion}
    (h : List.Forall₂ IsSuggestion vs ss) : ∀ (tempstkList : List Text),
      stockLoop lib vs tempstkList = tempstkList ++ ss.map Suggestion.output := by
  induction h with
  | nil =>
      intro tempstkList
      rw [stockLoop, List.map_nil, List.append_nil]
  | cons hv _ ih =>
      intro tempstkList
      rw [stockLoop, output_of_isSuggestion hv]
      show stockLoop lib _ _ = _
      rw [ih, List.map_cons, List.append_assoc]
      rfl

variable {pre t : Text} {close : Char} {v : Json} {ss : List Suggestion}

/-- **The list**: one line for each suggestion, in their order. -/
theorem getListFromYahoo_answer (hlib : lib.Parses) (hpre : '{' ∉ pre) (ht : parse t = some v)
    (hv : IsAnswer v ss) (hline : OneLine (pre ++ t ++ [close])) :
    getListFromYahoo lib (pre ++ t ++ [close]) = .ok (ss.map Suggestion.output) := by
  obtain ⟨rs, vs, hset, hresult, hvs⟩ := hv
  obtain ⟨ms, rfl, -⟩ := member_eq_some hset
  obtain ⟨w, r, rfl, hw, hparse⟩ := parse_obj_cases ht
  have hbrace : '{' ∉ pre ++ w := by
    rw [List.mem_append]
    exact not_or.mpr ⟨hpre, hw⟩
  have hbody : pre ++ (w ++ '{' :: r) ++ [close] = pre ++ w ++ '{' :: r ++ [close] := by
    rw [← List.append_assoc pre w]
  have hfind : (pre ++ w ++ '{' :: r ++ [close]).findIdx? (fun c => c = '{') =
      some (pre ++ w).length := by
    rw [List.append_assoc (pre ++ w), List.cons_append]
    exact findIdx?_brace hbrace
  rw [hbody] at hline ⊢
  rw [getListFromYahoo, readLine_oneLine (by simp) hline]
  simp only [hfind, substring_body, parseObject, hlib _ _ hparse, bind, Except.bind, getJSONObject,
    hset, getJSONArray, hresult, stockLoop_suggestions hvs, List.nil_append]

/-- A line is that of some suggestion. -/
theorem line_eq_output {stock : Json} {o : Text} (h : (asObject stock >>= output lib) = .ok o) :
    ∃ s : Suggestion, o = s.output := by
  cases hobj : asObject stock with
  | error e =>
      rw [hobj] at h
      cases h
  | ok stock' =>
      rw [hobj] at h
      change output lib stock' = .ok o at h
      rw [output] at h
      cases hsymbol : getString lib stock' "symbol" with
      | error e =>
          rw [hsymbol] at h
          cases h
      | ok symbol =>
          cases hname : getString lib stock' "name" with
          | error e =>
              rw [hsymbol, hname] at h
              cases h
          | ok name =>
              cases hexch : getString lib stock' "exch" with
              | error e =>
                  rw [hsymbol, hname, hexch] at h
                  cases h
              | ok exch =>
                  rw [hsymbol, hname, hexch] at h
                  cases h
                  exact ⟨⟨symbol, name, exch⟩, rfl⟩

/-- So are all lines of a list, whatever was in the response. -/
theorem stockLoop_lines (res : List Json) : ∀ (ss : List Suggestion), ∃ ss' : List Suggestion,
    stockLoop lib res (ss.map Suggestion.output) = ss'.map Suggestion.output := by
  induction res with
  | nil => exact fun ss => ⟨ss, rfl⟩
  | cons stock res ih =>
      intro ss
      rw [stockLoop]
      cases ho : asObject stock >>= output lib with
      | error e => exact ⟨ss, rfl⟩
      | ok o =>
          obtain ⟨s, rfl⟩ := line_eq_output ho
          obtain ⟨ss', hss'⟩ := ih (ss ++ [s])
          rw [List.map_append] at hss'
          exact ⟨ss', hss'⟩

theorem getListFromYahoo_lines {body : Text} {list : List Text}
    (h : getListFromYahoo lib body = .ok list) : ∃ ss : List Suggestion, list = ss.map Suggestion.output := by
  rw [getListFromYahoo] at h
  split at h
  · cases h
  · split at h
    · cases h
    · split at h
      · next res _ =>
          cases h
          exact stockLoop_lines res []
      · cases h
        exact ⟨[], rfl⟩

/-- **What the task brings**: its list, or null, is that of some suggestions,
and `onPostExecute` puts the list on offer unless it is null or empty. -/
theorem task_of_suggestions (lib : OrgJson) (body : Text) : ∃ ret : Option (List Suggestion),
    (getListFromYahoo lib body).toOption = ret.map (List.map Suggestion.output) ∧
    ∀ a : Activity, (setSuggestions ret a).country_list =
      match (getListFromYahoo lib body).toOption with
      | some (l :: ls) => l :: ls
      | some [] => a.country_list
      | none => a.country_list := by
  cases hlist : getListFromYahoo lib body with
  | error e => exact ⟨none, rfl, fun _ => rfl⟩
  | ok list =>
      obtain ⟨ss, rfl⟩ := getListFromYahoo_lines hlist
      refine ⟨some ss, rfl, fun a => ?_⟩
      cases ss with
      | nil => rfl
      | cons s ss => rfl

end Loop

/-! ## The click -/

theorem splitFirst_output {s : Suggestion} (h : ',' ∉ s.symbol) : splitFirst s.output = s.symbol := by
  have hsymbol : ∀ c ∈ s.symbol, decide (c ≠ ',') = true := by
    intro c hc
    refine decide_eq_true ?_
    rintro rfl
    exact h hc
  have hout : s.output = s.symbol ++ ',' :: ' ' :: (s.name ++ '(' :: (s.exch ++ [')'])) := by
    simp [Suggestion.output]
  rw [splitFirst, hout, List.takeWhile_append_of_pos hsymbol, List.takeWhile_cons_of_neg (by decide),
    List.append_nil]

/-- A click on a suggestion's line searches its symbol. -/
theorem step_onItemClick {st : State} {position : Nat} {s : Suggestion}
    (hline : st.activity.country_list[position]? = some s.output) (hne : s.symbol ≠ [])
    (hcomma : ',' ∉ s.symbol) : ∃ st', app.step st (.onItemClick position) = some st' ∧
      st'.activity.autocompTV = s.symbol ∧ st'.submitted = st.submitted ++ [s.symbol] ∧
      st'.executor = (st.setText s.symbol).executor.submit [.retrieveStockData s.symbol] := by
  have hstep : app.step st (.onItemClick position) = some (st.setText s.symbol).getStockData := by
    show st.activity.country_list[position]?.map _ = _
    rw [hline]
    show some ((st.setText (splitFirst s.output)).getStockData) = _
    rw [splitFirst_output hcomma]
  have hget : (st.setText s.symbol).getStockData =
      { st.setText s.symbol with
        executor := (st.setText s.symbol).executor.submit [.retrieveStockData s.symbol]
        submitted := st.submitted ++ [s.symbol] } := by
    rw [State.getStockData]
    exact if_neg hne
  exact ⟨_, hstep, by rw [hget]; rfl, by rw [hget], by rw [hget]⟩

/-- **The round trip**: every suggestion has its line in the list, and the click
on the line puts the suggestion's symbol into the box and searches it. -/
theorem suggestion_round_trip {lib : OrgJson} {pre t : Text} {close : Char} {v : Json}
    {ss : List Suggestion} (hlib : lib.Parses) (hpre : '{' ∉ pre) (ht : parse t = some v)
    (hv : IsAnswer v ss) (hline : OneLine (pre ++ t ++ [close]))
    (hsymbols : ∀ s ∈ ss, s.symbol ≠ [] ∧ ',' ∉ s.symbol) :
    ∃ list, getListFromYahoo lib (pre ++ t ++ [close]) = .ok list ∧
      list = ss.map Suggestion.output ∧
      ∀ st : State, st.activity.country_list = list → ∀ position s, ss[position]? = some s →
        ∃ st', app.step st (.onItemClick position) = some st' ∧
          st'.activity.autocompTV = s.symbol ∧ st'.submitted = st.submitted ++ [s.symbol] ∧
          st'.executor = (st.setText s.symbol).executor.submit [.retrieveStockData s.symbol] := by
  refine ⟨_, getListFromYahoo_answer hlib hpre ht hv hline, rfl, ?_⟩
  intro st hlist position s hs
  obtain ⟨hne, hcomma⟩ := hsymbols s (List.mem_of_getElem? hs)
  refine step_onItemClick ?_ hne hcomma
  rw [hlist, List.getElem?_map, hs]
  rfl

/-! ## An answer -/

def answerOf (ss : List Suggestion) : Json :=
  .obj [("ResultSet".toList, .obj [("Result".toList, .arr (ss.map fun s =>
    .obj [("symbol".toList, .str s.symbol), ("name".toList, .str s.name),
      ("exch".toList, .str s.exch)]))])]

theorem isAnswer_answerOf (ss : List Suggestion) : IsAnswer (answerOf ss) ss := by
  refine ⟨_, _, rfl, rfl, ?_⟩
  rw [List.forall₂_map_left_iff, List.forall₂_same]
  exact fun s _ => ⟨rfl, rfl, rfl⟩

theorem parse_answerOf (ss : List Suggestion) : parse (print (answerOf ss)) = some (answerOf ss) := by
  have hss : NumeralsElems (ss.map fun s =>
      .obj [("symbol".toList, .str s.symbol), ("name".toList, .str s.name),
        ("exch".toList, .str s.exch)]) := by
    rw [numeralsElems_iff]
    intro v hv
    obtain ⟨s, -, rfl⟩ := List.mem_map.mp hv
    exact ⟨trivial, trivial, trivial, trivial⟩
  have hparse := parse_print (v := answerOf ss) ⟨⟨hss, trivial⟩, trivial⟩ (w := []) nofun
  rw [List.append_nil] at hparse
  exact hparse

/-- A name with all the delimiters in it, and another suggestion. -/
def braces : List Suggestion :=
  [⟨"BRC".toList, "\x7bB, R\"(C)\x7d".toList, "NYQ".toList⟩,
    ⟨"GE".toList, "General Electric, Co".toList, "NYQ".toList⟩]

theorem suggestion_round_trip_braces :
    ∃ list, getListFromYahoo strict ("cb(".toList ++ print (answerOf braces) ++ [')']) = .ok list ∧
      list = braces.map Suggestion.output ∧
      ∀ st : State, st.activity.country_list = list → ∀ position s, braces[position]? = some s →
        ∃ st', app.step st (.onItemClick position) = some st' ∧
          st'.activity.autocompTV = s.symbol ∧ st'.submitted = st.submitted ++ [s.symbol] ∧
          st'.executor = (st.setText s.symbol).executor.submit [.retrieveStockData s.symbol] := by
  have hline : OneLine ("cb(".toList ++ print (answerOf braces) ++ [')']) := by
    rw [OneLine]
    decide +kernel
  exact suggestion_round_trip strict_parses (by decide) (parse_answerOf braces)
    (isAnswer_answerOf braces) hline (by decide)

end WebTech.Util
