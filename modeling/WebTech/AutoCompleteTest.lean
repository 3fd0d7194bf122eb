/-
# `WebTech.AutoCompleteTest` — autoCompleteTest.java: the client's first version

`Util` came out of this class.  The requests and the accessors are the same; the
two differ in what becomes of an exception and of an item without a link.

    autoCom         throws on what getListFromYahoo breaks off at, and keeps nothing   (`autoCom_spec`)
    getStockData    fills a static array, and sets a flag of its instance that
                    no later call takes back                                           (`fields_of_calls`)

An array entry that no round of the loop has reached is a pair of nulls, and so
is what is left when an exception ends the loop.
-/
import WebTech.News

namespace WebTech.AutoCompleteTest

open Rfc8259 Util

/-! ## autoCom -/

section AutoCom
variable (lib : OrgJson)

/-- The loop; an exception ends the method. -/
def resultLoop : List Json → List Text → Except Exception (List Text)
  | [], tempstkList => .ok tempstkList
  | stock :: res, tempstkList =>
      match asObject stock >>= output lib with
      | .ok o => resultLoop res (tempstkList ++ [o])
      | .error e => .error e

/-- `ResultSet.Result` of the object in the line. -/
def results (line : Text) (num : Nat) : Except Exception (List Json) := do
  getJSONArray (← getJSONObject (← parseObject lib (substring line num)) "ResultSet") "Result"

/-- `autoCompleteTest.autoCom`, for the body of the response. -/
def autoCom (body : Text) : Except Exception (List Text) :=
  match readLine body with
  | none => .error .NullPointerException
  | some line =>
      match line.findIdx? fun c => c = '{' with
      -- `substring(-1, …)`
      | none => .error .StringIndexOutOfBoundsException
      | some num => results lib line num >>= fun res => resultLoop lib res []

/-- The line of a result. -/
def IsLine (stock : Json) (o : Text) : Prop := (asObject stock >>= output lib) = .ok o

/-- `list` has the lines of the results before the first that has none; `all`
says whether there is no such result. -/
def LinesOf (all : Bool) (res : List Json) (list : List Text) : Prop :=
  ∃ done rest, res = done ++ rest ∧ List.Forall₂ (IsLine lib) done list ∧
    (all = true → rest = []) ∧ (all = false → ∃ stock ∈ rest.head?, ∀ o, ¬ IsLine lib stock o)

variable {lib}

/-- Whatever is thrown is a JSONException. -/
def OnlyJSON {α : Type} (x : Except Exception α) : Prop := ∀ e, x = .error e → e = .JSONException

theorem OnlyJSON.bind {α β : Type} {x : Except Exception α} {f : α → Except Exception β}
    (hx : OnlyJSON x) (hf : ∀ a, OnlyJSON (f a)) : OnlyJSON (x >>= f) := by
  intro e he
  cases h : x with
  | error e' =>
      rw [h] at he
      cases he
      exact hx e h
  | ok a =>
      rw [h] at he
      exact hf a e he

theorem onlyJSON_ok {α : Type} (a : α) : OnlyJSON (.ok a) := by
  intro e he
  cases he

theorem onlyJSON_JSONException {α : Type} : OnlyJSON (.error .JSONException : Except Exception α) := by
  intro e he
  cases he
  rfl

theorem onlyJSON_getString (v : Json) (k : String) : OnlyJSON (getString lib v k) := by
  rw [getString]
  split
  · exact onlyJSON_ok _
  · exact onlyJSON_ok _
  · exact onlyJSON_JSONException

theorem onlyJSON_getJSONObject (v : Json) (k : String) : OnlyJSON (getJSONObject v k) := by
  rw [getJSONObject]
  split
  · exact onlyJSON_ok _
  · exact onlyJSON_JSONException

theorem onlyJSON_getJSONArray (v : Json) (k : String) : OnlyJSON (getJSONArray v k) := by
  rw [getJSONArray]
  split
  · exact onlyJSON_ok _
  · exact onlyJSON_JSONException

theorem onlyJSON_parseObject (t : Text) : OnlyJSON (parseObject lib t) := by
  rw [parseObject]
  split
  · exact onlyJSON_ok _
  · exact onlyJSON_JSONException

theorem onlyJSON_asObject (v : Json) : OnlyJSON (asObject v) := by
  cases v with
  | obj ms => exact onlyJSON_ok _
  | _ => exact onlyJSON_JSONException

theorem onlyJSON_line (v : Json) : OnlyJSON (asObject v >>= output lib) :=
  (onlyJSON_asObject v).bind fun stock => (onlyJSON_getString stock _).bind fun _ =>
    (onlyJSON_getString stock _).bind fun _ => (onlyJSON_getString stock _).bind fun _ =>
      onlyJSON_ok _

theorem onlyJSON_results (line : Text) (num : Nat) : OnlyJSON (results lib line num) :=
  (onlyJSON_parseObject _).bind fun jObject => (onlyJSON_getJSONObject jObject _).bind fun resSet =>
    onlyJSON_getJSONArray resSet _

/-- **The two loops**: the one ends with the list so far where the other throws. -/
theorem loops (res : List Json) : ∀ (tempstkList : List Text), ∃ list,
    stockLoop lib res tempstkList = tempstkList ++ list ∧
    (resultLoop lib res tempstkList = .ok (tempstkList ++ list) ∧ LinesOf lib true res list ∨
      resultLoop lib res tempstkList = .error .JSONException ∧ LinesOf lib false res list) := by
  induction res with
  | nil =>
      intro tempstkList
      refine ⟨[], (List.append_nil _).symm, .inl ⟨?_, [], [], rfl, .nil, fun _ => rfl, nofun⟩⟩
      rw [resultLoop, List.append_nil]
  | cons stock res ih =>
      intro tempstkList
      cases ho : asObject stock >>= output lib with
      | ok o =>
          obtain ⟨list, hlist, hend⟩ := ih (tempstkList ++ [o])
          have hassoc : tempstkList ++ [o] ++ list = tempstkList ++ o :: list := by simp
          refine ⟨o :: list, ?_, ?_⟩
          · rw [stockLoop, ho]
            exact hlist.trans hassoc
          · rw [resultLoop, ho, ← hassoc]
            rcases hend with ⟨hloop, done, rest, rfl, hdone, hall⟩ |
              ⟨hloop, done, rest, rfl, hdone, hall⟩
            · exact .inl ⟨hloop, stock :: done, rest, rfl, .cons ho hdone, hall⟩
            · exact .inr ⟨hloop, stock :: done, rest, rfl, .cons ho hdone, hall⟩
      | error e =>
          cases onlyJSON_line stock e ho
          refine ⟨[], ?_, .inr ⟨?_, [], stock :: res, rfl, .nil, nofun, fun _ => ?_⟩⟩
          · rw [stockLoop, ho, List.append_nil]
          · rw [resultLoop, ho]
          · exact ⟨stock, rfl, fun o h => nomatch ho.symm.trans h⟩

/-- The object in a line begins at its first brace. -/
def Begins (line : Text) (num : Nat) : Prop := line.findIdx? (fun c => c = '{') = some num

/-- What the two methods make of a body, this class's and the client's. -/
inductive Lists (lib : OrgJson) (body : Text) :
    Except Exception (List Text) → Except Exception (List Text) → Prop
  | lines {line : Text} {num : Nat} {res : List Json} {list : List Text} :
      readLine body = some line → Begins line num → results lib line num = .ok res →
      LinesOf lib true res list → Lists lib body (.ok list) (.ok list)
  | broken {line : Text} {num : Nat} {res : List Json} {list : List Text} :
      readLine body = some line → Begins line num → results lib line num = .ok res →
      LinesOf lib false res list → Lists lib body (.error .JSONException) (.ok list)
  | none {line : Text} {num : Nat} :
      readLine body = some line → Begins line num → results lib line num = .error .JSONException →
      Lists lib body (.error .JSONException) (.ok [])
  | noLine :
      readLine body = .none →
      Lists lib body (.error .NullPointerException) (.error .NullPointerException)
  | noObject {line : Text} :
      readLine body = some line → '{' ∉ line →
      Lists lib body (.error .StringIndexOutOfBoundsException) (.error .StringIndexOutOfBoundsException)

/-- **What became of the exceptions**: where this class throws a JSONException
the client keeps the lines up to the result that caused it.  On a body without a
line, and on a line without a brace, both throw. -/
theorem autoCom_spec (lib : OrgJson) (body : Text) :
    Lists lib body (autoCom lib body) (getListFromYahoo lib body) := by
  rw [autoCom, getListFromYahoo]
  cases hline : readLine body with
  | none => exact .noLine hline
  | some line =>
      cases hnum : line.findIdx? fun c => c = '{' with
      | none =>
          simp only [hnum]
          have hbrace : '{' ∉ line := fun hmem => by
            simpa using List.findIdx?_eq_none_iff.mp hnum _ hmem
          exact .noObject hline hbrace
      | some num =>
          simp only [hnum]
          rw [← results]
          cases hres : results lib line num with
          | error e =>
              cases onlyJSON_results line num e hres
              exact .none hline hnum hres
          | ok res =>
              obtain ⟨list, hlist, hend⟩ := @loops lib res []
              change Lists lib body (resultLoop lib res []) (.ok (stockLoop lib res []))
              rw [hlist, List.nil_append]
              rcases hend with ⟨hloop, hall⟩ | ⟨hloop, hall⟩
              · rw [hloop]
                exact .lines hline hnum hres hall
              · rw [hloop]
                exact .broken hline hnum hres hall

end AutoCom

/-! ## getStockData -/

/-- A row of the array `newslinks`: a title and a link, each null until it is
assigned. -/
abbrev Row := Option Text × Option Text

def null : Row := (none, none)

/-- What a call sees of the fields: the static ones, and its instance's own. -/
structure Fields where
  newslinks : Option (List Row)
  len : Nat
  newsNotAvailable : Bool
  deriving DecidableEq, Repr

section Calls
variable (lib : OrgJson)

/-- The loop from round `i` on: how it ends, and what it leaves in the array and
in the flag. -/
def newsLoop : List Json → Nat → List Row → Bool → Except Exception Unit × List Row × Bool
  | [], _, newslinks, newsNotAvailable => (.ok ⟨⟩, newslinks, newsNotAvailable)
  | nl :: item, i, newslinks, newsNotAvailable =>
      match asObject nl >>= fun nl => getString lib nl "Title" with
      | .error e => (.error e, newslinks, newsNotAvailable)
      | .ok title =>
          let newslinks := newslinks.modify i fun row => (some title, row.2)
          match asObject nl >>= fun nl => getString lib nl "Link" with
          | .error e => (.error e, newslinks, newsNotAvailable)
          | .ok link =>
              newsLoop item (i + 1) (newslinks.modify i fun row => (row.1, some link))
                (newsNotAvailable || link = "No Link".toList)

/-- The members `ks` as texts, under their names. -/
def texts (v : Json) (ks : List String) : Except Exception (List (String × Text)) :=
  ks.mapM fun k => do return (k, ← getString lib v k)

/-- The map `hm`, and the array of the items. -/
def readResult (line : Text) : Except Exception (List (String × Text) × List Json) := do
  let res ← getJSONObject (← parseObject lib line) "result"
  let hm ← texts lib res ["Name", "Symbol"]
  let quo ← getJSONObject res "Quote"
  let hm := hm ++ (← texts lib quo quoteNames)
  let item ← getJSONArray (← getJSONObject res "News") "Item"
  return (hm, item)

/-- `autoCompleteTest.getStockData`, for the body of the response. -/
def getStockData (body : Text) (fields : Fields) :
    Except Exception (List (String × Text)) × Fields :=
  match readLine body with
  | none => (.error .NullPointerException, fields)
  | some line =>
      match readResult lib line with
      | .error e => (.error e, fields)
      | .ok (hm, item) =>
          let (r, newslinks, newsNotAvailable) :=
            newsLoop lib item 0 (List.replicate item.length null) fields.newsNotAvailable
          (r.map fun _ => hm, ⟨some newslinks, item.length, newsNotAvailable⟩)

/-! ### One call -/

/-- The rows the loop leaves. -/
def rows : List Json → List Row
  | [] => []
  | nl :: item =>
      match asObject nl >>= fun nl => getString lib nl "Title" with
      | .error _ => null :: List.replicate item.length null
      | .ok title =>
          match asObject nl >>= fun nl => getString lib nl "Link" with
          | .error _ => (some title, none) :: List.replicate item.length null
          | .ok link => (some title, some link) :: rows item

/-- The links among them. -/
def links (rs : List Row) : List Text := rs.filterMap Prod.snd

/-- One of the links says that there is none. -/
def noLink (ls : List Text) : Bool := ls.any fun link => link = "No Link".toList

variable {lib}

theorem length_rows (item : List Json) : (rows lib item).length = item.length := by
  induction item with
  | nil => rfl
  | cons nl item ih =>
      rw [rows]
      split
      · simp
      · split
        · simp
        · simp [ih]

theorem links_replicate (n : Nat) : links (List.replicate n null) = [] := by
  rw [links, List.filterMap_eq_nil_iff]
  intro row hrow
  rw [List.eq_of_mem_replicate hrow]
  rfl

/-- Round `done.length` writes into the first row that is left. -/
theorem modify_next (done rest : List Row) (row : Row) (f : Row → Row) :
    (done ++ row :: rest).modify done.length f = done ++ f row :: rest := by
  induction done with
  | nil => rfl
  | cons d done ih => exact congrArg (d :: ·) ih

/-- **The loop** fills the rows that are left from the front. -/
theorem newsLoop_eq (item : List Json) : ∀ (done : List Row) (flag : Bool), ∃ r,
    newsLoop lib item done.length (done ++ List.replicate item.length null) flag =
      (r, done ++ rows lib item, flag || noLink (links (rows lib item))) := by
  induction item with
  | nil =>
      intro done flag
      exact ⟨.ok ⟨⟩, by simp [newsLoop, rows, links, noLink]⟩
  | cons nl item ih =>
      intro done flag
      rw [newsLoop, rows, List.length_cons, List.replicate_succ]
      cases htitle : asObject nl >>= fun nl => getString lib nl "Title" with
      | error e =>
          refine ⟨.error e, ?_⟩
          show (_, _, flag) = _
          rw [← List.replicate_succ, links_replicate]
          simp [noLink]
      | ok title =>
          simp only [modify_next]
          cases hlink : asObject nl >>= fun nl => getString lib nl "Link" with
          | error e =>
              refine ⟨.error e, ?_⟩
              simp only [links, List.filterMap_cons]
              rw [← links, links_replicate]
              simp [null, noLink]
          | ok link =>
              obtain ⟨r, hr⟩ := ih (done ++ [(some title, some link)])
                (flag || decide (link = "No Link".toList))
              refine ⟨r, ?_⟩
              rw [List.length_append, List.append_assoc] at hr
              refine hr.trans ?_
              have hflag : noLink (links ((some title, some link) :: rows lib item)) =
                  (decide (link = "No Link".toList) || noLink (links (rows lib item))) := rfl
              simp only [hflag, List.append_assoc, Bool.or_assoc]
              rfl

/-- The rows a call leaves, if it comes to the items. -/
def rowsOf (lib : OrgJson) (body : Text) : Option (List Row) :=
  (readLine body).bind fun line =>
    match readResult lib line with
    | .ok (_, item) => some (rows lib item)
    | .error _ => none

/-- **One call**: what it leaves in the fields is told by the rows. -/
theorem getStockData_fields (body : Text) (fields : Fields) :
    (getStockData lib body fields).2 =
      match rowsOf lib body with
      | none => fields
      | some rs => ⟨some rs, rs.length, fields.newsNotAvailable || noLink (links rs)⟩ := by
  rw [getStockData, rowsOf]
  cases readLine body with
  | none => rfl
  | some line =>
      cases hres : readResult lib line with
      | error e => simp only [Option.bind_some, hres]
      | ok p =>
          obtain ⟨hm, item⟩ := p
          obtain ⟨r, hr⟩ := @newsLoop_eq lib item [] fields.newsNotAvailable
          rw [List.length_nil, List.nil_append, List.nil_append] at hr
          simp only [Option.bind_some, hres, hr, length_rows]

/-! ### Any calls on any instances -/

/-- The static fields, and the flag of each instance. -/
structure State where
  newslinks : Option (List Row)
  len : Nat
  newsNotAvailable : Nat → Bool

/-- A call on an instance, and the body of its response. -/
abbrev Event := Nat × Text

def step (lib : OrgJson) (s : State) (e : Event) : State :=
  let fields := (getStockData lib e.2 ⟨s.newslinks, s.len, s.newsNotAvailable e.1⟩).2
  { newslinks := fields.newslinks
    len := fields.len
    newsNotAvailable := Function.update s.newsNotAvailable e.1 fields.newsNotAvailable }

/-- The class in a run of calls. -/
def calls (lib : OrgJson) : Machine State Event where
  init := ⟨none, 0, fun _ => false⟩
  step s e := some (step lib s e)

/-- The rows the calls on instance `k` left. -/
def rowsOn (lib : OrgJson) (k : Nat) (es : List Event) : List (List Row) :=
  (es.filter fun e => e.1 = k).filterMap fun e => rowsOf lib e.2

theorem rowsOn_concat (k : Nat) (es : List Event) (e : Event) : rowsOn lib k (es ++ [e]) =
    rowsOn lib k es ++ if e.1 = k then (rowsOf lib e.2).toList else [] := by
  rw [rowsOn, rowsOn, List.filter_append, List.filterMap_append]
  by_cases hk : e.1 = k
  · cases hrows : rowsOf lib e.2 with
    | none => simp [hk, hrows]
    | some rs => simp [hk, hrows]
  · simp [hk]

/-- **The fields after any calls**: the array and its length are those of the
last call that came to its items, on whatever instance.  The flag of an instance
is set once a call on it has read an item without a link, and stays set. -/
theorem fields_of_calls {es : List Event} {s : State} (h : (calls lib).run (calls lib).init es = some s) :
    s.newslinks = (es.filterMap fun e => rowsOf lib e.2).getLast? ∧
    s.len = (s.newslinks.map List.length).getD 0 ∧
    ∀ k, s.newsNotAvailable k = (rowsOn lib k es).any fun rs => noLink (links rs) := by
  refine Machine.run_log (M := calls lib) (P := fun es s =>
    s.newslinks = (es.filterMap fun e => rowsOf lib e.2).getLast? ∧
    s.len = (s.newslinks.map List.length).getD 0 ∧
    ∀ k, s.newsNotAvailable k = (rowsOn lib k es).any fun rs => noLink (links rs))
    ⟨rfl, rfl, fun _ => rfl⟩ ?_ h
  rintro es s t ⟨i, body⟩ - ⟨hrows, hlen, hflag⟩ ⟨⟩
  have hfields := @getStockData_fields lib body ⟨s.newslinks, s.len, s.newsNotAvailable i⟩
  have hlast : [(i, body)].filterMap (fun e : Event => rowsOf lib e.2) = (rowsOf lib body).toList := by
    cases hbody : rowsOf lib body with
    | none => exact List.filterMap_cons_none hbody
    | some rs => exact List.filterMap_cons_some hbody
  simp only [step, hfields, rowsOn_concat, List.filterMap_append, List.any_append, hlast]
  cases hbody : rowsOf lib body with
  | none =>
      refine ⟨?_, hlen, fun k => ?_⟩
      · exact hrows.trans (congrArg _ (List.append_nil _).symm)
      · rw [Function.update_eq_self, hflag k]
        simp
  | some rs =>
      refine ⟨?_, rfl, fun k => ?_⟩
      · exact List.getLast?_concat.symm
      · by_cases hk : i = k
        · subst hk
          simp [hflag]
        · rw [Function.update_of_ne (Ne.symm hk), hflag k]
          simp [hk]

end Calls

/-- Two instances; the second gets no answer. -/
def twoCalls : List Event := [(0, print (emptyResponse linkedLast)), (1, [])]

theorem fields_of_twoCalls : ∃ s, (calls strict).run (calls strict).init twoCalls = some s ∧
    s.newslinks = (twoCalls.filterMap fun e => rowsOf strict e.2).getLast? ∧
    s.newsNotAvailable 1 = false := by
  obtain ⟨hrows, -, hflag⟩ := @fields_of_calls strict twoCalls _ rfl
  exact ⟨_, rfl, hrows, (hflag 1).trans rfl⟩

end WebTech.AutoCompleteTest
