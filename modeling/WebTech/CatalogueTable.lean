/-
# `WebTech.CatalogueTable` — the catalogue as the window shows it

The viewer reads the first child of an element where it means its text, and
writes it into the table as it is.

    the first child is an element              the cell says null
    it is a comment or an instruction          the cell shows that
    there is more after it                     the cell shows less than the text
    the text has markup or references          the cell shows something else
    the file name of a picture has a quote     the tag of the picture is cut

The table is the catalogue when none of these happens (`shows_iff`).  Without
comments and instructions of markup in front, and without quotes in file names,
it is the catalogue in no other case.
-/
import WebTech.ErrorPaths
import WebTech.Lib.HtmlValue

namespace WebTech.Homework2

open Dom Html

/-! ## What the table should be -/

/-- The text of an element, or `NA`. -/
def textOrNA (e : Node) : Text := if e.textContent = [] then "NA".toList else e.textContent

/-- What a cell should show. -/
def shownText (plant : Node) (k : String) : Text :=
  match plant.elementsByTagName k with
  | [] => "NA".toList
  | e :: _ => textOrNA e

def start (name : String) : Token := .startTag name.toList [] false

def stop (name : String) : Token := .endTag name.toList

def cellTokens (text : Text) : List Token :=
  start "td" :: start "span" :: text.map .char ++ [stop "span", stop "td"]

/-- A picture, or `NA`. -/
def IsPicture (ts : List Token) : Prop :=
  ts = "NA".toList.map .char ∨ ∃ attrs, ts = [.startTag "img".toList attrs false]

/-- **A row of six cells.** -/
def rowTokens (plant : Node) (picture : List Token) : List Token :=
  start "tr" :: textColumns.flatMap (fun k => cellTokens (shownText plant k)) ++
    (start "td" :: start "span" :: picture ++ [stop "span", stop "td", stop "tr"])

/-- The table up to its first row. -/
def headTokens : List Token :=
  [start "html", start "body", start "center",
    .startTag "table".toList [("border".toList, "1".toList)] false, start "tr"] ++
    (textColumns ++ ["IMAGE"]).flatMap fun k => start "th" :: k.toList.map .char ++ [stop "th"]

def tailTokens : List Token := [stop "table", stop "center", stop "body", stop "html"]

/-- **One row for each plant**, in their order, and the end of the table. -/
inductive ShowsRows : List Node → List Token → Prop
  | done : ShowsRows [] tailTokens
  | row {plant : Node} {plants : List Node} {picture rest : List Token} : IsPicture picture →
      ShowsRows plants rest → ShowsRows (plant :: plants) (rowTokens plant picture ++ rest)

/-- **The viewer shows the catalogue**: no exception, no alert, and one text
written, which is read as the table. -/
def Shows (E : Entities) (url : Text) (r : Request) (xmlDoc : Document) : Prop :=
  ∃ s rest, exec url r = (.ok (some true), ⟨[], 1, [s]⟩) ∧ tokenize E s = headTokens ++ rest ∧
    ShowsRows (plants xmlDoc) rest

/-! ## When it is -/

/-- What the script takes for the text of an element. -/
def taken (c : Node) : Text := c.nodeValue.getD "null".toList

/-- The first child of the first element of a name. -/
def firstChild (plant : Node) (k : String) : Option (Node × Node) :=
  (plant.elementsByTagName k).head?.bind fun e => e.childNodes.head?.map fun c => (e, c)

section Conditions
variable (E : Entities)

def PlainText (s : Text) : Prop := IsPlain E s ∧ '\r' ∉ s

/-- No quote in the file name of the picture. -/
def Unquoted (plant : Node) : Prop :=
  ∀ p ∈ firstChild plant "IMAGE", '\'' ∉ taken p.2 ∧ '"' ∉ taken p.2

/-- **A plant that is shown**: the first child is the whole text, and plain. -/
structure Kept (plant : Node) : Prop where
  texts : ∀ k ∈ textColumns, ∀ p ∈ firstChild plant k, taken p.2 = textOrNA p.1 ∧
    PlainText E (taken p.2)
  image : Unquoted plant

/-- A plant without comments or instructions of markup in front. -/
structure Direct (plant : Node) : Prop where
  texts : ∀ k ∈ textColumns, ∀ p ∈ firstChild plant k, p.2.isRemark = false ∨
    PlainText E (taken p.2)
  image : Unquoted plant

/-- **A catalogue that is shown.** -/
structure KeptCatalogue (xmlDoc : Document) : Prop where
  root : xmlDoc.name ≠ "parsererror".toList
  plants : ∀ plant ∈ plants xmlDoc, Kept E plant

def DirectCatalogue (xmlDoc : Document) : Prop := ∀ plant ∈ plants xmlDoc, Direct E plant

theorem Kept.direct {plant : Node} (h : Kept E plant) : Direct E plant :=
  ⟨fun k hk p hp => .inr (h.texts k hk p hp).2, h.image⟩

/-! ## One cell -/

theorem plainText_na : PlainText E "NA".toList := ⟨⟨rfl, by decide, rfl⟩, by decide⟩

/-- The first child of an element, as text. -/
theorem firstValue_eq (plant : Node) (k : String) :
    firstValue (plant.elementsByTagName k) = (firstChild plant k).map fun p => taken p.2 := by
  rw [firstChild]
  cases plant.elementsByTagName k with
  | nil => rfl
  | cons e es =>
      rw [firstValue, List.head?_cons, Option.bind_some, Option.map_map]
      rfl

/-- What is found by a name is an element. -/
theorem element_of_mem {plant e : Node} {k : String} (h : e ∈ plant.elementsByTagName k) :
    ∃ n cs, e = .element n cs := by
  have hnamed := (List.mem_filter.mp h).2
  cases e with
  | element n cs => exact ⟨n, cs, rfl⟩
  | _ => exact nomatch hnamed

/-- **What is written and what should be shown**, by the first child. -/
theorem cell_cases (plant : Node) (k : String) :
    (firstChild plant k = none ∧ textCell plant k = "NA".toList ∧ shownText plant k = "NA".toList) ∨
      ∃ n c cs, firstChild plant k = some (.element n (c :: cs), c) ∧ textCell plant k = taken c ∧
        shownText plant k = textOrNA (.element n (c :: cs)) := by
  have hmem : ∀ e ∈ plant.elementsByTagName k, ∃ n cs, e = .element n cs := fun e => element_of_mem
  rw [textCell, firstValue_eq, firstChild, shownText]
  cases hes : plant.elementsByTagName k with
  | nil => exact .inl ⟨rfl, rfl, rfl⟩
  | cons e es =>
      rw [hes] at hmem
      obtain ⟨n, cs, rfl⟩ := hmem e List.mem_cons_self
      cases cs with
      | nil => exact .inl ⟨rfl, rfl, rfl⟩
      | cons c cs => exact .inr ⟨n, c, cs, rfl, rfl, rfl⟩

/-- A text in front is where the whole text starts. -/
theorem taken_leads (n : List Char) (c : Node) (cs : List Node) (hc : c.isRemark = false) :
    PlainText E (taken c) ∨ taken c <+: textOrNA (.element n (c :: cs)) := by
  have hnull : PlainText E "null".toList := ⟨⟨rfl, by decide, rfl⟩, by decide⟩
  have hpre : ∀ s rest : Text, s <+: if s ++ rest = [] then "NA".toList else s ++ rest := by
    intro s rest
    split
    · next h =>
        rw [List.append_eq_nil_iff.mp h |>.1]
        exact List.nil_prefix
    · exact List.prefix_append s rest
  cases c with
  | text s => exact .inr (hpre s (Node.textContents cs))
  | cdata s => exact .inr (hpre s (Node.textContents cs))
  | element _ _ => exact .inl hnull
  | comment _ | instruction _ _ => exact nomatch hc

/-- The condition on a cell. -/
def CellKept (plant : Node) (k : String) : Prop :=
  ∀ p ∈ firstChild plant k, taken p.2 = textOrNA p.1 ∧ PlainText E (taken p.2)

theorem cellKept_iff (plant : Node) (k : String) :
    textCell plant k = shownText plant k ∧ PlainText E (textCell plant k) ↔ CellKept E plant k := by
  rcases cell_cases plant k with ⟨hnone, htext, hshown⟩ | ⟨n, c, cs, hsome, htext, hshown⟩
  · rw [CellKept, hnone, htext, hshown]
    exact iff_of_true ⟨rfl, plainText_na E⟩ nofun
  · rw [CellKept, hsome, htext, hshown]
    constructor
    · rintro h p ⟨⟩
      exact h
    · intro h
      exact h _ rfl

def cellOpen : Text := "<td><span>".toList

def cellClose : Text := "</span></td>".toList

def cellText (plant : Node) (k : String) : Text := cellOpen ++ textCell plant k ++ cellClose

/-- **A cell of text.** -/
theorem cell_iff {plant : Node} {k : String}
    (hdirect : ∀ p ∈ firstChild plant k, p.2.isRemark = false ∨ PlainText E (taken p.2))
    (r : Text) (ys : List Token) :
    run E (.data []) (normalize (cellText plant k ++ r)) = cellTokens (shownText plant k) ++ ys ↔
      CellKept E plant k ∧ run E (.data []) (normalize r) = ys := by
  have hopen : ∀ x, run E (.data []) (cellOpen ++ x) =
      start "td" :: start "span" :: run E (.data []) x := fun _ => rfl
  have hclose : ∀ x, run E .tagOpen ('/' :: 's' :: ("pan></td>".toList ++ x)) =
      stop "span" :: stop "td" :: run E (.data []) x := fun _ => rfl
  have hend : ∀ x, cellClose ++ x = '<' :: '/' :: 's' :: ("pan></td>".toList ++ x) := fun _ => rfl
  have htokens : cellTokens (shownText plant k) ++ ys = start "td" :: start "span" ::
      ((shownText plant k).map .char ++ (stop "span" :: stop "td" :: ys)) := by
    rw [cellTokens, List.cons_append, List.cons_append, List.append_assoc]
    rfl
  have hno : NoChar (stop "span" :: stop "td" :: ys) := fun _ _ h => nomatch h
  have hcrOpen : '\r' ∉ cellOpen := by decide
  have hcrClose : '\r' ∉ cellClose := by decide
  have hhead : (cellClose ++ r).head? ≠ some '\n' := fun h => nomatch Option.some.inj h
  have hlead : PlainText E (textCell plant k) ∨ textCell plant k <+: shownText plant k := by
    rcases cell_cases plant k with ⟨-, htext, -⟩ | ⟨n, c, cs, hsome, htext, hshown⟩
    · exact .inl (htext ▸ plainText_na E)
    · rw [htext, hshown]
      rcases hdirect _ hsome with hremark | hplain
      · exact taken_leads E n c cs hremark
      · exact .inl hplain
  rw [cellText, List.append_assoc, List.append_assoc, normalize_append (.inl hcrOpen),
    normalize_append (.inr hhead), normalize_append (.inl hcrClose), normalize_eq_self hcrOpen,
    normalize_eq_self hcrClose, hopen, htokens, List.cons_inj_right, List.cons_inj_right, hend,
    written_iff E rfl hno hlead, hclose, List.cons_inj_right, List.cons_inj_right, ← cellKept_iff,
    PlainText]

/-- **The cells of text of a row**, by induction on their columns. -/
theorem cells_iff {plant : Node} (r : Text) (ys : List Token) : ∀ ks : List String,
    (∀ k ∈ ks, ∀ p ∈ firstChild plant k, p.2.isRemark = false ∨ PlainText E (taken p.2)) →
    (run E (.data []) (normalize (ks.flatMap (cellText plant) ++ r)) =
        ks.flatMap (fun k => cellTokens (shownText plant k)) ++ ys ↔
      (∀ k ∈ ks, CellKept E plant k) ∧ run E (.data []) (normalize r) = ys) := by
  intro ks
  induction ks with
  | nil =>
      intro _
      exact ⟨fun h => ⟨nofun, h⟩, fun h => h.2⟩
  | cons k ks ih =>
      intro hdirect
      obtain ⟨hk, hks⟩ := List.forall_mem_cons.mp hdirect
      rw [List.flatMap_cons, List.flatMap_cons, List.append_assoc, List.append_assoc, cell_iff E hk,
        ih hks, List.forall_mem_cons, and_assoc]

/-! ## The picture -/

def imgOpen : Text := "<img src='".toList

def imgMiddle : Text := " width='160' height='160' onerror =\"".toList

def imgClose : Text := " >".toList

/-- What is in front of the file name in `val`. -/
def valOpen : Text := "this.src = '".toList ++ "http://www-scf.usc.edu/~csci571/2014Spring/hw4/".toList

def valClose : Text := "';".toList

theorem val_eq (image : Text) : val image = valOpen ++ (image ++ valClose) := List.append_assoc _ _ _

theorem normalize_val (image x : Text) :
    normalize (val image ++ x) = val (normalize image) ++ normalize x := by
  have hopen : '\r' ∉ valOpen := by decide
  have hclose : '\r' ∉ valClose := by decide
  have hhead : (valClose ++ x).head? ≠ some '\n' := fun h => nomatch Option.some.inj h
  rw [val_eq, val_eq, List.append_assoc, List.append_assoc, normalize_append (.inl hopen),
    normalize_append (.inr hhead), normalize_append (.inl hclose), normalize_eq_self hopen,
    normalize_eq_self hclose, List.append_assoc, List.append_assoc]

/-- The tag of a picture with its line ends normalised. -/
theorem normalize_img (image r : Text) :
    normalize (img image ++ r) = imgOpen ++ (normalize image ++ '\'' :: (imgMiddle ++
      (val (normalize image) ++ '"' :: (imgClose ++ normalize r)))) := by
  have himg : img image ++ r = imgOpen ++ (image ++ ('\'' :: (imgMiddle ++ (val image ++
      ('"' :: (imgClose ++ r)))))) := by
    show imgOpen ++ image ++ '\'' :: imgMiddle ++ val image ++ '"' :: imgClose ++ r = _
    simp only [List.append_assoc, List.cons_append]
  have hopen : '\r' ∉ imgOpen := by decide
  have hmiddle : '\r' ∉ imgMiddle := by decide
  have hclose : '\r' ∉ imgClose := by decide
  have hsingle : ∀ x, ('\'' :: x : Text).head? ≠ some '\n' := fun _ h => nomatch Option.some.inj h
  rw [himg, normalize_append (.inl hopen), normalize_append (.inr (hsingle _)),
    normalize_cons (by decide), normalize_append (.inl hmiddle), normalize_val,
    normalize_cons (by decide), normalize_append (.inl hclose), normalize_eq_self hopen,
    normalize_eq_self hmiddle, normalize_eq_self hclose]

/-- **A file name without quotes** is read inside the tag of its picture. -/
theorem run_img {image : Text} (hsingle : '\'' ∉ image) (hdouble : '"' ∉ image) (r : Text) :
    ∃ attrs, run E (.data []) (normalize (img image ++ r)) =
      .startTag "img".toList attrs false :: run E (.data []) (normalize r) := by
  have hs : '\'' ∉ normalize image := fun h => hsingle (mem_of_mem_normalize (by decide) h)
  have hd : '"' ∉ val (normalize image) := by
    have hfront : '"' ∉ valOpen := by decide
    have hback : '"' ∉ valClose := by decide
    rw [val_eq, List.mem_append, List.mem_append, not_or, not_or]
    exact ⟨hfront, fun h => hdouble (mem_of_mem_normalize (by decide) h), hback⟩
  have hopen : ∀ x, run E (.data []) (imgOpen ++ x) =
      run E (.attrValueSingle ⟨false, "img".toList, []⟩ "src".toList []) x := fun _ => rfl
  have hmiddle : ∀ v x, run E (.afterAttrValue ((⟨false, "img".toList, []⟩ : Tag).add E "src".toList v))
      (imgMiddle ++ x) = run E (.attrValueDouble ⟨false, "img".toList, [("src".toList, valueOf E v),
        ("width".toList, "160".toList), ("height".toList, "160".toList)]⟩ "onerror".toList []) x :=
    fun _ _ => rfl
  have hclose : ∀ src v x, run E (.afterAttrValue ((⟨false, "img".toList, [("src".toList, src),
      ("width".toList, "160".toList), ("height".toList, "160".toList)]⟩ : Tag).add E
        "onerror".toList v)) (imgClose ++ x) =
      .startTag "img".toList [("src".toList, src), ("width".toList, "160".toList),
        ("height".toList, "160".toList), ("onerror".toList, valueOf E v)] false ::
          run E (.data []) x := fun _ _ _ => rfl
  rw [normalize_img, hopen, run_quotedChars E _ (step_single E _ _) _ hs, List.nil_append, hmiddle,
    run_quotedChars E _ (step_double E _ _) _ hd, List.nil_append, hclose]
  exact ⟨_, rfl⟩

/-! ## Rows -/

def rowOpen : Text := "<tr>".toList

def rowClose : Text := "</span></td></tr>".toList

def imageText (plant : Node) : Text := cellOpen ++ imageCell plant ++ rowClose

theorem row_eq (plant : Node) (r : Text) :
    row plant ++ r = rowOpen ++ (textColumns.flatMap (cellText plant) ++ (imageText plant ++ r)) := by
  show rowOpen ++ textColumns.flatMap (cellText plant) ++ cellOpen ++ imageCell plant ++ rowClose ++ r = _
  rw [imageText]
  simp only [List.append_assoc]

/-- **The cell of the picture**, and the end of its row. -/
theorem run_image {plant : Node} (h : Unquoted plant) (r : Text) :
    ∃ picture, IsPicture picture ∧ run E (.data []) (normalize (imageText plant ++ r)) =
      start "td" :: start "span" :: picture ++ (stop "span" :: stop "td" :: stop "tr" ::
        run E (.data []) (normalize r)) := by
  have hopen : ∀ x, run E (.data []) (cellOpen ++ x) =
      start "td" :: start "span" :: run E (.data []) x := fun _ => rfl
  have hclose : ∀ x, run E (.data []) (rowClose ++ x) =
      stop "span" :: stop "td" :: stop "tr" :: run E (.data []) x := fun _ => rfl
  have hna : ∀ x, run E (.data []) ("NA".toList ++ (rowClose ++ x)) =
      "NA".toList.map .char ++ (stop "span" :: stop "td" :: stop "tr" :: run E (.data []) x) :=
    fun _ => rfl
  have hcrOpen : '\r' ∉ cellOpen := by decide
  have hcrClose : '\r' ∉ rowClose := by decide
  have hcrNA : '\r' ∉ "NA".toList := by decide
  have hcell : imageCell plant = match firstChild plant "IMAGE" with
      | some p => img (taken p.2)
      | none => "NA".toList := by
    rw [imageCell, firstValue_eq]
    cases firstChild plant "IMAGE" with
    | none => rfl
    | some p => rfl
  rw [imageText, List.append_assoc, List.append_assoc, normalize_append (.inl hcrOpen),
    normalize_eq_self hcrOpen, hopen, hcell]
  cases hfirst : firstChild plant "IMAGE" with
  | none =>
      refine ⟨_, .inl rfl, ?_⟩
      show _ :: _ :: run E (.data []) (normalize ("NA".toList ++ (rowClose ++ r))) = _
      rw [normalize_append (.inl hcrNA), normalize_append (.inl hcrClose), normalize_eq_self hcrNA,
        normalize_eq_self hcrClose, hna]
      rfl
  | some p =>
      obtain ⟨hsingle, hdouble⟩ := h p hfirst
      obtain ⟨attrs, hrun⟩ := run_img E hsingle hdouble (rowClose ++ r)
      refine ⟨_, .inr ⟨attrs, rfl⟩, ?_⟩
      show _ :: _ :: run E (.data []) (normalize (img (taken p.2) ++ (rowClose ++ r))) = _
      rw [hrun, normalize_append (.inl hcrClose), normalize_eq_self hcrClose, hclose]
      rfl

end Conditions

/-- What follows a picture is determined. -/
theorem picture_inj {p q xs ys : List Token} (hp : IsPicture p) (hq : IsPicture q)
    (h : p ++ xs = q ++ ys) : xs = ys := by
  rcases hp with rfl | ⟨attrs, rfl⟩
  · rcases hq with rfl | ⟨attrs', rfl⟩
    · exact List.append_cancel_left h
    · exact nomatch h
  · rcases hq with rfl | ⟨attrs', rfl⟩
    · exact nomatch h
    · exact (List.cons.inj h).2

theorem showsRows_cons {plant : Node} {plants : List Node} {ts : List Token} :
    ShowsRows (plant :: plants) ts ↔ ∃ picture rest, IsPicture picture ∧
      ts = rowTokens plant picture ++ rest ∧ ShowsRows plants rest := by
  constructor
  · intro h
    cases h with
    | row hpicture hrest => exact ⟨_, _, hpicture, rfl, hrest⟩
  · rintro ⟨picture, rest, hpicture, rfl, hrest⟩
    exact .row hpicture hrest

section Table
variable (E : Entities)

/-- **One row.** -/
theorem row_iff {plant : Node} (h : Direct E plant) (plants : List Node) (r : Text) :
    ShowsRows (plant :: plants) (run E (.data []) (normalize (row plant ++ r))) ↔
      Kept E plant ∧ ShowsRows plants (run E (.data []) (normalize r)) := by
  have hopen : ∀ x, run E (.data []) (rowOpen ++ x) = start "tr" :: run E (.data []) x := fun _ => rfl
  have hcr : '\r' ∉ rowOpen := by decide
  have hcells := @cells_iff E plant (imageText plant ++ r)
  obtain ⟨picture, hpicture, himage⟩ := run_image E h.image r
  have htokens : ∀ p rest, rowTokens plant p ++ rest = start "tr" ::
      (textColumns.flatMap (fun k => cellTokens (shownText plant k)) ++ (start "td" :: start "span" ::
        p ++ (stop "span" :: stop "td" :: stop "tr" :: rest))) := by
    intro p rest
    rw [rowTokens]
    simp only [List.cons_append, List.append_assoc, List.nil_append]
  rw [showsRows_cons, row_eq, normalize_append (.inl hcr), normalize_eq_self hcr, hopen]
  constructor
  · rintro ⟨p, rest, hp, heq, hrest⟩
    rw [htokens, List.cons_inj_right, hcells _ textColumns h.texts, himage, List.cons_append,
      List.cons_append, List.cons_append, List.cons_append, List.cons_inj_right,
      List.cons_inj_right] at heq
    obtain ⟨htexts, htail⟩ := heq
    have hfollow := picture_inj hpicture hp htail
    rw [List.cons_inj_right, List.cons_inj_right, List.cons_inj_right] at hfollow
    exact ⟨⟨htexts, h.image⟩, hfollow ▸ hrest⟩
  · rintro ⟨hkept, hrest⟩
    refine ⟨picture, _, hpicture, ?_, hrest⟩
    rw [htokens, List.cons_inj_right, hcells _ textColumns h.texts]
    exact ⟨hkept.texts, himage⟩

def tailText : Text :=
  "</table>".toList ++ "</center>".toList ++ "</body>".toList ++ "</html>".toList

/-- **All rows**, by induction on the plants. -/
theorem rows_iff : ∀ plants : List Node, (∀ plant ∈ plants, Direct E plant) →
    (ShowsRows plants (run E (.data []) (normalize (plants.flatMap row ++ tailText))) ↔
      ∀ plant ∈ plants, Kept E plant) := by
  intro plants
  induction plants with
  | nil =>
      intro _
      exact iff_of_true ShowsRows.done nofun
  | cons plant plants ih =>
      intro hdirect
      obtain ⟨hplant, hplants⟩ := List.forall_mem_cons.mp hdirect
      rw [List.flatMap_cons, List.append_assoc, row_iff E hplant, ih hplants, List.forall_mem_cons]

def headText : Text :=
  "<html>".toList ++ "<body>".toList ++ "<center>".toList ++ "<table border='1'>".toList
    ++ "<tr><th>COMMON</th><th>BOTANICAL</th><th>ZONE</th><th>LIGHT</th><th>PRICE</th><th>IMAGE</th>".toList

set_option maxRecDepth 4000 in
theorem run_headText (x : Text) :
    run E (.data []) (headText ++ x) = headTokens ++ run E (.data []) x := rfl

/-- **The text that is written**, read as a table. -/
theorem tokenize_str (plants : List Node) :
    tokenize E (str plants) = headTokens ++
      run E (.data []) (normalize (plants.flatMap row ++ tailText)) := by
  have htail : ∀ s a b c d : Text, s ++ a ++ b ++ c ++ d = s ++ (a ++ b ++ c ++ d) := by
    intro s a b c d
    simp only [List.append_assoc]
  have hstr : str plants = headText ++ (plants.flatMap row ++ tailText) :=
    (htail (headText ++ plants.flatMap row) _ _ _ _).trans (List.append_assoc _ _ _)
  have hcr : '\r' ∉ headText := by decide
  rw [tokenize, hstr, normalize_append (.inl hcr), normalize_eq_self hcr, run_headText]

end Table

/-! ## The window -/

/-- The document arrives. -/
structure Brings (r : Request) (xmlDoc : Document) : Prop where
  opened : r.openThrows = false
  sent : r.sendThrows = false
  found : r.status ≠ 404
  document : r.responseXML = some xmlDoc

section Window
variable {url : Text} (hurl : url ≠ []) {r : Request} {xmlDoc : Document} (hr : Brings r xmlDoc)
include hurl hr

/-- **What the viewer does with a document that arrives and has a plant.** -/
theorem exec_brings (hplants : plants xmlDoc ≠ []) :
    (xmlDoc.name = "parsererror".toList ∧ (exec url r).1 = .ok (some false)) ∨
      (xmlDoc.name ≠ "parsererror".toList ∧
        exec url r = (.ok (some true), ⟨[], 1, [str (plants xmlDoc)]⟩)) := by
  have hexit := exec_cases hurl r
  generalize exec url r = x at hexit
  obtain ⟨res, e⟩ := x
  cases hexit with
  | unopened hopen => exact nomatch hr.opened.symm.trans hopen
  | notFound _ hs => exact absurd hs hr.found
  | noDocument _ _ hdoc => exact nomatch hdoc.symm.trans hr.document
  | illFormed d _ _ hdoc hroot =>
      cases hdoc.symm.trans hr.document
      exact .inl ⟨hroot, rfl⟩
  | noPlant d _ _ hdoc _ hp =>
      cases hdoc.symm.trans hr.document
      exact absurd hp hplants
  | table d _ _ hdoc hroot _ =>
      cases hdoc.symm.trans hr.document
      have halerts : sendAlerts r = [] := if_neg (by rw [hr.sent]; decide)
      exact .inr ⟨hroot, by rw [halerts]⟩

variable (E : Entities)

/-- Without comments and instructions of markup in front the condition is exact. -/
theorem shows_iff_of_direct (hplants : plants xmlDoc ≠ []) (hdirect : DirectCatalogue E xmlDoc) :
    Shows E url r xmlDoc ↔ KeptCatalogue E xmlDoc := by
  have hrows := rows_iff E (plants xmlDoc) hdirect
  rcases exec_brings hurl hr hplants with ⟨hroot, hfalse⟩ | ⟨hroot, htrue⟩
  · refine iff_of_false ?_ fun h => h.root hroot
    rintro ⟨s, rest, hexec, -⟩
    rw [hexec] at hfalse
    exact nomatch hfalse
  · constructor
    · rintro ⟨s, rest, hexec, hread, hshown⟩
      cases htrue.symm.trans hexec
      rw [tokenize_str] at hread
      exact ⟨hroot, hrows.mp (List.append_cancel_left hread ▸ hshown)⟩
    · intro hkept
      exact ⟨_, _, htrue, tokenize_str E (plants xmlDoc), hrows.mpr hkept.plants⟩

/-- **The viewer shows the catalogue** when the first child of every cell's
element is its whole text and plain, and no file name has a quote.  Of the
catalogues without markup in a leading comment it shows no other. -/
theorem shows_iff (hplants : plants xmlDoc ≠ []) :
    (KeptCatalogue E xmlDoc → Shows E url r xmlDoc) ∧
      (DirectCatalogue E xmlDoc → (Shows E url r xmlDoc ↔ KeptCatalogue E xmlDoc)) := by
  have hiff := shows_iff_of_direct hurl hr E hplants
  constructor
  · intro hkept
    have hdirect : DirectCatalogue E xmlDoc := fun plant h => (hkept.plants plant h).direct
    exact (hiff hdirect).mpr hkept
  · exact hiff

end Window

/-! ## Two catalogues -/

/-- A plant with a name and a price, and the four other columns missing. -/
def plantOf (common price : List Node) : Node :=
  .element "PLANT".toList [.element "COMMON".toList common, .element "PRICE".toList price]

def catalog (ps : List Node) : Document := ⟨"CATALOG".toList, ps⟩

def arrived (xmlDoc : Document) : Request := ⟨false, false, 200, some xmlDoc⟩

theorem arrived_brings (xmlDoc : Document) : Brings (arrived xmlDoc) xmlDoc :=
  ⟨rfl, rfl, nofun, rfl⟩

theorem textOrNA_text (n : List Char) {s : Text} (h : s ≠ []) : textOrNA (.element n [.text s]) = s := by
  have htext : (Node.element n [.text s]).textContent = s := List.append_nil s
  rw [textOrNA, htext, if_neg h]

theorem kept_plantOf {common price : Text} (hcommon : PlainText .basic common) (hne : common ≠ [])
    (hprice : PlainText .basic price) (hne' : price ≠ []) : Kept .basic (plantOf [.text common] [.text price]) := by
  refine ⟨fun k hk p hp => ?_, nofun⟩
  simp only [textColumns, List.mem_cons, List.not_mem_nil, or_false] at hk
  rcases hk with rfl | rfl | rfl | rfl | rfl
  · cases hp
    exact ⟨(textOrNA_text _ hne).symm, hcommon⟩
  · exact nomatch hp
  · exact nomatch hp
  · exact nomatch hp
  · cases hp
    exact ⟨(textOrNA_text _ hne').symm, hprice⟩

def bloodroot : Document :=
  catalog [plantOf [.text "Bloodroot".toList] [.text "$2.44".toList],
    plantOf [.text "Columbine".toList] [.text "$9.37".toList]]

theorem bloodroot_kept : KeptCatalogue .basic bloodroot := by
  refine ⟨by decide, fun plant hplant => ?_⟩
  have hplants : plants bloodroot = [plantOf [.text "Bloodroot".toList] [.text "$2.44".toList],
      plantOf [.text "Columbine".toList] [.text "$9.37".toList]] := rfl
  rw [hplants, List.mem_cons, List.mem_singleton] at hplant
  rcases hplant with rfl | rfl
  · exact kept_plantOf ⟨⟨rfl, by decide, rfl⟩, by decide⟩ nofun
      ⟨⟨rfl, by decide, rfl⟩, by decide⟩ nofun
  · exact kept_plantOf ⟨⟨rfl, by decide, rfl⟩, by decide⟩ nofun
      ⟨⟨rfl, by decide, rfl⟩, by decide⟩ nofun

theorem bloodroot_shows : Shows .basic ['u'] (arrived bloodroot) bloodroot :=
  (shows_iff (by decide) (arrived_brings bloodroot) .basic nofun).1 bloodroot_kept

/-- A name in italics. -/
def italic : Document :=
  catalog [.element "PLANT".toList
    [.element "COMMON".toList [.element "i".toList [.text "Bloodroot".toList]]]]

theorem italic_not_shows : ¬ Shows .basic ['u'] (arrived italic) italic := by
  have hno : ∀ plant ∈ plants italic, ∀ k ∈ textColumns, ∀ p ∈ firstChild plant k,
      p.2.isRemark = false := by decide
  have himage : ∀ plant ∈ plants italic, firstChild plant "IMAGE" = none := by
    intro plant h
    cases List.mem_singleton.mp h
    rfl
  have hdirect : DirectCatalogue .basic italic := by
    intro plant h
    refine ⟨fun k hk p hp => .inl (hno plant h k hk p hp), ?_⟩
    rw [Unquoted, himage plant h]
    exact nofun
  rw [shows_iff_of_direct (by decide) (arrived_brings italic) .basic nofun hdirect]
  intro hkept
  -- the cell says null
  have hcell := (hkept.plants _ List.mem_cons_self).texts "COMMON" List.mem_cons_self _ rfl
  exact absurd hcell.1 (by decide)

end WebTech.Homework2
