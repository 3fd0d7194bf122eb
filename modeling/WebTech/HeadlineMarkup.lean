/-
# `WebTech.HeadlineMarkup` — headlines as data, not markup

Links and titles come from a feed and go into HTML as they are.  The page of
search_stock.html writes a link without quotes, search_stock.php in double
quotes; both write the title between tags.

    link without quotes    a space ends it, `>` ends its tag, a quote in front takes in what follows
    link in quotes         a quote ends it
    title                  `<` and a letter, `/`, `!` or `?` open markup
    everywhere             references are decoded, character 0 and carriage returns are lost

A list is read back as its items exactly when every link and every title is
free of these (`tokenize_newslist`, `tokenize_phpList`).
-/
import WebTech.NewsLoop
import WebTech.FieldFidelity
import WebTech.SearchPage
import WebTech.Lib.HtmlValue

namespace WebTech.HeadlineMarkup

open Html Rfc8259 Ecma

structure Item where
  Link : Text
  Title : Text
  deriving DecidableEq, Repr

/-! ## What the lists should be read as -/

/-- An item of the page's list. -/
def itemTokens (i : Item) : List Token :=
  .startTag "li".toList [] false ::
    .startTag "a".toList [("target".toList, "_blank".toList), ("href".toList, i.Link)] false ::
    i.Title.map .char ++ [.endTag "a".toList, .endTag "li".toList]

/-- The page's list. -/
def listTokens (items : List Item) : List Token :=
  .startTag "ul".toList [] false :: items.flatMap itemTokens ++ [.endTag "ul".toList]

/-- The white space in front of an item of search_stock.php. -/
def phpSpace : Text := "\n\t\t\t\t\t\t\t\t\t\t\t\t".toList

/-- An item of the list of search_stock.php, with the white space in front of it. -/
def phpItemTokens (i : Item) : List Token :=
  phpSpace.map .char ++ .startTag "li".toList [] false ::
    .startTag "a".toList [("href".toList, i.Link), ("target".toList, "_blank".toList)] false ::
    i.Title.map .char ++ [.endTag "a".toList, .endTag "li".toList]

/-- The list of search_stock.php. -/
def phpListTokens (items : List Item) : List Token :=
  .startTag "ul".toList [("style".toList, "margin-left:320px;".toList)] false ::
    items.flatMap phpItemTokens ++ ("\n\t\t\t\t\t".toList.map .char ++ [.endTag "ul".toList])

/-! ## Strings that are read as themselves -/

section Inert
variable (E : Entities)

/-- A link that is itself without quotes. -/
def BareLink (link : Text) : Prop := IsBare E link ∧ '\r' ∉ link

/-- A link that is itself in double quotes. -/
def QuotedLink (link : Text) : Prop := IsQuoted E '"' link ∧ '\r' ∉ link

/-- A title that is itself between tags. -/
def PlainTitle (title : Text) : Prop := IsPlain E title ∧ '\r' ∉ title

/-! ## One item -/

/-- The end of an item. -/
def itemClose : Text := "</a></li>".toList

/-- **A title and the end of its item.** -/
theorem titleItem_iff (title : Text) (r : Text) (ys : List Token) :
    run E (.data []) (normalize title ++ (itemClose ++ r)) =
        title.map .char ++ (.endTag "a".toList :: .endTag "li".toList :: ys) ↔
      PlainTitle E title ∧ run E (.data []) r = ys := by
  have hend : itemClose ++ r = '<' :: '/' :: 'a' :: ("></li>".toList ++ r) := rfl
  have hclose : run E .tagOpen ('/' :: 'a' :: ("></li>".toList ++ r)) =
      .endTag "a".toList :: .endTag "li".toList :: run E (.data []) r := rfl
  have hno : NoChar (.endTag "a".toList :: .endTag "li".toList :: ys) := fun _ _ h => nomatch h
  rw [hend, text_iff E rfl hno, hclose, List.cons_inj_right, List.cons_inj_right, PlainTitle]

/-! ## The page's list -/

/-- The anchor before its link. -/
def anchor : Tag := ⟨false, "a".toList, [("target".toList, "_blank".toList)]⟩

/-- The start of an item, up to its link. -/
def itemOpen : Text := "<li><a target=\"_blank\" href = ".toList

/-- **An item of the page's list.** -/
theorem item_iff (i : Item) (r : Text) (ys : List Token) :
    run E (.data []) (itemOpen ++ (normalize i.Link ++ '>' :: (normalize i.Title ++ (itemClose ++ r))))
        = itemTokens i ++ ys ↔
      (BareLink E i.Link ∧ PlainTitle E i.Title) ∧ run E (.data []) r = ys := by
  have hopen : ∀ x, run E (.data []) (itemOpen ++ x) =
      .startTag "li".toList [] false :: run E (.beforeAttrValue anchor "href".toList) x := fun _ => rfl
  have hfresh : anchor.Fresh "href".toList := rfl
  have hitem : itemTokens i ++ ys = .startTag "li".toList [] false ::
      .startTag "a".toList [("target".toList, "_blank".toList), ("href".toList, i.Link)] false ::
      (i.Title.map .char ++ (.endTag "a".toList :: .endTag "li".toList :: ys)) := by
    rw [itemTokens, List.cons_append, List.cons_append, List.append_assoc]
    rfl
  rw [hopen, hitem, List.cons_inj_right]
  by_cases hbare : IsBare E (normalize i.Link)
  · have htag : ∀ x, run E (.beforeAttrValue anchor "href".toList) (normalize i.Link ++ '>' :: x) =
        .startTag "a".toList [("target".toList, "_blank".toList), ("href".toList, normalize i.Link)]
          false :: run E (.data []) x := fun x => run_bare E hfresh hbare x
    rw [htag]
    constructor
    · intro h
      obtain ⟨htoken, htail⟩ := List.cons.inj h
      injection htoken with _ hattrs
      have hlink : normalize i.Link = i.Link :=
        (Prod.mk.inj (List.cons.inj (List.cons.inj hattrs).2).1).2
      obtain ⟨htitle, hrest⟩ := (titleItem_iff E i.Title r ys).mp htail
      rw [hlink] at hbare
      exact ⟨⟨⟨hbare, normalize_eq_self_iff.mp hlink⟩, htitle⟩, hrest⟩
    · rintro ⟨⟨⟨-, hcr⟩, htitle⟩, hrest⟩
      rw [normalize_eq_self hcr, (titleItem_iff E i.Title r ys).mpr ⟨htitle, hrest⟩]
  · constructor
    · intro h
      rcases lost_bare E hfresh rfl hbare (normalize i.Title ++ (itemClose ++ r)) with
        hnil | ⟨name, attrs, sc, rest, v, hrun, hp, hv⟩
      · exact nomatch hnil.symm.trans h
      · rw [hrun] at h
        obtain ⟨htoken, -⟩ := List.cons.inj h
        injection htoken with _ hattrs
        rw [hattrs] at hp
        have hpair := List.IsPrefix.eq_of_length hp rfl
        have hlink : v = i.Link := (Prod.mk.inj (List.cons.inj (List.cons.inj hpair).2).1).2
        exact absurd hlink (hv i.Link rfl)
    · rintro ⟨⟨⟨hb, hcr⟩, -⟩, -⟩
      rw [normalize_eq_self hcr] at hbare
      exact absurd hb hbare

/-- The text the page writes for an item. -/
def itemText (i : Item) : Text := itemOpen ++ i.Link ++ '>' :: i.Title ++ itemClose

/-- An item's text with its line ends normalised. -/
theorem normalize_item (i : Item) (r : Text) :
    normalize (itemText i ++ r) = itemOpen ++ (normalize i.Link ++ '>' :: (normalize i.Title ++
      (itemClose ++ normalize r))) := by
  have hopen : '\r' ∉ itemOpen := by decide
  have hclose : '\r' ∉ itemClose := by decide
  have hgt : ('>' :: (i.Title ++ (itemClose ++ r))).head? ≠ some '\n' :=
    fun h => nomatch Option.some.inj h
  have hlt : (itemClose ++ r).head? ≠ some '\n' := fun h => nomatch Option.some.inj h
  rw [itemText, List.append_assoc, List.append_assoc, List.append_assoc, List.cons_append,
    normalize_append (.inl hopen), normalize_append (.inr hgt), normalize_cons (by decide),
    normalize_append (.inr hlt), normalize_append (.inl hclose), normalize_eq_self hopen,
    normalize_eq_self hclose]

/-- **The items of the page's list**, by induction on them. -/
theorem items_iff (items : List Item) :
    run E (.data []) (normalize (items.flatMap itemText ++ "</ul>".toList)) =
        items.flatMap itemTokens ++ [.endTag "ul".toList] ↔
      ∀ i ∈ items, BareLink E i.Link ∧ PlainTitle E i.Title := by
  induction items with
  | nil => exact iff_of_true rfl nofun
  | cons i items ih =>
      rw [List.flatMap_cons, List.flatMap_cons, List.append_assoc, List.append_assoc, normalize_item,
        item_iff, ih, List.forall_mem_cons]

/-- An item of the response. -/
def Item.json (i : Item) : Json := .obj [("Link".toList, .str i.Link), ("Title".toList, .str i.Title)]

/-- What `changeRequest` assembles for the items of a response. -/
theorem newsList_items [Floating] {printval news : Value} (items : List Item)
    (hnews : getPath printval ["result", "News"] = some news)
    (hitem : getProp news "Item" = some (some (.arr (items.map Item.json)))) :
    Page.newsList printval news = some ("<ul>".toList ++ items.flatMap itemText ++ "</ul>".toList) := by
  refine Page.newsList_arr (fun i => ?_) items hnews hitem
  have hconcat : concat [.lit "<li><a target=\"_blank\" href = ", .val (some (.str i.Link)), .lit ">",
      .val (some (.str i.Title)), .lit "</a></li>"] =
      some (itemOpen ++ (i.Link ++ ('>' :: (i.Title ++ (itemClose ++ []))))) := rfl
  rw [List.append_nil] at hconcat
  rw [itemText, List.append_assoc, List.append_assoc, List.cons_append]
  exact hconcat

/-- **The page's list is read as its items** exactly when every link is itself
without quotes and every title is plain. -/
theorem tokenize_newslist (items : List Item) :
    tokenize E ("<ul>".toList ++ items.flatMap itemText ++ "</ul>".toList) = listTokens items ↔
      ∀ i ∈ items, BareLink E i.Link ∧ PlainTitle E i.Title := by
  have hnorm : normalize ("<ul>".toList ++ items.flatMap itemText ++ "</ul>".toList) =
      '<' :: 'u' :: 'l' :: '>' :: normalize (items.flatMap itemText ++ "</ul>".toList) := by
    generalize "</ul>".toList = r
    show normalize ('<' :: 'u' :: 'l' :: '>' :: (items.flatMap itemText ++ r)) = _
    rw [normalize_cons (by decide), normalize_cons (by decide), normalize_cons (by decide),
      normalize_cons (by decide)]
  have hopen : ∀ x, run E (.data []) ('<' :: 'u' :: 'l' :: '>' :: x) =
      .startTag "ul".toList [] false :: run E (.data []) x := fun _ => rfl
  rw [tokenize, hnorm, hopen, listTokens, List.cons_append, List.cons_inj_right, items_iff]

/-! ## The list of search_stock.php -/

/-- White space and the start of an item, up to its link. -/
def phpOpen : Text := "\n\t\t\t\t\t\t\t\t\t\t\t\t<li><a href = \"".toList

/-- What is between a link and its title, the quote left out. -/
def phpTarget : Text := " target = \"_blank\" >".toList

/-- The anchor before its link. -/
def phpAnchor : Tag := ⟨false, "a".toList, []⟩

/-- **An item of the list of search_stock.php.** -/
theorem phpItem_iff (i : Item) (r : Text) (ys : List Token) :
    run E (.data []) (phpOpen ++ (normalize i.Link ++ '"' :: (phpTarget ++ (normalize i.Title ++
        (itemClose ++ r))))) = phpItemTokens i ++ ys ↔
      (QuotedLink E i.Link ∧ PlainTitle E i.Title) ∧ run E (.data []) r = ys := by
  have hopen : ∀ x, run E (.data []) (phpOpen ++ x) =
      phpSpace.map .char ++ .startTag "li".toList [] false ::
        run E (.attrValueDouble phpAnchor "href".toList []) x := fun _ => rfl
  have hfresh : phpAnchor.Fresh "href".toList := rfl
  have hitem : phpItemTokens i ++ ys =
      phpSpace.map .char ++ .startTag "li".toList [] false ::
      .startTag "a".toList [("href".toList, i.Link), ("target".toList, "_blank".toList)] false ::
      (i.Title.map .char ++ (.endTag "a".toList :: .endTag "li".toList :: ys)) := by
    rw [phpItemTokens, List.append_assoc, List.cons_append, List.cons_append, List.append_assoc]
    rfl
  rw [hopen, hitem, List.append_right_inj, List.cons_inj_right]
  by_cases hquoted : IsQuoted E '"' (normalize i.Link)
  · have htag : ∀ x, run E (.attrValueDouble phpAnchor "href".toList [])
        (normalize i.Link ++ '"' :: (phpTarget ++ x)) =
        .startTag "a".toList [("href".toList, normalize i.Link), ("target".toList, "_blank".toList)]
          false :: run E (.data []) x := fun x => run_quoted E hfresh hquoted (phpTarget ++ x)
    rw [htag]
    constructor
    · intro h
      obtain ⟨htoken, htail⟩ := List.cons.inj h
      injection htoken with _ hattrs
      have hlink : normalize i.Link = i.Link := (Prod.mk.inj (List.cons.inj hattrs).1).2
      obtain ⟨htitle, hrest⟩ := (titleItem_iff E i.Title r ys).mp htail
      rw [hlink] at hquoted
      exact ⟨⟨⟨hquoted, normalize_eq_self_iff.mp hlink⟩, htitle⟩, hrest⟩
    · rintro ⟨⟨⟨-, hcr⟩, htitle⟩, hrest⟩
      rw [normalize_eq_self hcr, (titleItem_iff E i.Title r ys).mpr ⟨htitle, hrest⟩]
  · constructor
    · intro h
      rcases lost_quoted E hfresh rfl hquoted (phpTarget ++ (normalize i.Title ++ (itemClose ++ r)))
        with hnil | ⟨name, attrs, sc, rest, v, hrun, hp, hv⟩
      · exact nomatch hnil.symm.trans h
      · rw [hrun] at h
        obtain ⟨htoken, -⟩ := List.cons.inj h
        injection htoken with _ hattrs
        rw [hattrs] at hp
        have hlink : v = i.Link := (Prod.mk.inj (List.cons_prefix_cons.mp hp).1).2
        exact absurd hlink (hv i.Link rfl)
    · rintro ⟨⟨⟨hb, hcr⟩, -⟩, -⟩
      rw [normalize_eq_self hcr] at hquoted
      exact absurd hb hquoted

/-- The text search_stock.php sends for an item, with the white space in front. -/
def phpItemText (i : Item) : Text := phpOpen ++ i.Link ++ '"' :: phpTarget ++ i.Title ++ itemClose

/-- The white space after the last item, and the end of the list; the blank text
after the last `?>` is left out here as in `SearchPage.page`. -/
def phpListClose : Text := "\n\t\t\t\t\t</ul>".toList

theorem normalize_phpItem (i : Item) (r : Text) :
    normalize (phpItemText i ++ r) = phpOpen ++ (normalize i.Link ++ '"' :: (phpTarget ++
      (normalize i.Title ++ (itemClose ++ normalize r)))) := by
  have hopen : '\r' ∉ phpOpen := by decide
  have htarget : '\r' ∉ phpTarget := by decide
  have hclose : '\r' ∉ itemClose := by decide
  have hquote : ('"' :: (phpTarget ++ (i.Title ++ (itemClose ++ r)))).head? ≠ some '\n' :=
    fun h => nomatch Option.some.inj h
  have hlt : (itemClose ++ r).head? ≠ some '\n' := fun h => nomatch Option.some.inj h
  rw [phpItemText, List.append_assoc, List.append_assoc, List.append_assoc, List.append_assoc,
    List.cons_append, normalize_append (.inl hopen), normalize_append (.inr hquote),
    normalize_cons (by decide), normalize_append (.inl htarget), normalize_append (.inr hlt),
    normalize_append (.inl hclose), normalize_eq_self hopen, normalize_eq_self htarget,
    normalize_eq_self hclose]

/-- **The items of the list of search_stock.php**, by induction on them. -/
theorem phpItems_iff (items : List Item) :
    run E (.data []) (normalize (items.flatMap phpItemText ++ phpListClose)) =
        items.flatMap phpItemTokens ++ ("\n\t\t\t\t\t".toList.map .char ++ [.endTag "ul".toList]) ↔
      ∀ i ∈ items, QuotedLink E i.Link ∧ PlainTitle E i.Title := by
  induction items with
  | nil => exact iff_of_true rfl nofun
  | cons i items ih =>
      rw [List.flatMap_cons, List.flatMap_cons, List.append_assoc, List.append_assoc, normalize_phpItem,
        phpItem_iff, ih, List.forall_mem_cons]

/-- The start of the list. -/
def phpListOpen : Text := "<ul style =\"margin-left:320px;\">".toList

/-- The text of the list of search_stock.php. -/
def phpListText (items : List Item) : Text :=
  phpListOpen ++ (items.flatMap phpItemText ++ phpListClose)

/-- **The list of search_stock.php is read as its items** exactly when every link
is itself in quotes and every title is plain. -/
theorem tokenize_phpList (items : List Item) :
    tokenize E (phpListText items) = phpListTokens items ↔
      ∀ i ∈ items, QuotedLink E i.Link ∧ PlainTitle E i.Title := by
  have hopen : ∀ x, run E (.data []) (phpListOpen ++ x) =
      .startTag "ul".toList [("style".toList, "margin-left:320px;".toList)] false ::
        run E (.data []) x := fun _ => rfl
  have hcr : '\r' ∉ phpListOpen := by decide
  rw [tokenize, phpListText, normalize_append (.inl hcr), normalize_eq_self hcr, hopen, phpListTokens,
    List.cons_append, List.cons_inj_right, phpItems_iff]

/-! ## What the script sends -/

section Script
open WebTech.Producer WebTech.SearchPage Utf8

/-- The items of a feed. -/
def feedItems (channel : List ChannelChild) : List Item :=
  (items channel).map fun i => ⟨childText i "link", childText i "title"⟩

/-- One turn of the loop, the white space of the last one in front. -/
theorem html_newsItem (i : List Child) :
    lit "\n\t\t\t\t\t" ++ html (newsItem i) =
      encode (phpItemText ⟨childText i "link", childText i "title"⟩) ++ lit "\n\t\t\t\t\t" := by
  have hopen : encode phpOpen = lit "\n\t\t\t\t\t" ++ (lit "\t\t\t\t\t\t\t" ++ (lit "<li>" ++
    lit "<a href = \"")) := by decide
  have htarget : encode ('"' :: phpTarget) = lit "\" target = \"_blank\" >" := by decide
  have hclose : encode itemClose = lit "</a>" ++ lit "</li>" := by decide
  have hhtml : html (newsItem i) = lit "\t\t\t\t\t\t\t" ++ (lit "<li>" ++ ((lit "<a href = \"" ++
      read i "link" ++ lit "\" target = \"_blank\" >") ++ (read i "title" ++ (lit "</a>" ++
      (lit "</li>" ++ (lit "\n\t\t\t\t\t" ++ [])))))) := rfl
  rw [hhtml, phpItemText, read_eq, read_eq, encode_append, encode_append, encode_append, encode_append,
    hopen, htarget, hclose]
  simp only [List.append_assoc, List.append_nil]

theorem html_append (ps qs : List Piece) : html (ps ++ qs) = html ps ++ html qs :=
  List.flatMap_append

/-- All turns of the loop, by induction on the items. -/
theorem html_newsItems (is : List (List Child)) :
    lit "\n\t\t\t\t\t" ++ html (is.flatMap newsItem) =
      encode ((is.map fun i => Item.mk (childText i "link") (childText i "title")).flatMap phpItemText)
        ++ lit "\n\t\t\t\t\t" := by
  induction is with
  | nil =>
      show lit "\n\t\t\t\t\t" ++ [] = lit "\n\t\t\t\t\t"
      exact List.append_nil _
  | cons i is ih =>
      rw [List.flatMap_cons, html_append, ← List.append_assoc, html_newsItem, List.append_assoc, ih,
        List.map_cons, List.flatMap_cons, encode_append, List.append_assoc]

/-- **The bytes of the list** are those of its text. -/
theorem html_newsList (channel : List ChannelChild) :
    html (newsList channel ++ [.stop .ul]) = encode (phpListText (feedItems channel)) := by
  have hopen : encode phpListOpen = lit "<ul style =\"margin-left:320px;\">" := rfl
  have hclose : encode phpListClose = lit "\n\t\t\t\t\t" ++ lit "</ul>" := by decide
  have hfront : html [.start .ul " style =\"margin-left:320px;\"", .text "\n\t\t\t\t\t"] =
      lit "<ul style =\"margin-left:320px;\">" ++ lit "\n\t\t\t\t\t" := by decide
  have hback : html [.stop .ul] = lit "</ul>" := by decide
  rw [newsList, html_append, html_append, hfront, hback, List.append_assoc, List.append_assoc,
    ← List.append_assoc (lit "\n\t\t\t\t\t"), html_newsItems, phpListText, encode_append,
    encode_append, hopen, hclose, List.append_assoc]
  rfl

/-- **Both lists**: which links and titles come back as what they are. -/
theorem lists_iff [Floating] {printval news : Value} (items : List Item) (channel : List ChannelChild)
    (hnews : getPath printval ["result", "News"] = some news)
    (hitem : getProp news "Item" = some (some (.arr (items.map Item.json)))) :
    ((∃ s, Page.newsList printval news = some s ∧ tokenize E s = listTokens items) ↔
      ∀ i ∈ items, BareLink E i.Link ∧ PlainTitle E i.Title) ∧
    ((∃ s, Utf8.decode (html (newsList channel ++ [.stop .ul])) = some s ∧
        tokenize E s = phpListTokens (feedItems channel)) ↔
      ∀ i ∈ feedItems channel, QuotedLink E i.Link ∧ PlainTitle E i.Title) := by
  constructor
  · rw [newsList_items items hnews hitem, ← tokenize_newslist]
    constructor
    · rintro ⟨_, ⟨⟩, h⟩
      exact h
    · intro h
      exact ⟨_, rfl, h⟩
  · rw [html_newsList, decode_encode, ← tokenize_phpList]
    constructor
    · rintro ⟨_, ⟨⟩, h⟩
      exact h
    · intro h
      exact ⟨_, rfl, h⟩

end Script

end Inert

/-! ## A headline of each kind -/

section Examples
open WebTech.Producer WebTech.SearchPage Utf8

attribute [local instance] Floating.unbounded

/-- A response with these items. -/
def response (items : List Item) : Json :=
  .obj [("result".toList, .obj [("News".toList, .obj [("Item".toList,
    .arr (items.map Item.json))])])]

/-- What `changeRequest` reads as `news`. -/
def responseNews (items : List Item) : Json := .obj [("Item".toList, .arr (items.map Item.json))]

def plainItem : Item := ⟨"http://finance.example/a".toList, "Shares up".toList⟩

def plainChannel : List ChannelChild :=
  [⟨"item".toList, [⟨"link".toList, plainItem.Link⟩, ⟨"title".toList, plainItem.Title⟩]⟩]

theorem plainItem_lists :
    ((∃ s, Page.newsList (some (response [plainItem])) (some (responseNews [plainItem])) = some s ∧
        tokenize .basic s = listTokens [plainItem]) ↔
      ∀ i ∈ [plainItem], BareLink .basic i.Link ∧ PlainTitle .basic i.Title) ∧
    ((∃ s, Utf8.decode (html (newsList plainChannel ++ [.stop .ul])) = some s ∧
        tokenize .basic s = phpListTokens (feedItems plainChannel)) ↔
      ∀ i ∈ feedItems plainChannel, QuotedLink .basic i.Link ∧ PlainTitle .basic i.Title) :=
  lists_iff .basic [plainItem] plainChannel rfl rfl

/-- A title with a tag in it. -/
def boldItem : Item := ⟨"http://finance.example/a".toList, "Shares <b>up</b>".toList⟩

def boldChannel : List ChannelChild :=
  [⟨"item".toList, [⟨"link".toList, boldItem.Link⟩, ⟨"title".toList, boldItem.Title⟩]⟩]

theorem boldItem_not_lists :
    (¬ ∃ s, Page.newsList (some (response [boldItem])) (some (responseNews [boldItem])) = some s ∧
      tokenize .basic s = listTokens [boldItem]) ∧
    ¬ ∃ s, Utf8.decode (html (newsList boldChannel ++ [.stop .ul])) = some s ∧
      tokenize .basic s = phpListTokens (feedItems boldChannel) := by
  have hmarkup : ¬ PlainTitle .basic boldItem.Title := by
    rintro ⟨⟨-, -, h⟩, -⟩
    exact absurd h (by decide)
  constructor
  · rintro ⟨s, hs, h⟩
    cases (newsList_items [boldItem] rfl rfl).symm.trans hs
    exact hmarkup (((tokenize_newslist .basic [boldItem]).mp h) boldItem List.mem_cons_self).2
  · rintro ⟨s, hs, h⟩
    rw [html_newsList, decode_encode] at hs
    cases hs
    exact hmarkup (((tokenize_phpList .basic _).mp h) boldItem List.mem_cons_self).2

end Examples

end WebTech.HeadlineMarkup
