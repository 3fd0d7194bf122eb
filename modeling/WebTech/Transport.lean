/-
# `WebTech.Transport` — the symbol on its way to Yahoo

What is entered in the search box goes into a URL three times, and only the
first time, and only on one of the two ways, is anything escaped:

    checkinput             …search_stock?company= + param
    the select handler     …search_stock?company= + encodeURI(input)
    search_stock.java      …search_stock.php?company= + getParameter("company")
    search_stock1.php      …q=…symbol%3D%22 + $_GET["company"] + %22&env=…
                           …headline?s= + $_GET["company"] + &region=US&lang=en-US

The browser escapes what a query does not keep and takes blanks off the end, and
`setRequestHeader` refuses a URL with a character beyond U+00FF.  The two servers
ask through connections that escape nothing: what they make of a blank or of a
character that no URL has is theirs.

Both ways carry the texts in which nothing is special in any of these places: no
`&`, `#`, `+` or `"`, no `%` before two hexadecimal digits, and only characters
that the connections send (`carried_iff`).
-/
import WebTech.Basic
import WebTech.Lib.Delivery

namespace WebTech.Transport

open Url

/-! ## The page -/

def servlet : Text := "http://cs-server.usc.edu:26604/examples/servlet/search_stock?company=".toList

/-- `verify`: nothing but white space. -/
def verify (nod : Text) : Bool := nod.all fun c => c = '\t' || c = '\n' || c = '\r' || c = ' '

/-- `checkinput`: the URL that `getXMLHttpRequest` is called with, if any. -/
def checkinput (param : Text) : Option Text :=
  if param = [] then none
  else if verify param then none
  else some (servlet ++ param)

/-- The select handler. -/
def select (input : Text) : Text := servlet ++ encodeURI input

/-- What a request header may consist of. -/
def isHeaderChar (c : Char) : Bool := c.toNat < 256 && c ≠ '\x00' && c ≠ '\n' && c ≠ '\r'

theorem isHeaderChar_of_lt {c : Char} (h : 0x20 < c.toNat) (h' : c.toNat < 256) :
    isHeaderChar c = true := by
  have hcontrol : ∀ d ∈ ['\x00', '\n', '\r'], c ≠ d := by
    have hall : ∀ d ∈ ['\x00', '\n', '\r'], d.toNat ≤ 0x20 := by decide
    rintro d hd rfl
    exact absurd (hall c hd) (Nat.not_le_of_lt h)
  simp only [List.forall_mem_cons] at hcontrol
  obtain ⟨hnull, hlf, hcr, -⟩ := hcontrol
  simp [isHeaderChar, h', hnull, hlf, hcr]

/-- `getXMLHttpRequest` comes to `send`: the URL is in a header, and
`setRequestHeader` throws at a character that no header may have. -/
def isRequested (url : Text) : Bool := url.all isHeaderChar

/-! ## The servers -/

/-- Who reads the three query strings, and what `URL.openStream` and
`simplexml_load_file` ask through. -/
structure Way where
  servlet : Decoder
  php : Charset
  yahoo : Charset
  java : Connection
  simplexml : Connection

def searchPhp : Text :=
  "http://default-environment-vjzajmkp38.elasticbeanstalk.com/search_stock.php?company=".toList

/-- `search_stock.java`: the URL for the parameter `company`; a string is
concatenated with `null` as text. -/
def phpUrl (compny : Option Text) : Text := searchPhp ++ compny.getD "null".toList

def yqlFront : Text := "http://query.yahooapis.com/v1/public/yql?q=".toList

/-- The YQL query up to the symbol, escaped: one literal of the source, in pieces. -/
def escapedSelect : Text :=
  "Select%20Name%2C%20Symbol%2C%20".toList ++ "LastTradePriceOnly%2C%20".toList ++
  "Change%2C%20ChangeinPercent%2C%20".toList ++ "PreviousClose%2C%20DaysLow%2C%20".toList ++
  "DaysHigh%2C%20Open%2C%20YearLow%2C%20".toList ++ "YearHigh%2C%20Bid%2C%20Ask%2C%20".toList ++
  "AverageDailyVolume%2C%20".toList ++ "OneyrTargetPrice%2C%20".toList ++
  "MarketCapitalization%2C%20".toList ++ "Volume%2C%20Open%2C%20YearLow%20".toList ++
  "from%20yahoo.finance.quotes%20".toList ++ "where%20symbol%3D%22".toList

/-- What follows the symbol in the YQL query. -/
def yqlTail : Text :=
  "%22&env=store%3A%2F%2F".toList ++ "datatables.org%2F".toList ++ "alltableswithkeys".toList

/-- `$val1`. -/
def val1 (text : Text) : Text := yqlFront ++ escapedSelect ++ text ++ yqlTail

def feedFront : Text := "http://feeds.finance.yahoo.com/rss/2.0/headline?s=".toList

/-- What follows the symbol in the feed's URL. -/
def feedTail : Text := "&region=US&lang=en-US".toList

/-- `$val2`. -/
def val2 (text : Text) : Text := feedFront ++ text ++ feedTail

section Way
variable (W : Way)

/-- `compny`: of two parameters of one name the servlet is given the first. -/
def Way.compny (url : Text) : Option Text :=
  first "company" (params W.servlet.toCharset (opened url))

/-- `$text`: PHP keeps the last. -/
def Way.text (url : Text) : Text :=
  (last "company" (params W.php (W.java.delivers (phpUrl (W.compny url))))).getD []

end Way

/-! ## What should arrive -/

/-- The YQL query up to the symbol. -/
def selectText : Text :=
  "Select Name, Symbol, ".toList ++ "LastTradePriceOnly, ".toList ++
  "Change, ChangeinPercent, ".toList ++ "PreviousClose, DaysLow, ".toList ++
  "DaysHigh, Open, YearLow, ".toList ++ "YearHigh, Bid, Ask, ".toList ++
  "AverageDailyVolume, ".toList ++ "OneyrTargetPrice, ".toList ++
  "MarketCapitalization, ".toList ++ "Volume, Open, YearLow ".toList ++
  "from yahoo.finance.quotes ".toList ++ "where symbol=\"".toList

/-- The YQL query for a symbol. -/
def yql (s : Text) : Text := selectText ++ (s ++ ['"'])

/-- The tables the query may use. -/
def tables : Text := "store://".toList ++ "datatables.org/".toList ++ "alltableswithkeys".toList

/-- **The symbol arrives**: each URL is sent as it is written, the string in the
YQL query and the parameter of the feed are `s`, and nothing else of either URL
comes from it. -/
structure Carried (W : Way) (url s : Text) : Prop where
  requested : isRequested url = true
  java : sends W.java.carries (phpUrl (W.compny url)) = true
  simplexml : sends W.simplexml.carries (val1 (W.text url)) = true ∧
    sends W.simplexml.carries (val2 (W.text url)) = true
  yql : params W.yahoo (val1 (W.text url)) = [("q".toList, yql s), ("env".toList, tables)]
  literal : '"' ∉ s
  feed : params W.yahoo (val2 (W.text url)) =
    [("s".toList, s), ("region".toList, "US".toList), ("lang".toList, "en-US".toList)]

/-- **A text that means nothing** on the way. -/
structure Clean (s : Text) : Prop where
  noAmp : '&' ∉ s
  noHash : '#' ∉ s
  noPlus : '+' ∉ s
  noQuote : '"' ∉ s
  noEscape : hasEscape s = false

/-- And that the servers can send. -/
structure Plain (W : Way) (s : Text) : Prop extends Clean s where
  java : s.all W.java.carries = true
  simplexml : s.all W.simplexml.carries = true

/-! ## The slots -/

def servletBase : Text := "http://cs-server.usc.edu:26604/examples/servlet/search_stock".toList

def phpBase : Text :=
  "http://default-environment-vjzajmkp38.elasticbeanstalk.com/search_stock.php".toList

def company : Text := "company".toList

theorem slot_servlet : Slot servletBase company := by decide

theorem slot_php : Slot phpBase company := by decide

theorem servlet_eq (v : Text) : servlet ++ v = urlWith servletBase company v :=
  append_urlWith (by decide) v

theorem phpUrl_eq (v : Text) : phpUrl (some v) = urlWith phpBase company v := by
  have hfront : searchPhp = phpBase ++ '?' :: (company ++ ['=']) := by decide
  exact append_urlWith hfront v

def yqlBase : Text := "http://query.yahooapis.com/v1/public/yql".toList

def yqlName : Text := ['q']

theorem slot_yql : Slot yqlBase yqlName := by decide

theorem val1_eq (v : Text) :
    val1 v = urlWith yqlBase yqlName (escapedSelect ++ (v ++ yqlTail)) := by
  have hfront : yqlFront = yqlBase ++ '?' :: (yqlName ++ ['=']) := by decide
  rw [val1, List.append_assoc, List.append_assoc]
  exact append_urlWith hfront _

def feedBase : Text := "http://feeds.finance.yahoo.com/rss/2.0/headline".toList

def feedName : Text := ['s']

theorem slot_feed : Slot feedBase feedName := by decide

theorem val2_eq (v : Text) : val2 v = urlWith feedBase feedName (v ++ feedTail) := by
  have hfront : feedFront = feedBase ++ '?' :: (feedName ++ ['=']) := by decide
  rw [val2, List.append_assoc]
  exact append_urlWith hfront _

/-! ## On the way -/

/-- A value without escapes is sent with each of the three URLs, or with none. -/
theorem sends_urls (C : Connection) {s : Text} (h : hasEscape s = false) :
    sends C.carries (phpUrl (some s)) = s.all C.carries ∧
      sends C.carries (val1 s) = s.all C.carries ∧ sends C.carries (val2 s) = s.all C.carries := by
  have hphp : sends isUrlChar searchPhp = true := by decide +kernel
  have hquery : sends isUrlChar (yqlFront ++ escapedSelect) = true := by decide +kernel
  have hfeed : sends isUrlChar feedFront = true := by decide +kernel
  have hquote : ∀ c ∈ yqlTail.head?, Rfc8259.hexVal c = none := by
    rintro c ⟨⟩
    rfl
  have hamp : ∀ c ∈ feedTail.head?, Rfc8259.hexVal c = none := by
    rintro c ⟨⟩
    rfl
  refine ⟨?_, ?_, ?_⟩
  · have hend := @sends_between C searchPhp [] hphp rfl nofun s h
    rwa [List.append_nil] at hend
  · rw [val1, List.append_assoc (yqlFront ++ escapedSelect)]
    exact sends_between C hquery (by decide +kernel) hquote h
  · rw [val2, List.append_assoc]
    exact sends_between C hfeed (by decide +kernel) hamp h

/-! ## On the way -/

/-- The symbol of the feed. -/
theorem feed_value (C : Charset) {s t : Text} (h : params C (val2 t) =
    [("s".toList, s), ("region".toList, "US".toList), ("lang".toList, "en-US".toList)]) :
    s = formDecode C (cut t) := by
  obtain ⟨rest, hparams, -⟩ := params_urlWith slot_feed C (t ++ feedTail)
  have hcut : cut (t ++ feedTail) = cut t := cut_append t "region=US&lang=en-US".toList
  rw [val2_eq, hparams, hcut] at h
  exact (Prod.mk.inj (List.cons.inj h).1).2.symm

section Way
variable (W : Way)

/-- What the servlet reads: the end of the URL as the browser has opened it. -/
theorem compny_eq (v : Text) : W.compny (servlet ++ v) =
    some (formDecode W.servlet.toCharset (cut (percentEncode isQueryChar (trimEnd v)))) := by
  have hservlet : ∀ c ∈ servlet, isQueryChar c = true := by decide +kernel
  rw [Way.compny, opened_append hservlet (by decide), servlet_eq]
  exact first_urlWith slot_servlet _ rfl _

variable {W} {url s v : Text} (hv : W.compny url = some v)
include hv

/-- **What arrives has come through**: where the servlet reads no more than `s`
has characters, every later reader has read all of it and changed nothing but
`+`. -/
theorem Carried.through (h : Carried W url s) (hlen : v.length ≤ s.length) :
    hasEscape v = false ∧ W.text url = v.map plus ∧ s = v.map plus := by
  have hfeed := feed_value W.yahoo h.feed
  have hjava := h.java
  rw [hv] at hjava
  have htext : W.text url =
      (last "company" (params W.php (urlWith phpBase company v))).getD [] := by
    rw [Way.text, hv, Connection.delivers_of_sends hjava, phpUrl_eq]
  obtain ⟨hle, hkept⟩ := last_urlWith slot_php W.php "company" v
  rw [← htext] at hle hkept
  generalize W.text url = t at hfeed hle hkept ⊢
  have hcut := length_cut_le t
  have hread : s.length ≤ (cut t).length := by
    rw [hfeed]
    exact length_formDecode_le W.yahoo (cut t)
  obtain ⟨-, -, ht⟩ := hkept (by omega)
  obtain ⟨hesc, hphp⟩ := formDecode_of_length W.php (s := v) (by rw [← ht]; omega)
  obtain ⟨hamp, hhash⟩ := not_mem_of_length_cut (v := t) (by omega)
  rw [cut_eq_self hamp hhash] at hfeed
  obtain ⟨-, hyahoo⟩ := formDecode_of_length W.yahoo (s := t) (by rw [← hfeed]; omega)
  refine ⟨hesc, ht.trans hphp, ?_⟩
  rw [hfeed, hyahoo, ht, hphp, map_plus_plus]

/-- **What has come through was plain**, when the servlet has read it with
nothing changed but `+`. -/
theorem Carried.plain (h : Carried W url s) (hs : v = s.map plus) (hamp : '&' ∉ s)
    (hhash : '#' ∉ s) : Plain W s := by
  obtain ⟨hesc, htext, hself⟩ := h.through hv (by rw [hs, List.length_map])
  rw [hs, map_plus_plus] at hself
  rw [hs, ← hself] at hv hesc htext
  rw [← hself] at htext
  have hjava := h.java
  have hsimplexml := h.simplexml.1
  rw [hv, (sends_urls W.java hesc).1] at hjava
  rw [htext, (sends_urls W.simplexml hesc).2.1] at hsimplexml
  exact ⟨⟨hamp, hhash, map_plus_eq_self_iff.mp hself.symm, h.literal, hesc⟩, hjava, hsimplexml⟩

end Way

/-! ## Clean texts -/

theorem Clean.read_eq {s : Text} (h : Clean s) (C : Charset) : formDecode C s = s := by
  rw [formDecode_plain C h.noEscape, map_plus_eq_self_iff.mpr h.noPlus]

theorem escapedSelect_eq : escapedSelect = encodeURIComponent selectText := by decide +kernel

/-- The parameter after the query. -/
def envPart : Text := "env".toList ++ '=' :: encodeURIComponent tables

theorem yqlTail_eq : yqlTail = encodeURIComponent ['"'] ++ '&' :: envPart := by decide +kernel

theorem param_env (C : Charset) : param C envPart = ("env".toList, tables) := by
  have hslot : Slot [] "env".toList := by decide
  rw [envPart, param_append hslot, formDecode_encodeURIComponent]

/-- No separator in an escaped text. -/
theorem component_free (t : Text) : '&' ∉ encodeURIComponent t ∧ '#' ∉ encodeURIComponent t :=
  ⟨not_mem_percentEncode rfl (.inl rfl) t, not_mem_percentEncode rfl (.inr rfl) t⟩

theorem envPart_free : '&' ∉ envPart ∧ '#' ∉ envPart := by
  obtain ⟨hamp, hhash⟩ := component_free tables
  rw [envPart, List.mem_append, List.mem_append, List.mem_cons, List.mem_cons, not_or, not_or,
    not_or, not_or]
  exact ⟨⟨by decide, by decide, hamp⟩, ⟨by decide, by decide, hhash⟩⟩

/-- The parameters of the YQL query for a clean symbol. -/
theorem params_val1 {s : Text} (h : Clean s) (C : Charset) :
    params C (val1 s) = [("q".toList, yql s), ("env".toList, tables)] := by
  obtain ⟨hselectAmp, hselectHash⟩ := component_free selectText
  obtain ⟨hquoteAmp, hquoteHash⟩ := component_free ['"']
  have hshape : escapedSelect ++ (s ++ yqlTail) =
      encodeURIComponent selectText ++ (s ++ encodeURIComponent ['"']) ++ '&' :: envPart := by
    rw [escapedSelect_eq, yqlTail_eq]
    simp only [List.append_assoc]
  have hamp : '&' ∉ encodeURIComponent selectText ++ (s ++ encodeURIComponent ['"']) := by
    rw [List.mem_append, List.mem_append, not_or, not_or]
    exact ⟨hselectAmp, h.noAmp, hquoteAmp⟩
  have hhash : '#' ∉ encodeURIComponent selectText ++ (s ++ encodeURIComponent ['"']) := by
    rw [List.mem_append, List.mem_append, not_or, not_or]
    exact ⟨hselectHash, h.noHash, hquoteHash⟩
  have hhead : ∀ c ∈ (encodeURIComponent ['"']).head?, c = '%' := by
    rintro c ⟨⟩
    rfl
  have hne : envPart ≠ [] := List.append_ne_nil_of_right_ne_nil _ (List.cons_ne_nil _ _)
  have hparts : (splitAmp envPart).filter (fun p => decide (p ≠ [])) = [envPart] := by
    rw [splitAmp_of_not_mem envPart_free.1]
    exact List.filter_cons_of_pos (decide_eq_true hne)
  rw [val1_eq, hshape, params_followed slot_yql C hamp hhash envPart_free.2, hparts,
    List.map_singleton, param_env, formDecode_between C h.noPlus h.noEscape selectText hhead]
  rfl

/-- The parameters of the feed for a clean symbol. -/
theorem params_val2 {s : Text} (h : Clean s) (C : Charset) : params C (val2 s) =
    [("s".toList, s), ("region".toList, "US".toList), ("lang".toList, "en-US".toList)] := by
  have htail : feedTail = '&' :: "region=US&lang=en-US".toList := by decide
  have hhash : '#' ∉ "region=US&lang=en-US".toList := by decide
  have hparts : (splitAmp "region=US&lang=en-US".toList).filter (fun p => decide (p ≠ [])) =
      ["region=US".toList, "lang=en-US".toList] := by decide
  have hregion : param C "region=US".toList = ("region".toList, "US".toList) := by
    have hslot : Slot [] "region".toList := by decide
    exact (param_append hslot C "US".toList).trans (congrArg _ (formDecode_plain C rfl))
  have hlang : param C "lang=en-US".toList = ("lang".toList, "en-US".toList) := by
    have hslot : Slot [] "lang".toList := by decide
    exact (param_append hslot C "en-US".toList).trans (congrArg _ (formDecode_plain C rfl))
  rw [val2_eq, htail, params_followed slot_feed C h.noAmp h.noHash hhash, hparts, List.map_cons,
    List.map_singleton, hregion, hlang, h.read_eq]
  rfl

section Way
variable {W : Way} {s : Text}

/-- No blanks and controls in what the servers can send. -/
theorem Plain.noBlank (h : Plain W s) : ∀ c ∈ s, 0x20 < c.toNat := by
  intro c hc
  by_contra hle
  have hblank : isBlank c = true := by
    rw [isBlank, decide_eq_true (Nat.le_of_not_lt hle)]
    rfl
  have hnot := W.java.carries_blank c hblank
  rw [List.all_eq_true.mp h.java c hc] at hnot
  exact Bool.noConfusion hnot

/-- The last server is handed a plain symbol as the servlet has read it. -/
theorem Plain.text_eq (h : Plain W s) {url : Text} (hv : W.compny url = some s) :
    W.text url = s := by
  have hone : [(company, s)].reverse.find? (fun p => p.1 = "company".toList) =
      some (company, s) := rfl
  have hjava := (sends_urls W.java h.noEscape).1.trans h.java
  rw [Way.text, hv, Connection.delivers_of_sends hjava, phpUrl_eq,
    params_single slot_php W.php h.noAmp h.noHash, h.read_eq, last, first, hone]
  rfl

/-- **A plain symbol arrives**, when it is requested and the servlet has read it. -/
theorem Plain.carried (h : Plain W s) {url : Text} (hurl : isRequested url = true)
    (hv : W.compny url = some s) : Carried W url s := by
  obtain ⟨hphp, hval₁, hval₂⟩ := sends_urls W.simplexml h.noEscape
  refine ⟨hurl, ?_, ?_, ?_, h.noQuote, ?_⟩
  · rw [hv]
    exact (sends_urls W.java h.noEscape).1.trans h.java
  · rw [h.text_eq hv]
    exact ⟨hval₁.trans h.simplexml, hval₂.trans h.simplexml⟩
  · rw [h.text_eq hv]
    exact params_val1 h.toClean W.yahoo
  · rw [h.text_eq hv]
    exact params_val2 h.toClean W.yahoo

/-! ## The two ways -/

/-- Of a plain symbol that is typed the servlet reads all. -/
theorem Plain.compny_typed (h : Plain W s) : W.compny (servlet ++ s) = some s := by
  have hend : ∀ c ∈ s, isC0OrSpace c = false :=
    fun c hc => decide_eq_false (Nat.not_le_of_lt (h.noBlank c hc))
  rw [compny_eq, trimEnd_eq_self hend, cut_percentEncode (by decide) (by decide),
    cut_eq_self h.noAmp h.noHash, formDecode_percentEncode isQueryChar_hex _ (by decide) h.noEscape,
    map_plus_eq_self_iff.mpr h.noPlus]

variable (W s) in
/-- What the servlet reads of a symbol that is selected. -/
theorem compny_select : W.compny (select s) = some ((cut s).map plus) := by
  have htrim : ∀ c, isC0OrSpace c = true →
      (isUnescaped c || isReserved c || c = '#') = false := by
    have hlow : ∀ n < 0x21, (isUnescaped (Char.ofNat n) || isReserved (Char.ofNat n) ||
        decide (Char.ofNat n = '#')) = false := by decide
    intro c hc
    rw [isC0OrSpace, decide_eq_true_eq] at hc
    rw [← Char.ofNat_toNat c]
    exact hlow _ (Nat.lt_succ_of_le hc)
  rw [select, compny_eq, encodeURI, trimEnd_percentEncode htrim,
    percentEncode_percentEncode (by decide) isQueryChar_hex,
    cut_percentEncode (by decide) (by decide), formDecode_escaped _ (by decide) (by decide)]

theorem Plain.compny_selected (h : Plain W s) : W.compny (select s) = some s := by
  rw [compny_select, cut_eq_self h.noAmp h.noHash, map_plus_eq_self_iff.mpr h.noPlus]

/-- **The typed symbol.** -/
theorem typed_iff : Carried W (servlet ++ s) s ↔ Plain W s ∧ ∀ c ∈ s, c.toNat < 256 := by
  constructor
  · intro h
    have hv := compny_eq W s
    obtain ⟨hlen, hall⟩ := formDecode_opened W.servlet s
    obtain ⟨-, -, hs⟩ := h.through hv hlen
    obtain ⟨hamp, hhash, -, hread⟩ := hall (by rw [congrArg List.length hs, List.length_map])
    refine ⟨h.plain hv hread hamp hhash, fun c hc => ?_⟩
    have hheader := List.all_eq_true.mp h.requested c (List.mem_append_right _ hc)
    simp only [isHeaderChar, Bool.and_eq_true, decide_eq_true_eq] at hheader
    exact hheader.1.1.1
  · rintro ⟨h, hlatin⟩
    refine h.carried (List.all_eq_true.mpr fun c hc => ?_) h.compny_typed
    rcases List.mem_append.mp hc with hc | hc
    · have hservlet : ∀ c ∈ servlet, isHeaderChar c = true := by decide +kernel
      exact hservlet c hc
    · exact isHeaderChar_of_lt (h.noBlank c hc) (hlatin c hc)

/-- `encodeURI` keeps characters that a header may have. -/
theorem isHeaderChar_of_kept {c : Char} (h : (isUnescaped c || isReserved c || c = '#') = true) :
    isHeaderChar c = true := by
  have hmarks : ∀ d ∈ "-_.!~*'();/?:@&=+$,#".toList, isHeaderChar d = true := by decide
  by_cases hc : c ∈ "-_.!~*'();/?:@&=+$,#".toList
  · exact hmarks c hc
  · have halnum : c.isAlphanum = true := by
      simp at hc
      simpa [isUnescaped, isMark, isReserved, hc] using h
    obtain ⟨hfrom, hto⟩ := toNat_of_isAlphanum halnum
    exact isHeaderChar_of_lt (by omega) (by omega)

theorem isRequested_select (s : Text) : isRequested (select s) = true := by
  have hescape : ∀ b, ∀ c ∈ escape b, isHeaderChar c = true := by
    intro b c hc
    have hquery := keep_escape (by decide) isQueryChar_hex b c hc
    simp only [isQueryChar, Bool.and_eq_true, decide_eq_true_eq] at hquery
    exact isHeaderChar_of_lt (by omega) (by omega)
  rw [isRequested, List.all_eq_true]
  intro c hc
  rcases List.mem_append.mp hc with hc | hc
  · have hservlet : ∀ c ∈ servlet, isHeaderChar c = true := by decide +kernel
    exact hservlet c hc
  · obtain ⟨d, -, hd⟩ := List.mem_flatMap.mp hc
    split at hd
    · next hkept =>
        obtain rfl := List.mem_singleton.mp hd
        exact isHeaderChar_of_kept hkept
    · obtain ⟨b, -, hb⟩ := List.mem_flatMap.mp hd
      exact hescape b c hb

/-- **The selected symbol.** -/
theorem selected_iff : Carried W (select s) s ↔ Plain W s := by
  constructor
  · intro h
    have hv := compny_select W s
    have hcut := length_cut_le s
    obtain ⟨-, -, hs⟩ := h.through hv (by rw [List.length_map]; exact hcut)
    have hlen := congrArg List.length hs
    rw [List.length_map, List.length_map] at hlen
    obtain ⟨hamp, hhash⟩ := not_mem_of_length_cut (v := s) (by omega)
    rw [cut_eq_self hamp hhash] at hv
    exact h.plain hv rfl hamp hhash
  · exact fun h => h.carried (isRequested_select s) h.compny_selected

end Way

/-- **What each way carries**, whatever the receivers make of bytes that are no
UTF-8 and the connections of what no URL has.  For an empty or blank text nothing
is requested. -/
theorem carried_iff (W : Way) (s : Text) :
    ((∀ url ∈ checkinput s, Carried W url s) ↔
      verify s = true ∨ (Plain W s ∧ ∀ c ∈ s, c.toNat < 256)) ∧
    (Carried W (select s) s ↔ Plain W s) := by
  refine ⟨?_, selected_iff⟩
  constructor
  · intro h
    by_cases hblank : verify s = true
    · exact .inl hblank
    · have hne : s ≠ [] := by
        rintro rfl
        exact hblank rfl
      refine .inr (typed_iff.mp (h _ ?_))
      rw [checkinput, if_neg hne, if_neg hblank]
      rfl
  · intro h url hurl
    rw [checkinput] at hurl
    split at hurl
    · exact nomatch hurl
    · split at hurl
      · exact nomatch hurl
      · next hblank =>
          obtain rfl : servlet ++ s = url := Option.some.inj hurl
          exact typed_iff.mpr (h.resolve_left hblank)

/-- UTF-8 on every server, and nothing but the characters of URLs. -/
def Way.utf8 : Way := ⟨.utf8, .utf8, .utf8, .strict, .strict⟩

/-- `AT&T` arrives on neither way: Yahoo is asked for `AT`. -/
theorem ampersand_not_carried :
    checkinput "AT&T".toList = some (servlet ++ "AT&T".toList) ∧
      Way.utf8.text (servlet ++ "AT&T".toList) = "AT".toList ∧
      ¬ Carried .utf8 (servlet ++ "AT&T".toList) "AT&T".toList ∧
      Way.utf8.text (select "AT&T".toList) = "AT".toList ∧
      ¬ Carried .utf8 (select "AT&T".toList) "AT&T".toList := by
  have hplain : ¬ Plain .utf8 "AT&T".toList := fun h => h.noAmp (by decide)
  exact ⟨rfl, by decide +kernel, fun h => hplain (typed_iff.mp h).1, by decide +kernel,
    fun h => hplain (selected_iff.mp h)⟩

end WebTech.Transport
