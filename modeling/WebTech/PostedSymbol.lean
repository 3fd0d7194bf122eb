/-
# `WebTech.PostedSymbol` — the symbol in the form of search_stock.php

The script takes the spaces out of what is posted and writes the rest into the
two addresses that search_stock1.php asks at; nothing is escaped.

    only spaces                  nothing is asked, and only the end of the list is sent
    `&`, `#`, `+`, `"`, `%XX`    Yahoo is asked for something else
    anything else                Yahoo is asked for the symbol

Nothing but the two cases is needed for it (`posted_iff`): the spaces inside a
symbol are gone, so a name of several words is never asked for as it was typed.
-/
import WebTech.SearchPage
import WebTech.Transport

namespace WebTech.SearchPage

open WebTech.Producer WebTech.Transport Utf8 Url

/-- What is posted, without its spaces. -/
def symbol (t : Text) : Text := t.filter fun c => c ≠ ' '

/-- **Yahoo is asked for `s`** at the two addresses, and for nothing else.  An
address is taken to reach Yahoo as it is written. -/
structure Asks (C : Charset) (quote news : PhpString) (s : Text) : Prop where
  yql : ∃ url, decode quote = some url ∧
    params C url = [("q".toList, yql s), ("env".toList, Transport.tables)]
  literal : '"' ∉ s
  feed : ∃ url, decode news = some url ∧
    params C url = [("s".toList, s), ("region".toList, "US".toList), ("lang".toList, "en-US".toList)]

/-! ## The addresses -/

theorem noSpaces_encode (t : Text) : noSpaces (encode t) = encode (symbol t) :=
  filter_encode (a := ' ') (by decide) t

/-- A literal is the text of its pieces. -/
theorem lit_eq {s : String} {t : Text} (h : s = String.ofList t) : lit s = encode t := by
  rw [h, lit, String.toList_ofList]

set_option maxRecDepth 8000 in
/-- search_stock1.php asks at the same address. -/
theorem quoteUrl_encode (s : Text) : quoteUrl (encode s) = encode (val1 s) := by
  rw [val1, encode_append, encode_append, quoteUrl]
  exact congrArg₂ (· ++ ·) (congrArg₂ (· ++ ·) (lit_eq rfl) rfl) (lit_eq rfl)

theorem newsUrl_encode (s : Text) : newsUrl (encode s) = encode (val2 s) := by
  rw [val2, encode_append, encode_append]
  rfl

/-- **What is asked at the two addresses.** -/
theorem asks_iff (C : Charset) (s : Text) :
    Asks C (quoteUrl (encode s)) (newsUrl (encode s)) s ↔ Clean s := by
  rw [quoteUrl_encode, newsUrl_encode]
  constructor
  · intro h
    obtain ⟨url, hurl, hfeed⟩ := h.feed
    rw [decode_encode] at hurl
    cases hurl
    have hs := feed_value C hfeed
    have hle := length_formDecode_le C (cut s)
    have hcut := length_cut_le s
    rw [← hs] at hle
    obtain ⟨hamp, hhash⟩ := not_mem_of_length_cut (v := s) (by omega)
    rw [cut_eq_self hamp hhash] at hs
    obtain ⟨hescape, hdecode⟩ := formDecode_of_length C (s := s) (by rw [← hs])
    exact ⟨hamp, hhash, map_plus_eq_self_iff.mp (hdecode.symm.trans hs.symm), h.literal, hescape⟩
  · intro h
    exact ⟨⟨_, decode_encode _, params_val1 h C⟩, h.noQuote, ⟨_, decode_encode _, params_val2 h C⟩⟩

/-! ## The page -/

/-- Without a symbol nothing depends on Yahoo, and with one something does. -/
theorem page_blank_iff (t : Text) :
    (∀ quoteAt channelAt, page ⟨true, encode t⟩ quoteAt channelAt = [.stop .ul]) ↔
      symbol t = [] := by
  rw [← encode_eq_nil, ← noSpaces_encode]
  constructor
  · intro h
    by_contra hne
    have hurl : encode t ≠ [] := by
      intro hnil
      rw [hnil] at hne
      exact hne rfl
    have hpage := h (fun _ => []) fun _ => []
    rw [page, if_pos ⟨rfl, hurl, hne⟩] at hpage
    exact absurd hpage (by decide)
  · intro h quoteAt channelAt
    rw [page, if_neg fun hall => hall.2.2 h]

/-- **The posted symbol**: nothing is asked exactly when there are only spaces,
and what is asked for is the text without its spaces exactly when that means
nothing in an address or in a query. -/
theorem posted_iff (C : Charset) (t : Text) :
    ((∀ quoteAt channelAt, page ⟨true, encode t⟩ quoteAt channelAt = [.stop .ul]) ↔
      symbol t = []) ∧
    (Asks C (quoteUrl (noSpaces (encode t))) (newsUrl (noSpaces (encode t))) (symbol t) ↔
      Clean (symbol t)) := by
  rw [noSpaces_encode]
  exact ⟨page_blank_iff t, asks_iff C (symbol t)⟩

end WebTech.SearchPage
