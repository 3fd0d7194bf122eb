/-
# `WebTech.Servlet` — search_stock.java: the document becomes a JSON text

`doGet` reads the producer's document, converts it with `XML.toJSONObject` and
prints the object.  An exception of any of these is caught and nothing is
printed.  The libraries in between are parameters, with what the program relies
on (`Libraries.Documented`); the shape of the conversion is the documented one:

    an element without content       ""
    an element with a text           the text's value
    an element with elements         an object; several of one name are an array

A path of only children in the document is a path of members in the object
(`getPath_value`), and the object is what a client parses (`parse_doGet`).
-/
import WebTech.Producer
import WebTech.Lib.Ecma
import Mathlib.Data.List.Dedup

namespace WebTech.Servlet

open Xml Utf8 Rfc8259 Producer

/-! ## The libraries -/

/-- No object, no array, and no number but a JSON number. -/
def isScalar : Json → Bool
  | .null | .bool _ | .str _ => true
  | .num lit => isNumeral lit
  | .arr _ | .obj _ => false

structure Libraries where
  /-- The text that is read where the DOM extension wrote a string, if the
  document can be read. -/
  xmlText : PhpString → Option Text
  /-- `XML.stringToValue`. -/
  stringToValue : Text → Json
  /-- The members of an object in the order they are printed in. -/
  order : List (Text × Json) → List (Text × Json)
  /-- `JSONObject.toString`. -/
  toString : Json → Text

/-- What the libraries are relied on for. -/
structure Libraries.Documented (lib : Libraries) : Prop where
  xmlText_encode : ∀ s, IsText s → lib.xmlText (encode s) = some s
  isScalar_stringToValue : ∀ s, isScalar (lib.stringToValue s) = true
  /-- The text of an amount stays a text, or becomes its number if it is a
  literal. -/
  stringToValue_amount : ∀ x : Decimals.Dec,
    lib.stringToValue (Decimals.numberFormat x 2) = .str (Decimals.numberFormat x 2) ∨
    Decimals.isDecimal (Decimals.numberFormat x 2) = true ∧
      ∃ lit d r, lib.stringToValue (Decimals.numberFormat x 2) = .num lit ∧
        Decimals.scan lit = some (d, r) ∧
        d.shortest = (Decimals.floatval (Decimals.numberFormat x 2)).shortest
  order_perm : ∀ ms, (lib.order ms).Perm ms
  parse_toString : ∀ v w, Numerals v → (∀ c ∈ w, isWs c = true) →
    parse (lib.toString v ++ w) = some v

/-! ## The conversion -/

/-- The values of one name. -/
def valuesOf (k : Text) (ps : List (Text × Json)) : List Json :=
  (ps.filter fun p => p.1 = k).map Prod.snd

/-- Two or more values are an array, a single one is itself. -/
def grouped : List Json → Json
  | [v] => v
  | vs => .arr vs

/-- The members the children of an element become. -/
def members (ps : List (Text × Json)) : List (Text × Json) :=
  (ps.map Prod.fst).dedup.map fun k => (k, grouped (valuesOf k ps))

section Servlet
variable (lib : Libraries)

/-- A text as a value. -/
def textValue (t : Text) : Json := if t = [] then .str [] else lib.stringToValue t

mutual
def value : Element Text → Json
  | .leaf _ t => textValue lib t
  | .node _ [] => .str []
  | .node _ (c :: cs) => .obj (lib.order (members ((c.name, value c) :: values cs)))

/-- The children, each with its name. -/
def values : List (Element Text) → List (Text × Json)
  | [] => []
  | c :: cs => (c.name, value c) :: values cs
end

/-- The document has one element, its root. -/
def root (doc : Element Text) : Element Text := .node [] [doc]

/-- `XML.toJSONObject`. -/
def toJSONObject (doc : Element Text) : Json := value lib (root doc)

/-- `doGet`: what it prints. -/
def doGet (document : Element PhpString) : Text :=
  match document.traverse lib.xmlText with
  | some doc => lib.toString (toJSONObject lib doc) ++ ['\n']
  | none => []

end Servlet

/-! ## Members -/

theorem fst_members (ps : List (Text × Json)) :
    (members ps).map Prod.fst = (ps.map Prod.fst).dedup := by
  rw [members, List.map_map]
  exact List.map_id _

theorem mem_members {k : Text} {ps : List (Text × Json)} (h : valuesOf k ps ≠ []) :
    (k, grouped (valuesOf k ps)) ∈ members ps := by
  obtain ⟨v, hv⟩ := List.exists_mem_of_ne_nil _ h
  obtain ⟨p, hp, -⟩ := List.mem_map.mp hv
  obtain ⟨hp, hk⟩ := List.mem_filter.mp hp
  refine List.mem_map.mpr ⟨k, List.mem_dedup.mpr ?_, rfl⟩
  rw [← of_decide_eq_true hk]
  exact List.mem_map_of_mem hp

theorem not_mem_members {k : Text} {ps : List (Text × Json)} (h : valuesOf k ps = []) :
    k ∉ (members ps).map Prod.fst := by
  rw [fst_members, List.mem_dedup]
  intro hk
  obtain ⟨p, hp, rfl⟩ := List.mem_map.mp hk
  have hv : p.2 ∈ valuesOf p.1 ps :=
    List.mem_map_of_mem (List.mem_filter.mpr ⟨hp, decide_eq_true rfl⟩)
  rw [h] at hv
  exact nomatch hv

theorem numerals_grouped {vs : List Json} (h : ∀ v ∈ vs, Numerals v) : Numerals (grouped vs) := by
  cases vs with
  | nil => trivial
  | cons v vs =>
      cases vs with
      | nil => exact h v List.mem_cons_self
      | cons w vs => exact (numeralsElems_iff _).mpr h

/-- A formatted number may stand in a document. -/
theorem isText_numberFormat (d : Decimals.Dec) : IsText (Decimals.numberFormat d 2) := by
  intro c hc
  have hrange := Decimals.isPriceChar_range (Decimals.isPriceChar_numberFormat d 2 c hc)
  simp only [isChar, Bool.or_eq_true, Bool.and_eq_true, decide_eq_true_eq]
  omega

section Documented
variable {lib : Libraries} (hlib : lib.Documented)
include hlib

/-- **A name in an object**: the values of that name, whatever the order of the
members. -/
theorem lookup_members (k : Text) (ps : List (Text × Json)) :
    lookup k (lib.order (members ps)) =
      if valuesOf k ps = [] then none else some (grouped (valuesOf k ps)) := by
  have hperm := hlib.order_perm (members ps)
  by_cases h : valuesOf k ps = []
  · rw [if_pos h]
    refine lookup_eq_none fun hk => not_mem_members h ?_
    exact (hperm.map Prod.fst).mem_iff.mp hk
  · rw [if_neg h]
    refine lookup_of_mem ?_ (hperm.mem_iff.mpr (mem_members h))
    rw [(hperm.map Prod.fst).nodup_iff, fst_members]
    exact List.nodup_dedup _

omit hlib in
theorem valuesOf_values (k : Text) : ∀ (cs : List (Element Text)),
    valuesOf k (values lib cs) = (cs.filter fun c => c.name = k).map (value lib)
  | [] => rfl
  | c :: cs => by
      have ih := valuesOf_values k cs
      rw [valuesOf] at ih ⊢
      rw [values, List.filter_cons, List.filter_cons]
      by_cases hc : c.name = k
      · rw [if_pos (decide_eq_true hc), if_pos (decide_eq_true hc), List.map_cons, List.map_cons, ih]
      · rw [if_neg (by simpa using hc), if_neg (by simpa using hc), ih]

/-- **A member of a converted element**: the conversion of its children of that
name. -/
theorem getProp_value {n : Text} {cs : List (Element Text)} (hcs : cs ≠ []) (k : String) :
    Ecma.getProp (some (value lib (.node n cs))) k =
      some (if cs.filter (fun c => c.name = k.toList) = [] then none
        else some (grouped ((cs.filter fun c => c.name = k.toList).map (value lib)))) := by
  cases cs with
  | nil => exact absurd rfl hcs
  | cons c cs =>
      rw [value]
      show some (lookup k.toList (lib.order (members (values lib (c :: cs))))) = _
      rw [lookup_members hlib, valuesOf_values]
      simp only [List.map_eq_nil_iff]

theorem getProp_only {e c : Element Text} {k : String} (h : e.only k = some c) :
    Ecma.getProp (some (value lib e)) k = some (some (value lib c)) := by
  rw [Element.only] at h
  split at h
  · next c' hf =>
      cases h
      cases e with
      | leaf n t => cases hf
      | node n cs =>
          have hcs : cs ≠ [] := by
            rintro rfl
            cases hf
          replace hf : cs.filter (fun c => c.name = k.toList) = [c] := hf
          rw [getProp_value hlib hcs, hf]
          rfl
  · cases h

/-- **Paths are kept** by the conversion. -/
theorem getPath_value {e c : Element Text} {ks : List String} (h : e.reach ks = some c) :
    Ecma.getPath (some (value lib e)) ks = some (some (value lib c)) := by
  induction ks generalizing e with
  | nil =>
      cases h
      rfl
  | cons k ks ih =>
      obtain ⟨d, hd, h⟩ := Option.bind_eq_some_iff.mp h
      rw [Ecma.getPath, getProp_only hlib hd]
      exact ih h

/-! ## What is printed -/

theorem isScalar_textValue (t : Text) : isScalar (textValue lib t) = true := by
  rw [textValue]
  split
  · rfl
  · exact hlib.isScalar_stringToValue t

omit hlib in
theorem numerals_of_isScalar {v : Json} (h : isScalar v = true) : Numerals v := by
  cases v with
  | null | bool b | str s => trivial
  | num lit => exact h
  | arr vs | obj ms => exact nomatch h

theorem numerals_obj {ps : List (Text × Json)} (h : ∀ p ∈ ps, Numerals p.2) :
    Numerals (.obj (lib.order (members ps))) := by
  rw [Numerals, numeralsMembers_iff]
  intro m hm
  obtain ⟨k, -, rfl⟩ := List.mem_map.mp ((hlib.order_perm _).mem_iff.mp hm)
  refine numerals_grouped fun v hv => ?_
  obtain ⟨p, hp, rfl⟩ := List.mem_map.mp hv
  exact h p (List.mem_filter.mp hp).1

end Documented

mutual
/-- Every number of a converted element is a JSON number. -/
theorem numerals_value {lib : Libraries} (hlib : lib.Documented) :
    ∀ (e : Element Text), Numerals (value lib e)
  | .leaf _ t => by
      rw [value]
      exact numerals_of_isScalar (isScalar_textValue hlib t)
  | .node _ [] => by
      rw [value]
      trivial
  | .node _ (c :: cs) => by
      rw [value]
      exact numerals_obj hlib (List.forall_mem_cons.mpr
        ⟨numerals_value hlib c, numerals_values hlib cs⟩)
theorem numerals_values {lib : Libraries} (hlib : lib.Documented) :
    ∀ (cs : List (Element Text)), ∀ p ∈ values lib cs, Numerals p.2
  | [] => nofun
  | c :: cs => by
      rw [values, List.forall_mem_cons]
      exact ⟨numerals_value hlib c, numerals_values hlib cs⟩
end

/-- **What the servlet prints** is a JSON text of the converted document. -/
theorem parse_doGet {lib : Libraries} (hlib : lib.Documented) {document : Element PhpString}
    {doc : Element Text} (h : document.traverse lib.xmlText = some doc) :
    parse (doGet lib document) = some (toJSONObject lib doc) := by
  rw [doGet, h]
  exact hlib.parse_toString _ _ (numerals_value hlib _) (by decide)

/-! ## Libraries as documented -/

/-- UTF-8 as it is, members in the order they came in, and a text that is a
decimal number turned into that number. -/
def plain : Libraries where
  xmlText := decode
  stringToValue s :=
    if Decimals.isDecimal s then .num (Decimals.floatval s).shortest else .str s
  order := id
  toString := print

theorem plain_documented : plain.Documented where
  xmlText_encode s _ := decode_encode s
  isScalar_stringToValue s := by
    show isScalar (if Decimals.isDecimal s then _ else _) = true
    split
    · exact Decimals.isNumeral_shortest _
    · rfl
  stringToValue_amount x := by
    show (if Decimals.isDecimal (Decimals.numberFormat x 2) then _ else _) = _ ∨ _
    by_cases h : Decimals.isDecimal (Decimals.numberFormat x 2) = true
    · obtain ⟨d, hscan, hd⟩ :=
        Decimals.scan_shortest (Decimals.floatval (Decimals.numberFormat x 2))
      exact .inr ⟨h, _, d, [], if_pos h, hscan, hd⟩
    · exact .inl (if_neg h)
  order_perm ms := .refl ms
  parse_toString _ _ h hw := parse_print h hw

end WebTech.Servlet
