/-
# `WebTech.Basic` — texts, and the accessors of the JSON clients

A string of any of the programs is a list of characters.  `org.json` and
`JSON.parse` clients read a response with the same few accessors: a member of
an object, a string leaf, the elements of an array.
-/
import WebTech.Lib.JsonText

namespace WebTech

open Rfc8259

/-- A string of the programs. -/
abbrev Text := List Char

/-- `v.k` on an object. -/
def member (k : String) : Json → Option Json
  | .obj ms => lookup k.toList ms
  | _ => none

/-- A string leaf. -/
def string : Json → Option Text
  | .str s => some s
  | _ => none

/-- The elements of an array. -/
def elements : Json → Option (List Json)
  | .arr vs => some vs
  | _ => none

/-- `v.k`, a string. -/
def stringAt (v : Json) (k : String) : Option Text := member k v >>= string

theorem member_eq_some {v w : Json} {k : String} (h : member k v = some w) :
    ∃ ms, v = .obj ms ∧ lookup k.toList ms = some w := by
  cases v with
  | obj ms => exact ⟨ms, rfl, h⟩
  | _ => exact nomatch h

theorem stringAt_eq_some {v : Json} {k : String} {s : Text} :
    stringAt v k = some s ↔ ∃ ms, v = .obj ms ∧ lookup k.toList ms = some (.str s) := by
  constructor
  · intro h
    obtain ⟨w, hw, hs⟩ := Option.bind_eq_some_iff.mp h
    obtain ⟨ms, rfl, hw⟩ := member_eq_some hw
    cases w with
    | str s' => cases hs; exact ⟨ms, rfl, hw⟩
    | _ => exact nomatch hs
  · rintro ⟨ms, rfl, h⟩
    rw [stringAt, member, h]
    rfl

end WebTech
