/-
# `WebTech.Lib.Xml` — element trees

A document is a tree of named elements: a leaf holds text, a node holds
elements.  The texts are of any type, so that one tree serves for the bytes a
writer puts down and for the characters a reader gets.

    textAt e ks          the text found along the names `ks`, by first children
    reach e ks           the element found along the names `ks`, by only children
    traverse f e         every text decoded, when all of them can be
-/
import Mathlib.Data.List.Basic

namespace Xml

variable {σ τ : Type}

/-- The characters a document may hold. -/
def isChar (c : Char) : Bool :=
  c = '\t' || c = '\n' || c = '\r'
    || (0x20 ≤ c.toNat && c.toNat ≠ 0xfffe && c.toNat ≠ 0xffff)

def IsText (s : List Char) : Prop := ∀ c ∈ s, isChar c = true

instance decIsText (s : List Char) : Decidable (IsText s) :=
  inferInstanceAs (Decidable (∀ c ∈ s, isChar c = true))

inductive Element (σ : Type) where
  | leaf (name : List Char) (text : σ)
  | node (name : List Char) (children : List (Element σ))

namespace Element

def name : Element σ → List Char
  | .leaf n _ => n
  | .node n _ => n

def text : Element σ → Option σ
  | .leaf _ t => some t
  | .node _ _ => none

def children : Element σ → List (Element σ)
  | .leaf _ _ => []
  | .node _ cs => cs

/-- The first child of a name. -/
def child (e : Element σ) (k : String) : Option (Element σ) :=
  e.children.find? fun c => c.name = k.toList

/-- The text of the element reached along a list of names. -/
def textAt (e : Element σ) : List String → Option σ
  | [] => e.text
  | k :: ks => (e.child k).bind fun c => textAt c ks

/-- The only child of a name. -/
def only (e : Element σ) (k : String) : Option (Element σ) :=
  match e.children.filter fun c => c.name = k.toList with
  | [c] => some c
  | _ => none

/-- The element reached along a list of names, each of an only child. -/
def reach (e : Element σ) : List String → Option (Element σ)
  | [] => some e
  | k :: ks => (e.only k).bind fun c => reach c ks

mutual
/-- Every text is decoded. -/
def traverse (f : σ → Option τ) : Element σ → Option (Element τ)
  | .leaf n t => (f t).map (.leaf n)
  | .node n cs => (traverseAll f cs).map (.node n)

def traverseAll (f : σ → Option τ) : List (Element σ) → Option (List (Element τ))
  | [] => some []
  | c :: cs => (traverse f c).bind fun d => (traverseAll f cs).map fun ds => d :: ds
end

theorem name_traverse {f : σ → Option τ} {e : Element σ} {d : Element τ}
    (h : e.traverse f = some d) : d.name = e.name := by
  cases e with
  | leaf n t =>
      obtain ⟨u, -, rfl⟩ := Option.map_eq_some_iff.mp h
      rfl
  | node n cs =>
      obtain ⟨ds, -, rfl⟩ := Option.map_eq_some_iff.mp h
      rfl

/-- The children of a name are decoded one by one. -/
theorem filter_traverseAll {f : σ → Option τ} (k : List Char) : ∀ {cs : List (Element σ)}
    {ds : List (Element τ)}, traverseAll f cs = some ds →
      traverseAll f (cs.filter fun c => c.name = k) = some (ds.filter fun d => d.name = k)
  | [], ds, h => by
      cases h
      rfl
  | c :: cs, ds, h => by
      obtain ⟨d, hd, h⟩ := Option.bind_eq_some_iff.mp h
      obtain ⟨ds, hds, rfl⟩ := Option.map_eq_some_iff.mp h
      have ih := filter_traverseAll k hds
      have hname := name_traverse hd
      by_cases hk : c.name = k
      · rw [List.filter_cons, List.filter_cons, if_pos (decide_eq_true hk),
          if_pos (decide_eq_true (hname.trans hk)), traverseAll, hd, ih]
        rfl
      · rw [List.filter_cons, List.filter_cons, if_neg (by simpa using hk),
          if_neg (by simpa [hname] using hk)]
        exact ih

/-- **Paths are kept** when the texts are decoded. -/
theorem reach_traverse {f : σ → Option τ} {e c : Element σ} {d : Element τ}
    (h : e.traverse f = some d) {ks : List String} (hc : e.reach ks = some c) :
    ∃ c', d.reach ks = some c' ∧ c.traverse f = some c' := by
  induction ks generalizing e d with
  | nil =>
      cases hc
      exact ⟨d, rfl, h⟩
  | cons k ks ih =>
      obtain ⟨b, hb, hc⟩ := Option.bind_eq_some_iff.mp hc
      obtain ⟨b', hb', htrav⟩ : ∃ b', d.only k = some b' ∧ b.traverse f = some b' := by
        rw [only] at hb
        split at hb
        · next a hf =>
            cases hb
            cases e with
            | leaf n t => exact nomatch hf
            | node n cs =>
                obtain ⟨ds, hds, rfl⟩ := Option.map_eq_some_iff.mp h
                have hfilter := filter_traverseAll k.toList hds
                replace hf : cs.filter (fun c => c.name = k.toList) = [b] := hf
                rw [hf, traverseAll] at hfilter
                obtain ⟨b', htrav, hfilter⟩ := Option.bind_eq_some_iff.mp hfilter
                refine ⟨b', ?_, htrav⟩
                have hds' : ds.filter (fun c => c.name = k.toList) = [b'] :=
                  (Option.some.inj hfilter).symm
                show (match ds.filter fun c => c.name = k.toList with
                  | [c] => some c
                  | _ => none) = some b'
                rw [hds']
        · exact nomatch hb
      obtain ⟨c', hreach, hc'⟩ := ih htrav hc
      exact ⟨c', by rw [reach, hb']; exact hreach, hc'⟩

end Element

end Xml
