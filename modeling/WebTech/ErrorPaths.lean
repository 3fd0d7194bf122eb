/-
# `WebTech.ErrorPaths` — every way through the catalogue viewer

`exec_cases` lists the exits of `validate` for a URL that is not empty.  Three
of them are not what they should be: `open` is outside the `try`, the root of a
document that is not there is asked for, and the window is opened before the
plants are counted.  The viewer behaves exactly when none of these is taken
(`behaves_iff`).
-/
import WebTech.Homework2

namespace WebTech.Homework2

open Dom

/-- A well-formed document with a `PLANT` was obtained. -/
def Obtained (r : Request) (xmlDoc : Document) : Prop :=
  r.responseXML = some xmlDoc ∧ xmlDoc.name ≠ "parsererror".toList ∧ plants xmlDoc ≠ [] ∧
    r.status ≠ 404

/-- One window with the table and `true`, or an alert, no window and `false`. -/
structure Behaves (r : Request) (res : Except Thrown (Option Bool)) (e : Effects) : Prop where
  shown : ∀ xmlDoc, Obtained r xmlDoc →
    res = .ok (some true) ∧ e.windows = 1 ∧ e.written = [str (plants xmlDoc)]
  refused : (¬ ∃ xmlDoc, Obtained r xmlDoc) →
    res = .ok (some false) ∧ e.alerts ≠ [] ∧ e.windows = 0 ∧ e.written = []

/-- The alert of a failed `send`. -/
def sendAlerts (r : Request) : List Text := if r.sendThrows then ["File not found".toList] else []

/-- **The exits of validate**. -/
inductive Exit (r : Request) : Except Thrown (Option Bool) → Effects → Prop
  | unopened : r.openThrows = true → Exit r (.error .syntaxError) ⟨[], 0, []⟩
  | notFound : r.openThrows = false → r.status = 404 →
      Exit r (.ok (some false)) ⟨sendAlerts r ++ ["File not found".toList], 0, []⟩
  | noDocument : r.openThrows = false → r.status ≠ 404 → r.responseXML = none →
      Exit r (.error .typeError) ⟨sendAlerts r, 0, []⟩
  | illFormed (xmlDoc : Document) : r.openThrows = false → r.status ≠ 404 →
      r.responseXML = some xmlDoc → xmlDoc.name = "parsererror".toList →
      Exit r (.ok (some false)) ⟨sendAlerts r ++ ["Error in XML file".toList], 0, []⟩
  | noPlant (xmlDoc : Document) : r.openThrows = false → r.status ≠ 404 →
      r.responseXML = some xmlDoc → xmlDoc.name ≠ "parsererror".toList → plants xmlDoc = [] →
      Exit r (.ok (some false)) ⟨sendAlerts r ++ ["No PLANT entry found".toList], 1, []⟩
  | table (xmlDoc : Document) : r.openThrows = false → r.status ≠ 404 →
      r.responseXML = some xmlDoc → xmlDoc.name ≠ "parsererror".toList → plants xmlDoc ≠ [] →
      Exit r (.ok (some true)) ⟨sendAlerts r, 1, [str (plants xmlDoc)]⟩

section Exits
variable {url : Text} (hurl : url ≠ []) (r : Request)

include hurl in
/-- Every run takes one of the exits. -/
theorem exec_cases : Exit r (exec url r).1 (exec url r).2 := by
  rw [exec, validate, if_neg hurl]
  obtain ⟨openThrows, sendThrows, status, responseXML⟩ := r
  cases openThrows with
  | true => exact .unopened rfl
  | false =>
      by_cases hs : status = 404
      · subst hs
        cases sendThrows with
        | true => exact .notFound rfl rfl
        | false => exact .notFound rfl rfl
      · simp only [if_neg hs]
        cases responseXML with
        | none =>
            cases sendThrows with
            | true => exact .noDocument rfl hs rfl
            | false => exact .noDocument rfl hs rfl
        | some xmlDoc =>
            by_cases hroot : xmlDoc.name = "parsererror".toList
            · simp only [if_pos hroot]
              cases sendThrows with
              | true => exact .illFormed xmlDoc rfl hs rfl hroot
              | false => exact .illFormed xmlDoc rfl hs rfl hroot
            · simp only [if_neg hroot]
              by_cases hp : plants xmlDoc = []
              · simp only [if_pos hp]
                cases sendThrows with
                | true => exact .noPlant xmlDoc rfl hs rfl hroot hp
                | false => exact .noPlant xmlDoc rfl hs rfl hroot hp
              · simp only [if_neg hp]
                cases sendThrows with
                | true => exact .table xmlDoc rfl hs rfl hroot hp
                | false => exact .table xmlDoc rfl hs rfl hroot hp

/-- The request leads to one of the exits that are in order. -/
def Handled (r : Request) : Prop :=
  r.openThrows = false ∧ (r.status = 404 ∨
    ∃ xmlDoc, r.responseXML = some xmlDoc ∧ (xmlDoc.name = "parsererror".toList ∨ plants xmlDoc ≠ []))

include hurl in
/-- **When the viewer behaves**: when the request can be opened, and brings the
status 404, a document with a `PLANT`, or a report that it is ill-formed. -/
theorem behaves_iff : Behaves r (exec url r).1 (exec url r).2 ↔ Handled r := by
  have hexit := exec_cases hurl r
  generalize (exec url r).1 = res at hexit
  generalize (exec url r).2 = e at hexit
  cases hexit with
  | unopened hopen =>
      constructor
      · intro h
        by_cases hob : ∃ xmlDoc, Obtained r xmlDoc
        · obtain ⟨xmlDoc, hob⟩ := hob
          exact nomatch (h.shown xmlDoc hob).1
        · exact nomatch (h.refused hob).1
      · rintro ⟨hnot, -⟩
        exact nomatch hopen.symm.trans hnot
  | notFound hopen hs =>
      constructor
      · intro _
        exact ⟨hopen, .inl hs⟩
      · intro _
        exact ⟨fun _ hob => absurd hs hob.2.2.2, fun _ => ⟨rfl, by simp, rfl, rfl⟩⟩
  | noDocument hopen hs hdoc =>
      have hob : ¬ ∃ xmlDoc, Obtained r xmlDoc := fun ⟨_, h, _⟩ => nomatch hdoc.symm.trans h
      constructor
      · intro h
        exact nomatch (h.refused hob).1
      · rintro ⟨-, hnot | ⟨_, hsome, -⟩⟩
        · exact absurd hnot hs
        · exact nomatch hdoc.symm.trans hsome
  | illFormed xmlDoc hopen hs hdoc hroot =>
      constructor
      · intro _
        exact ⟨hopen, .inr ⟨xmlDoc, hdoc, .inl hroot⟩⟩
      · intro _
        refine ⟨fun d hob => ?_, fun _ => ⟨rfl, by simp, rfl, rfl⟩⟩
        cases hdoc.symm.trans hob.1
        exact absurd hroot hob.2.1
  | noPlant xmlDoc hopen hs hdoc hroot hp =>
      have hob : ¬ ∃ xmlDoc, Obtained r xmlDoc := by
        rintro ⟨d, hd, -, hd', -⟩
        cases hdoc.symm.trans hd
        exact hd' hp
      constructor
      · intro h
        exact nomatch (h.refused hob).2.2.1
      · rintro ⟨-, hnot | ⟨d, hd, hroot' | hp'⟩⟩
        · exact absurd hnot hs
        · cases hdoc.symm.trans hd
          exact absurd hroot' hroot
        · cases hdoc.symm.trans hd
          exact absurd hp hp'
  | table xmlDoc hopen hs hdoc hroot hp =>
      have hob : Obtained r xmlDoc := ⟨hdoc, hroot, hp, hs⟩
      constructor
      · intro _
        exact ⟨hopen, .inr ⟨xmlDoc, hdoc, .inr hp⟩⟩
      · intro _
        refine ⟨fun d hd => ?_, fun hnot => absurd ⟨xmlDoc, hob⟩ hnot⟩
        cases hdoc.symm.trans hd.1
        exact ⟨rfl, rfl, rfl⟩

end Exits

/-! ## Two requests -/

/-- A catalogue with one plant. -/
def onePlant : Document := ⟨"CATALOG".toList, [.element "PLANT".toList []]⟩

theorem behaves_onePlant :
    Behaves ⟨false, false, 200, some onePlant⟩ (exec ['u'] ⟨false, false, 200, some onePlant⟩).1
      (exec ['u'] ⟨false, false, 200, some onePlant⟩).2 :=
  (behaves_iff (by decide) _).mpr ⟨rfl, .inr ⟨onePlant, rfl, .inr nofun⟩⟩

/-- A failed `send` lets an exception escape. -/
theorem send_failure_escapes :
    ¬ Behaves ⟨false, true, 0, none⟩ (exec ['u'] ⟨false, true, 0, none⟩).1
      (exec ['u'] ⟨false, true, 0, none⟩).2 := by
  intro h
  exact nomatch (h.refused fun ⟨_, hob, _⟩ => nomatch hob).1

end WebTech.Homework2
