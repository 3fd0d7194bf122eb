/-
# `WebTech.Lib.Executor` — a serial executor and the loop that handles its results

Tasks run one at a time in the order they were submitted.  A task's result is
posted when its body ends, and the results are handled one by one in the order
they were posted.  The type of a result depends on its task.

    submitted = handled ++ outstanding,  kept by every operation      (`InOrder.submit`, `InOrder.finish`, `InOrder.deliver`)
    nothing outstanding  ⟹  the last one handled is the last one submitted  (`InOrder.getLast?`)

    every end of a body and every handled result uses up work              (`work_finish`, `work_deliver`)
    nothing can end and nothing can be handled  ⟹  nothing is left         (`eq_idle`)

`InOrder f` looks only at the tasks that `f` is defined on, so that one kind of
task can be followed among others.
-/
import Mathlib.Data.List.Basic

/-- Tasks whose bodies have not ended, and the results not yet handled. -/
structure Executor (τ : Type*) (ρ : τ → Type*) where
  queue : List τ
  posted : List (Σ t, ρ t)

namespace Executor

variable {τ : Type*} {ρ : τ → Type*}

def idle : Executor τ ρ := ⟨[], []⟩

def submit (e : Executor τ ρ) (ts : List τ) : Executor τ ρ := { e with queue := e.queue ++ ts }

/-- The body of the first task ends with the result `r.2`. -/
def finish [DecidableEq τ] (e : Executor τ ρ) (r : Σ t, ρ t) : Option (Executor τ ρ) :=
  match e.queue with
  | [] => none
  | t :: q => if t = r.1 then some ⟨q, e.posted ++ [r]⟩ else none

/-- The first posted result is taken to be handled. -/
def deliver (e : Executor τ ρ) : Option ((Σ t, ρ t) × Executor τ ρ) :=
  match e.posted with
  | [] => none
  | r :: rs => some (r, { e with posted := rs })

/-- The tasks whose results are not yet handled, in the order of submission. -/
def outstanding (e : Executor τ ρ) : List τ := e.posted.map Sigma.fst ++ e.queue

@[simp] theorem outstanding_idle : (idle : Executor τ ρ).outstanding = [] := rfl

@[simp] theorem submit_queue (e : Executor τ ρ) (ts : List τ) :
    (e.submit ts).queue = e.queue ++ ts := rfl

@[simp] theorem submit_nil (e : Executor τ ρ) : e.submit [] = e := by
  rw [submit, List.append_nil]

@[simp] theorem outstanding_submit (e : Executor τ ρ) (ts : List τ) :
    (e.submit ts).outstanding = e.outstanding ++ ts :=
  (List.append_assoc _ _ _).symm

section Finish
variable [DecidableEq τ]

theorem finish_eq_some {e e' : Executor τ ρ} {r : Σ t, ρ t} :
    e.finish r = some e' ↔ ∃ q, e.queue = r.1 :: q ∧ e' = ⟨q, e.posted ++ [r]⟩ := by
  rw [finish]
  cases hq : e.queue with
  | nil => exact ⟨nofun, fun ⟨_, h, _⟩ => nomatch h⟩
  | cons t q =>
      constructor
      · intro h
        by_cases ht : t = r.1
        · cases (if_pos ht).symm.trans h
          exact ⟨q, by rw [ht], rfl⟩
        · exact nomatch (if_neg ht).symm.trans h
      · rintro ⟨q', ⟨⟩, rfl⟩
        exact if_pos rfl

theorem outstanding_finish {e e' : Executor τ ρ} {r : Σ t, ρ t} (h : e.finish r = some e') :
    e'.outstanding = e.outstanding := by
  obtain ⟨q, hq, rfl⟩ := finish_eq_some.mp h
  rw [outstanding, outstanding, hq, List.map_append, List.append_assoc]
  rfl

end Finish

theorem deliver_eq_some {e e' : Executor τ ρ} {r : Σ t, ρ t} :
    e.deliver = some (r, e') ↔ e.posted = r :: e'.posted ∧ e'.queue = e.queue := by
  rw [deliver]
  cases hp : e.posted with
  | nil => exact ⟨nofun, fun h => nomatch h.1⟩
  | cons r' rs =>
      constructor
      · rintro ⟨⟩
        exact ⟨rfl, rfl⟩
      · rintro ⟨h, hq⟩
        cases h
        rw [← hq]

theorem outstanding_deliver {e e' : Executor τ ρ} {r : Σ t, ρ t}
    (h : e.deliver = some (r, e')) : e.outstanding = r.1 :: e'.outstanding := by
  obtain ⟨hp, hq⟩ := deliver_eq_some.mp h
  rw [outstanding, hp, ← hq]
  rfl

/-! ## Work -/

section Work
variable (cost : τ → ℕ)

/-- The sum of a cost over tasks. -/
def load : List τ → ℕ
  | [] => 0
  | t :: ts => cost t + load ts

theorem load_append : ∀ (ts us : List τ), load cost (ts ++ us) = load cost ts + load cost us
  | [], us => (Nat.zero_add _).symm
  | t :: ts, us => by
      rw [List.cons_append, load, load, load_append ts us, Nat.add_assoc]

/-- What is left to do: for each task the end of its body, and for each result,
its own or one that is posted, the cost of handling it. -/
def work (e : Executor τ ρ) : ℕ :=
  load (fun t => cost t + 1) e.queue + load cost (e.posted.map Sigma.fst)

theorem work_submit (e : Executor τ ρ) (ts : List τ) :
    (e.submit ts).work cost = e.work cost + load (fun t => cost t + 1) ts := by
  show load _ (e.queue ++ ts) + load cost (e.posted.map Sigma.fst) = _
  rw [load_append, work]
  omega

theorem work_finish [DecidableEq τ] {e e' : Executor τ ρ} {r : Σ t, ρ t} (h : e.finish r = some e') :
    e.work cost = e'.work cost + 1 := by
  obtain ⟨q, hq, rfl⟩ := finish_eq_some.mp h
  simp only [work, hq, List.map_append, load_append, load, List.map_cons, List.map_nil]
  omega

theorem work_deliver {e e' : Executor τ ρ} {r : Σ t, ρ t} (h : e.deliver = some (r, e')) :
    e.work cost = e'.work cost + cost r.1 := by
  obtain ⟨hp, hq⟩ := deliver_eq_some.mp h
  simp only [work, hp, hq, List.map_cons, load]
  omega

/-- **Nothing is left** when no body can end and no result can be handled. -/
theorem eq_idle [DecidableEq τ] [∀ t, Nonempty (ρ t)] {e : Executor τ ρ}
    (hfinish : ∀ r, e.finish r = none) (hdeliver : e.deliver = none) : e = idle := by
  rcases e with ⟨queue, posted⟩
  cases queue with
  | cons t q =>
      obtain ⟨r⟩ : Nonempty (ρ t) := inferInstance
      have hsome := (finish_eq_some (e := ⟨t :: q, posted⟩) (r := ⟨t, r⟩)).mpr ⟨q, rfl, rfl⟩
      exact nomatch hsome.symm.trans (hfinish ⟨t, r⟩)
  | nil =>
      cases posted with
      | cons r rs => exact nomatch hdeliver
      | nil => rfl

end Work

/-! ## First in, first out -/

section InOrder
variable {β : Type*} (f : τ → Option β)

/-- What was submitted is what was handled, followed by what is outstanding. -/
def InOrder (submitted handled : List β) (e : Executor τ ρ) : Prop :=
  submitted = handled ++ e.outstanding.filterMap f

variable {f} {submitted handled : List β} {e e' : Executor τ ρ}

theorem InOrder.idle : InOrder f [] [] (idle : Executor τ ρ) := rfl

theorem InOrder.submit (h : InOrder f submitted handled e) (ts : List τ) :
    InOrder f (submitted ++ ts.filterMap f) handled (e.submit ts) := by
  rw [InOrder, outstanding_submit, List.filterMap_append, ← List.append_assoc, ← h]

theorem InOrder.finish [DecidableEq τ] {r : Σ t, ρ t} (h : InOrder f submitted handled e)
    (hr : e.finish r = some e') : InOrder f submitted handled e' := by
  rwa [InOrder, outstanding_finish hr]

theorem InOrder.deliver {r : Σ t, ρ t} (h : InOrder f submitted handled e)
    (hr : e.deliver = some (r, e')) : InOrder f submitted (handled ++ (f r.1).toList) e' := by
  rw [InOrder, outstanding_deliver hr] at h
  rw [InOrder, h, List.append_assoc]
  cases hf : f r.1 with
  | none => rw [List.filterMap_cons_none hf]; rfl
  | some b => rw [List.filterMap_cons_some hf]; rfl

theorem InOrder.getLast? (h : InOrder f submitted handled e)
    (hout : e.outstanding.filterMap f = []) : submitted.getLast? = handled.getLast? := by
  rw [InOrder, hout, List.append_nil] at h
  rw [h]

end InOrder

end Executor
