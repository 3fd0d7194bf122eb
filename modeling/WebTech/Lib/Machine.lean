/-
# `WebTech.Lib.Machine` — event machines, their runs and their invariants

A machine is an initial state and a partial step: an event either is not
possible in a state or leads to one state.  A run is a list of events.

    holds initially, preserved by every step  ⟹  holds in every reachable state   (`Machine.invariant`)
    preserved by the steps that meet a guard  ⟹  holds after every guarded run    (`Machine.guarded_invariant`)
    events that lower a measure make runs no longer than it                       (`Machine.length_run_le`)
    and runs that none of them continues                                          (`Machine.exists_stuck`)
    what each event of a run records is recorded of the whole run                 (`Machine.run_log`)
    what only some steps write is what the last of them wrote                     (`Machine.run_lastWrite`)
    a machine whose steps another one can follow is followed along its runs       (`Machine.run_simulation`)
-/
import Mathlib.Order.Basic
import Mathlib.Data.List.Induction
import Mathlib.Tactic.Push

/-- A machine with states `σ` and events `ε`. -/
structure Machine (σ ε : Type*) where
  init : σ
  step : σ → ε → Option σ

namespace Machine

variable {σ ε : Type*} (M : Machine σ ε)

/-- The state after a list of events, when each of them is possible. -/
def run : σ → List ε → Option σ
  | s, [] => some s
  | s, e :: es => (M.step s e).bind fun s' => run s' es

/-- The state is reached by a run from the initial one. -/
def Reachable (s : σ) : Prop := ∃ es, M.run M.init es = some s

/-- The machine whose steps meet the guard `G`. -/
def guarded (G : σ → ε → Prop) [∀ s e, Decidable (G s e)] : Machine σ ε where
  init := M.init
  step s e := if G s e then M.step s e else none

variable {M}

theorem run_cons {s t : σ} {e : ε} {es : List ε} :
    M.run s (e :: es) = some t ↔ ∃ s', M.step s e = some s' ∧ M.run s' es = some t :=
  Option.bind_eq_some_iff

theorem run_append {s t : σ} : ∀ {es es' : List ε},
    M.run s (es ++ es') = some t ↔ ∃ s', M.run s es = some s' ∧ M.run s' es' = some t := by
  intro es
  induction es generalizing s with
  | nil => exact ⟨fun h => ⟨s, rfl, h⟩, fun ⟨_, h, h'⟩ => by cases h; exact h'⟩
  | cons e es ih =>
      intro es'
      rw [List.cons_append, run_cons]
      constructor
      · rintro ⟨s₁, h₁, h⟩
        obtain ⟨s₂, h₂, h₃⟩ := ih.mp h
        exact ⟨s₂, run_cons.mpr ⟨s₁, h₁, h₂⟩, h₃⟩
      · rintro ⟨s₂, h, h₃⟩
        obtain ⟨s₁, h₁, h₂⟩ := run_cons.mp h
        exact ⟨s₁, h₁, ih.mpr ⟨s₂, h₂, h₃⟩⟩

theorem Reachable.step {s t : σ} {e : ε} (h : M.Reachable s) (ht : M.step s e = some t) :
    M.Reachable t := by
  obtain ⟨es, hes⟩ := h
  exact ⟨es ++ [e], run_append.mpr ⟨s, hes, run_cons.mpr ⟨t, ht, rfl⟩⟩⟩

theorem Reachable.run {s t : σ} {es : List ε} (h : M.Reachable s) (ht : M.run s es = some t) :
    M.Reachable t := by
  obtain ⟨es', hes⟩ := h
  exact ⟨es' ++ es, run_append.mpr ⟨s, hes, ht⟩⟩

/-- What every step preserves, a run preserves. -/
theorem run_invariant {P : σ → Prop} (hstep : ∀ {s t e}, P s → M.step s e = some t → P t) :
    ∀ {es : List ε} {s t : σ}, P s → M.run s es = some t → P t
  | [], _, _, hs, h => by cases h; exact hs
  | _ :: _, _, _, hs, h => by
      obtain ⟨_, h₁, h₂⟩ := run_cons.mp h
      exact run_invariant hstep (hstep hs h₁) h₂

/-- **Invariants.** -/
theorem invariant {P : σ → Prop} (hinit : P M.init)
    (hstep : ∀ {s t e}, P s → M.step s e = some t → P t) {s : σ} (h : M.Reachable s) : P s := by
  obtain ⟨_, hes⟩ := h
  exact run_invariant hstep hinit hes

/-- A run, one event after the others. -/
theorem run_concat {s t : σ} {e : ε} {es : List ε} :
    M.run s (es ++ [e]) = some t ↔ ∃ s', M.run s es = some s' ∧ M.step s' e = some t := by
  rw [run_append]
  constructor
  · rintro ⟨s', hes, he⟩
    obtain ⟨t', ht, hnil⟩ := run_cons.mp he
    cases hnil
    exact ⟨s', hes, ht⟩
  · rintro ⟨s', hes, ht⟩
    exact ⟨s', hes, run_cons.mpr ⟨t, ht, rfl⟩⟩

/-- **Histories.**  What holds of the empty run and goes on holding when a run
is continued holds of every run, from any state. -/
theorem run_log {s₀ : σ} {P : List ε → σ → Prop} (hinit : P [] s₀)
    (hstep : ∀ {es s t e}, M.run s₀ es = some s → P es s → M.step s e = some t → P (es ++ [e]) t)
    {es : List ε} {s : σ} (h : M.run s₀ es = some s) : P es s := by
  induction es using List.reverseRecOn generalizing s with
  | nil =>
      cases h
      exact hinit
  | append_singleton es e ih =>
      obtain ⟨s', hes, he⟩ := run_concat.mp h
      exact hstep hes (ih hes) he

/-- What the events of a kind preserve, a run of them preserves. -/
theorem run_invariant_of {I : ε → Prop} {P : σ → Prop}
    (hstep : ∀ {s t e}, I e → P s → M.step s e = some t → P t) {es : List ε} {s t : σ}
    (hes : ∀ e ∈ es, I e) (hs : P s) (h : M.run s es = some t) : P t := by
  induction es generalizing s with
  | nil =>
      cases h
      exact hs
  | cons e es ih =>
      obtain ⟨he, hes⟩ := List.forall_mem_cons.mp hes
      obtain ⟨s', hs', hrest⟩ := run_cons.mp h
      exact ih hes (hstep he hs hs') hrest

/-- What the steps of a run write, in their order. -/
def writes {β : Type*} (M : Machine σ ε) (write : σ → ε → Option β) : σ → List ε → List β
  | _, [] => []
  | s, e :: es => (write s e).toList ++ (M.step s e).elim [] fun s' => M.writes write s' es

/-- **The last write** decides: where a step either leaves `f` alone or makes it
what it writes, a run leaves what the last write made of it. -/
theorem run_lastWrite {α β : Type*} {f : σ → α} {g : β → α} {write : σ → ε → Option β}
    (hstep : ∀ {s t e}, M.step s e = some t → f t = ((write s e).map g).getD (f s))
    {es : List ε} {s t : σ} (h : M.run s es = some t) :
    f t = ((M.writes write s es).getLast?.map g).getD (f s) := by
  induction es generalizing s with
  | nil =>
      cases h
      rfl
  | cons e es ih =>
      obtain ⟨s', he, hrest⟩ := run_cons.mp h
      rw [ih hrest, hstep he, writes, he, Option.elim_some, List.getLast?_append]
      cases (M.writes write s' es).getLast? with
      | some b => rfl
      | none =>
          cases write s e with
          | none => rfl
          | some b => rfl

/-- **Simulation.**  Where `N` follows every step of `M` with events of a kind,
it follows every run. -/
theorem run_simulation {τ ι : Type*} {N : Machine τ ι} {R : σ → τ → Prop} {I : ι → Prop}
    (hstep : ∀ {s t s' e}, R s s' → M.step s e = some t →
      ∃ es' t', (∀ e' ∈ es', I e') ∧ N.run s' es' = some t' ∧ R t t')
    {es : List ε} {s t : σ} {s' : τ} (hs : R s s') (h : M.run s es = some t) :
    ∃ es' t', (∀ e' ∈ es', I e') ∧ N.run s' es' = some t' ∧ R t t' := by
  induction es generalizing s s' with
  | nil =>
      cases h
      exact ⟨[], s', nofun, rfl, hs⟩
  | cons e es ih =>
      obtain ⟨u, hu, hrest⟩ := run_cons.mp h
      obtain ⟨es₁, u', hes₁, hrun₁, hu'⟩ := hstep hs hu
      obtain ⟨es₂, t', hes₂, hrun₂, ht'⟩ := ih hu' hrest
      refine ⟨es₁ ++ es₂, t', ?_, run_append.mpr ⟨u', hrun₁, hrun₂⟩, ht'⟩
      exact List.forall_mem_append.mpr ⟨hes₁, hes₂⟩

section Work
variable {I : ε → Prop} (f : σ → ℕ)
  (hwork : ∀ {s t e}, I e → M.step s e = some t → f t < f s)
include hwork

/-- A run of events that all cost work is no longer than the work there is. -/
theorem length_run_le {es : List ε} {s t : σ} (hes : ∀ e ∈ es, I e) (h : M.run s es = some t) :
    es.length + f t ≤ f s := by
  induction es generalizing s with
  | nil =>
      cases h
      exact Nat.le_of_eq (Nat.zero_add _)
  | cons e es ih =>
      obtain ⟨s', he, hrest⟩ := run_cons.mp h
      have hlt := hwork (hes e List.mem_cons_self) he
      have hle := ih (fun e' he' => hes e' (List.mem_cons_of_mem e he')) hrest
      rw [List.length_cons]
      omega

/-- From every state such events lead to one where none of them is possible. -/
theorem exists_stuck (s : σ) : ∃ es t, (∀ e ∈ es, I e) ∧ M.run s es = some t ∧
    ∀ e, I e → M.step t e = none := by
  induction hn : f s using Nat.strongRecOn generalizing s with
  | _ n ih =>
      by_cases hstuck : ∀ e, I e → M.step s e = none
      · exact ⟨[], s, nofun, rfl, hstuck⟩
      · push Not at hstuck
        obtain ⟨e, he, hne⟩ := hstuck
        obtain ⟨s', hs'⟩ := Option.ne_none_iff_exists'.mp hne
        obtain ⟨es, t, hes, hrun, ht⟩ := ih (f s') (hn ▸ hwork he hs') s' rfl
        refine ⟨e :: es, t, ?_, run_cons.mpr ⟨s', hs', hrun⟩, ht⟩
        exact List.forall_mem_cons.mpr ⟨he, hes⟩

end Work

section Guarded
variable {G : σ → ε → Prop} [∀ s e, Decidable (G s e)]

theorem guarded_step {s t : σ} {e : ε} :
    (M.guarded G).step s e = some t ↔ G s e ∧ M.step s e = some t := by
  show (if G s e then M.step s e else none) = some t ↔ _
  by_cases h : G s e
  · rw [if_pos h]
    exact ⟨fun h' => ⟨h, h'⟩, fun h' => h'.2⟩
  · rw [if_neg h]
    exact ⟨nofun, fun h' => absurd h'.1 h⟩

/-- A guarded run is a run. -/
theorem run_of_guarded {s t : σ} {es : List ε} (h : (M.guarded G).run s es = some t) :
    M.run s es = some t := by
  induction es generalizing s with
  | nil => exact h
  | cons e es ih =>
      obtain ⟨s', hs', hrest⟩ := run_cons.mp h
      exact run_cons.mpr ⟨s', (guarded_step.mp hs').2, ih hrest⟩

theorem Reachable.of_guarded {s : σ} : (M.guarded G).Reachable s → M.Reachable s
  | ⟨es, h⟩ => ⟨es, run_of_guarded h⟩

/-- **Invariants of the runs whose steps all meet a guard.** -/
theorem guarded_invariant {P : σ → Prop} (hinit : P M.init)
    (hstep : ∀ {s t e}, P s → G s e → M.step s e = some t → P t) {s : σ}
    (h : (M.guarded G).Reachable s) : P s :=
  invariant (M := M.guarded G) hinit
    (fun hs hst => hstep hs (guarded_step.mp hst).1 (guarded_step.mp hst).2) h

end Guarded

end Machine
