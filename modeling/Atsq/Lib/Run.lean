import Mathlib.Tactic.TypeStar

/-!
# Runs of a labelled transition system

A system is a partial function `step : σ → α → Option σ`: the state after an action, or `none`
where the action is not enabled.

* `run step s as`        the state after a list of actions;
* `Reach step C s₀ s`    `s` is the end of a run from `s₀` whose steps all meet the condition `C`;
* `guard check step`     the system that stops where `check` fails.

`Reach.inv` is the invariant rule, `exists_reach` and `exists_reach_of_guard` evaluate a run.
-/

namespace Sys
variable {σ α : Type*} {step : σ → α → Option σ} {C D : σ → α → Prop}

def run (step : σ → α → Option σ) (s : σ) : List α → Option σ
  | [] => some s
  | a :: as => (step s a).bind fun s' => run step s' as

theorem run_cons (s : σ) (a : α) (as : List α) :
    run step s (a :: as) = (step s a).bind fun s' => run step s' as := rfl

/-- the ends of the runs whose steps all meet the condition -/
inductive Reach (step : σ → α → Option σ) (C : σ → α → Prop) (s₀ : σ) : σ → Prop
  | init : Reach step C s₀ s₀
  | step {s s' : σ} {a : α} : Reach step C s₀ s → C s a → step s a = some s' → Reach step C s₀ s'

theorem Reach.trans {s₀ s₁ s₂ : σ} (h₁ : Reach step C s₀ s₁) (h₂ : Reach step C s₁ s₂) :
    Reach step C s₀ s₂ := by
  induction h₂ with
  | init => exact h₁
  | step _ hC hs ih => exact ih.step hC hs

/-- the invariant rule: what holds at first and is preserved by every step that meets the
condition holds in every state reached -/
theorem Reach.inv {s₀ s : σ} {I : σ → Prop} (h : Reach step C s₀ s) (h₀ : I s₀)
    (hI : ∀ s a s', I s → C s a → step s a = some s' → I s') : I s := by
  induction h with
  | init => exact h₀
  | step _ hC hs ih => exact hI _ _ _ ih hC hs

/-! ## following a run -/

theorem exists_reach (step : σ → α → Option σ) (C : σ → α → Prop) (s₀ : σ) (as : List α)
    (hC : ∀ s a, C s a) (hrun : (run step s₀ as).isSome = true) :
    ∃ s, run step s₀ as = some s ∧ Reach step C s₀ s := by
  obtain ⟨s, hs⟩ := Option.isSome_iff_exists.mp hrun
  refine ⟨s, hs, ?_⟩
  clear hrun
  induction as generalizing s₀ with
  | nil =>
    cases hs
    exact .init
  | cons a as ih =>
    rw [run_cons, Option.bind_eq_some_iff] at hs
    obtain ⟨s₁, h₁, hs⟩ := hs
    have first : Reach step C s₀ s₁ := Reach.init.step (hC _ _) h₁
    exact first.trans (ih s₁ hs)

/-- what a run ends in, read off one field at a time -/
theorem eq_of_run_map {β : Type*} {f : σ → β} {b : β} {s₀ s : σ} {as : List α}
    (hs : run step s₀ as = some s) (h : (run step s₀ as).map f = some b) : f s = b := by
  rw [hs] at h
  exact Option.some.inj h

def guard (check : σ → α → Bool) (step : σ → α → Option σ) (s : σ) (a : α) : Option σ :=
  if check s a then step s a else none

theorem guard_eq_some {check : σ → α → Bool} {s s' : σ} {a : α} :
    guard check step s a = some s' ↔ check s a = true ∧ step s a = some s' := by
  unfold guard
  split
  · rename_i h
    exact ⟨fun hs => ⟨h, hs⟩, fun hs => hs.2⟩
  · rename_i h
    exact ⟨nofun, fun hs => absurd hs.1 h⟩

theorem run_of_guard {check : σ → α → Bool} {s₀ s : σ} {as : List α}
    (h : run (guard check step) s₀ as = some s) : run step s₀ as = some s := by
  induction as generalizing s₀ with
  | nil => exact h
  | cons a as ih =>
    rw [run_cons, Option.bind_eq_some_iff] at h
    obtain ⟨s₁, h₁, h⟩ := h
    rw [run_cons, (guard_eq_some.mp h₁).2]
    exact ih h

/-- a run whose steps all pass the check -/
theorem exists_reach_of_guard (step : σ → α → Option σ) (C : σ → α → Prop) (check : σ → α → Bool)
    (s₀ : σ) (as : List α) (hC : ∀ s a, check s a = true → C s a)
    (hrun : (run (guard check step) s₀ as).isSome = true) :
    ∃ s, run step s₀ as = some s ∧ Reach step C s₀ s := by
  obtain ⟨s, hs, h⟩ := exists_reach _ (fun _ _ => True) s₀ as (fun _ _ => trivial) hrun
  refine ⟨s, run_of_guard hs, ?_⟩
  clear hrun hs
  induction h with
  | init => exact .init
  | step _ _ hs ih =>
    obtain ⟨hcheck, hs⟩ := guard_eq_some.mp hs
    exact ih.step (hC _ _ hcheck) hs

end Sys
