import Mathlib.Data.List.Count
import Mathlib.Data.List.Induction
import Atsq.Lib.Run

/-!
# Runs with their actions, and ranks

`Trace step C s₀ as s` says that `s` is the end of a run of the actions `as` whose steps all meet
`C`.

Main results: `Trace.countP_le`, a rank that the steps of a kind lower bounds how many there are of
them, and `exists_reach_of_rank`, a rank that always can be lowered can be brought to zero.
-/

namespace Sys

section
variable {σ α : Type*} {step : σ → α → Option σ} {C : σ → α → Prop}

/-- the runs whose steps all meet the condition, with their actions -/
inductive Trace (step : σ → α → Option σ) (C : σ → α → Prop) (s₀ : σ) : List α → σ → Prop
  | init : Trace step C s₀ [] s₀
  | step {as : List α} {s s' : σ} {a : α} : Trace step C s₀ as s → C s a → step s a = some s' →
      Trace step C s₀ (as ++ [a]) s'

theorem run_append (step : σ → α → Option σ) (s : σ) (as bs : List α) :
    run step s (as ++ bs) = (run step s as).bind fun s' => run step s' bs := by
  induction as generalizing s with
  | nil => rfl
  | cons a as ih =>
    rw [List.cons_append, run_cons, run_cons, Option.bind_assoc]
    congr 1
    funext s'
    exact ih s'

theorem Trace.reach {s₀ s : σ} {as : List α} (h : Trace step C s₀ as s) : Reach step C s₀ s := by
  induction h with
  | init => exact .init
  | step _ hC hs ih => exact ih.step hC hs

theorem Reach.exists_trace {s₀ s : σ} (h : Reach step C s₀ s) : ∃ as, Trace step C s₀ as s := by
  induction h with
  | init => exact ⟨[], .init⟩
  | step _ hC hs ih =>
    obtain ⟨as, h⟩ := ih
    exact ⟨_, h.step hC hs⟩

theorem Trace.of_mem {s₀ s : σ} {as : List α} (h : Trace step C s₀ as s) {a : α} (ha : a ∈ as) :
    ∃ s, C s a := by
  induction h with
  | init => cases ha
  | step _ hC _ ih =>
    rcases List.mem_append.mp ha with ha | ha
    · exact ih ha
    · rw [List.mem_singleton.mp ha]
      exact ⟨_, hC⟩

theorem trace_of_run {s₀ s : σ} {as : List α} (hC : ∀ a ∈ as, ∀ s, C s a)
    (hs : run step s₀ as = some s) : Trace step C s₀ as s := by
  induction as using List.reverseRecOn generalizing s with
  | nil =>
    cases hs
    exact .init
  | append_singleton as a ih =>
    rw [run_append, Option.bind_eq_some_iff] at hs
    obtain ⟨s₁, h₁, hs⟩ := hs
    rw [run_cons, Option.bind_eq_some_iff] at hs
    obtain ⟨s₂, h₂, hs⟩ := hs
    cases hs
    have hinit := ih (fun b hb => hC b (List.mem_append_left _ hb)) h₁
    exact hinit.step (hC a (List.mem_append_right _ List.mem_cons_self) s₁) h₂

/-- the steps of a run meet what follows from their condition and an invariant -/
theorem Reach.mono_inv {D : σ → α → Prop} {I : σ → Prop} {s₀ s : σ} (h : Reach step C s₀ s)
    (h₀ : I s₀) (hI : ∀ s a s', I s → C s a → step s a = some s' → I s')
    (hCD : ∀ s a, I s → C s a → D s a) : Reach step D s₀ s := by
  have hall : I s ∧ Reach step D s₀ s := by
    refine h.inv (I := fun s => I s ∧ Reach step D s₀ s) ⟨h₀, .init⟩ fun s a s' hs hC hstep => ?_
    exact ⟨hI s a s' hs.1 hC hstep, hs.2.step (hCD s a hs.1 hC) hstep⟩
  exact hall.2

theorem Reach.mono {D : σ → α → Prop} (hCD : ∀ s a, C s a → D s a) {s₀ s : σ}
    (h : Reach step C s₀ s) : Reach step D s₀ s :=
  h.mono_inv (I := fun _ => True) trivial (fun _ _ _ _ _ _ => trivial) fun s a _ => hCD s a

/-- **A rank that no step raises and each step of a kind lowers** bounds the number of the latter -/
theorem Trace.countP_le {s₀ s : σ} {as : List α} {I : σ → Prop} (h : Trace step C s₀ as s)
    (rank : σ → Nat) (kind : α → Bool) (h₀ : I s₀)
    (hI : ∀ s a s', I s → C s a → step s a = some s' → I s')
    (hrank : ∀ s a s', I s → C s a → step s a = some s' →
      rank s' + (if kind a then 1 else 0) ≤ rank s) :
    as.countP kind + rank s ≤ rank s₀ := by
  induction h with
  | init => exact Nat.le_of_eq (Nat.zero_add _)
  | step htrace hC hs ih =>
    have hlast := hrank _ _ _ (htrace.reach.inv h₀ hI) hC hs
    rw [List.countP_append, List.countP_singleton]
    omega

/-- **A rank that always can be lowered** can be brought to zero. -/
theorem exists_reach_of_rank (step : σ → α → Option σ) (rank : σ → Nat) {I : σ → Prop}
    (h : ∀ s, I s → rank s ≠ 0 → ∃ s', Reach step C s s' ∧ I s' ∧ rank s' < rank s)
    (s : σ) (hs : I s) : ∃ s', Reach step C s s' ∧ I s' ∧ rank s' = 0 := by
  induction hn : rank s using Nat.strongRecOn generalizing s with
  | ind n ih =>
    by_cases hzero : rank s = 0
    · exact ⟨s, .init, hs, hzero⟩
    · obtain ⟨s₁, h₁, hi, hlt⟩ := h s hs hzero
      obtain ⟨s', h', hs'⟩ := ih (rank s₁) (hn ▸ hlt) s₁ hi rfl
      exact ⟨s', h₁.trans h', hs'⟩

end

end Sys
