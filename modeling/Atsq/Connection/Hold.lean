import Mathlib.Logic.Function.Basic

/-!
# Who still holds the transport?

A machine of its own for the release of a transport: whether the connection is closed, whether the
transport is and the SSH connection under it, whether some `close` returned, and which tasks are
inside `close`, sending `quit` or waiting for the end of the transport.

* `Hold.Step`   what a task can do to it when no write fails and no task is cancelled on the way;
* `Hold.Ok`     what every run of such steps keeps.

Main result: `Hold.Step.ok`.
-/

namespace Atsq

inductive Phase where
  | quitting
  | releasing
deriving DecidableEq

structure Hold (ι : Type) where
  closed : Bool
  /-- the transport's own flag -/
  lost : Bool
  /-- the SSH connection was closed -/
  released : Bool
  /-- some `close` returned -/
  returned : Bool
  phase : ι → Option Phase

namespace Hold
variable {ι : Type} [DecidableEq ι]

inductive Step (h : Hold ι) : Hold ι → Prop where
  | still : Step h h
  /-- `close` on a closed connection, which nobody is closing -/
  | again : h.closed = true → (∀ i, h.phase i ≠ some .quitting) → Step h { h with returned := true }
  /-- `close` on an open connection sends `quit` -/
  | quit (i : ι) : h.closed = false →
      Step h { h with closed := true, phase := Function.update h.phase i (some .quitting) }
  /-- and closes the transport, at once or later -/
  | release (i : ι) : (h.closed = false ∨ h.phase i = some .quitting) →
      Step h { h with
        closed := true, lost := true, released := true
        phase := Function.update h.phase i (some .releasing) }
  | releaseReturn (i : ι) : (h.closed = false ∨ h.phase i = some .quitting) →
      Step h { h with
        closed := true, lost := true, released := true, returned := true
        phase := Function.update h.phase i none }
  /-- the end of the transport is there, or the task is cancelled -/
  | done (i : ι) : h.phase i = some .releasing →
      Step h { h with returned := true, phase := Function.update h.phase i none }
  | cancelled (i : ι) : h.phase i = some .releasing →
      Step h { h with phase := Function.update h.phase i none }

structure Ok (h : Hold ι) : Prop where
  lost : h.lost = h.released
  opened : h.closed = false → h.released = false ∧ h.returned = false
  returned : h.returned = true → h.released = true
  /-- a closed connection with its transport open: somebody is sending `quit` -/
  held : h.closed = true → h.released = false → ∃ i, h.phase i = some .quitting
  closing : ∀ i p, h.phase i = some p → h.closed = true
  releasing : ∀ i, h.phase i = some .releasing → h.released = true

theorem update_phase {h : Hold ι} {i j : ι} {q : Option Phase} {p : Phase}
    (hj : Function.update h.phase i q j = some p) : q = some p ∨ h.phase j = some p := by
  by_cases e : j = i
  · rw [e, Function.update_self] at hj
    exact Or.inl hj
  · rw [Function.update_of_ne e] at hj
    exact Or.inr hj

/-- **Every step keeps the invariant.** -/
theorem Step.ok {h h' : Hold ι} (hs : Step h h') (hok : Ok h) : Ok h' := by
  cases hs with
  | still => exact hok
  | again hc hno =>
    refine ⟨hok.lost, fun e => ?_, fun _ => ?_, hok.held, hok.closing, hok.releasing⟩
    · exact absurd (hc.symm.trans e) (by decide)
    · by_contra hr
      obtain ⟨i, hi⟩ := hok.held hc (Bool.eq_false_iff.mpr hr)
      exact hno i hi
  | quit i hc =>
    refine ⟨hok.lost, nofun, hok.returned, fun _ _ => ⟨i, Function.update_self ..⟩,
      fun _ _ _ => rfl, fun j hj => ?_⟩
    rcases update_phase hj with e | hj
    · cases e
    · exact hok.releasing j hj
  | release i _ => exact ⟨rfl, nofun, fun _ => rfl, nofun, fun _ _ _ => rfl, fun _ _ => rfl⟩
  | releaseReturn i _ => exact ⟨rfl, nofun, fun _ => rfl, nofun, fun _ _ _ => rfl, fun _ _ => rfl⟩
  | done i hi =>
    have hc := hok.closing i _ hi
    have hr := hok.releasing i hi
    refine ⟨hok.lost, fun e => ?_, fun _ => hr, fun _ e => ?_, fun _ _ _ => hc, fun _ _ => hr⟩
    · exact absurd (hc.symm.trans e) (by decide)
    · exact absurd (hr.symm.trans e) (by decide)
  | cancelled i hi =>
    have hc := hok.closing i _ hi
    have hr := hok.releasing i hi
    refine ⟨hok.lost, fun e => ?_, fun _ => hr, fun _ e => ?_, fun _ _ _ => hc, fun _ _ => hr⟩
    · exact absurd (hc.symm.trans e) (by decide)
    · exact absurd (hr.symm.trans e) (by decide)

end Hold
end Atsq
