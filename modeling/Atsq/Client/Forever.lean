import Atsq.Client.Called
import Atsq.Lib.Case

/-!
# The turns of `run_forever`

The local variables of the tasks inside `run_forever`, over the client.

* `Loop`     the variables of one task, and the history of its run;
* `Forever`  a client and its loops; `step` is the state after an action.

A loop still may wake up at any time: a wait is recorded, not waited for.
-/

namespace Atsq
open Py

structure Delays where
  initialDelay : ℚ := 5
  maxDelay : ℚ := 300
  bannedDelay : ℚ := 300
deriving DecidableEq

/-- the end of a turn of the loop: whether `start` returned in it, the text of the exception that
ended it, and the delay until the next turn -/
structure Turn where
  started : Bool
  error : Option Str
  wait : ℚ

/-- the variables of `run_forever`; history are whether `start` returned since the last wait, the
connections for which `on_ready` returned, and the turns, the last one first -/
structure Loop where
  args : Delays := {}
  delay : ℚ := 5
  started : Bool := false
  ready : List Nat := []
  turns : List Turn := []

structure Forever where
  client : Client := {}
  loops : Nat → Loop := fun _ => {}

inductive ForeverAction where
  | run (n : Nat) (onReady : Bool) (args : Delays)
  /-- a `run_forever` goes on; `error` is the text of the exception if there is one -/
  | resume (n : Nat) (ok : Bool) (error : Str)
  | client (a : ClientAction)

/-- `_is_banned` -/
def isBanned (other : Lowering) (error : Str) : Bool := decide (lit "banned" <:+: lower other error)

namespace Loop

def resumed (l : Loop) (s : Client) (n : Nat) (ok : Bool) : Loop :=
  match (s.runs n).pc with
  | .starting =>
    match s.starts (.loop n) with
    | .returned _ => { l with delay := l.args.initialDelay, started := true }
    | _ => l
  | .onReady i => if ok then { l with ready := i :: l.ready } else l
  | .sleeping => { l with delay := min l.args.maxDelay (l.delay * 2), started := false }
  | _ => l

/-- the wait at the end of a turn -/
def waits (other : Lowering) (l : Loop) (error : Option Str) : Loop :=
  let wait := if error.any (isBanned other) then l.args.bannedDelay else l.delay
  { l with turns := { started := l.started, error := error, wait := wait } :: l.turns }

end Loop

namespace Forever

/-- the exception that ends the turn, if the loop does not go on; events end without one -/
def error (s : Client) (n : Nat) (text : Str) : Option Str :=
  match (s.runs n).pc with
  | .events _ => none
  | _ => some text

def step (other : Lowering) (cfg : ClientConfig) (s : Forever) : ForeverAction → Option Forever
  | .run n onReady args =>
    (s.client.step cfg (.run n onReady)).map fun c =>
      { client := c
        loops := Function.update s.loops n { args := args, delay := args.initialDelay } }
  | .resume n ok text =>
    (s.client.step cfg (.resumeRun n ok)).map fun c =>
      let l := (s.loops n).resumed s.client n ok
      let l := match (c.runs n).pc with
        | .sleeping => l.waits other (error s.client n text)
        | _ => l
      { client := c, loops := Function.update s.loops n l }
  | .client a =>
    match a with
    | .run .. | .resumeRun .. => none
    | _ => (s.client.step cfg a).map fun c => { s with client := c }

end Forever

/-! ## how a loop goes on -/

namespace Client

section
variable {cfg : ClientConfig} {s s' : Client} {n : Nat} {ok : Bool}

/-- the loop `n` is now here, and the loops have the callbacks they were called with -/
structure Moved (s s' : Client) (n : Nat) (pc : RunPc) : Prop where
  pc : (s'.runs n).pc = pc
  onReady : ∀ m, (s'.runs m).onReady = (s.runs m).onReady

theorem moved_setRun {s₁ : Client} (h : s₁.runs = s.runs) (n : Nat) (pc : RunPc) :
    Moved s (s₁.setRun n pc) n pc := by
  refine ⟨?_, fun m => ?_⟩
  · show (Function.update s₁.runs n _ n).pc = pc
    rw [Function.update_self]
  · show (Function.update s₁.runs n _ m).onReady = _
    by_cases hm : m = n
    · rw [hm, Function.update_self, h]
    · rw [Function.update_of_ne hm, h]

theorem LoopEffect.moved {pc : RunPc} (h : LoopEffect cfg s n pc s') : Moved s s' n pc := by
  cases h with
  | stays => exact moved_setRun rfl n _
  | @waits i _ c' _ _ =>
    have hruns : (s.setLink i (.live c')).runs = s.runs := rfl
    exact moved_setRun hruns n _
  | calls =>
    have hruns : (s.setStart (.loop n) .factory).runs = s.runs := rfl
    exact moved_setRun hruns n _

theorem run_enters {onReady : Bool} (hs : s.step cfg (.run n onReady) = some s') :
    (s.runs n).pc.free = true ∧ Enters s (s'.runs n).pc ∧ (s'.runs n).onReady = onReady := by
  cases step_cases hs with
  | run hfree henters hloop =>
    refine ⟨hfree, ?_, ?_⟩
    · rw [hloop.moved.pc]
      exact henters
    · rw [hloop.moved.onReady n]
      show (Function.update s.runs n { onReady := onReady } n).onReady = onReady
      rw [Function.update_self]
  | sends ha _ _ => cases ha
  | returns ha _ => cases ha
  | fails ha _ _ _ => cases ha

theorem resumeRun_goes (hs : s.step cfg (.resumeRun n ok) = some s') :
    ∃ pc, Moved s s' n pc ∧ Goes s n ok (s.runs n).pc pc := by
  cases step_cases hs with
  | resumes _ hgoes hloop => exact ⟨_, hloop.moved, hgoes⟩
  | sends ha _ _ => cases ha
  | returns ha _ => cases ha
  | fails ha _ _ _ => cases ha

theorem cancelRun_finished (hs : s.step cfg (.cancelRun n) = some s') :
    (s'.runs n).pc = .finished := by
  cases step_cases hs with
  | cancelRun _ => exact (moved_setRun rfl n .finished).pc
  | sends ha _ _ => cases ha
  | returns ha _ => cases ha
  | fails ha _ _ _ => cases ha

end

end Client

namespace Forever
open Client

/-- what a step can do to one loop -/
inductive LoopMove (other : Lowering) (s s' : Forever) (a : ForeverAction) (n : Nat) : Prop where
  | still : s'.loops n = s.loops n → s'.client.runs n = s.client.runs n → LoopMove other s s' a n
  | stops : s'.loops n = s.loops n → (s'.client.runs n).pc = .finished → LoopMove other s s' a n
  | begins {onReady : Bool} {args : Delays} : a = .run n onReady args →
      s'.loops n = { args := args, delay := args.initialDelay } →
      Enters s.client (s'.client.runs n).pc → (s'.client.runs n).onReady = onReady →
      LoopMove other s s' a n
  | sleeps {ok : Bool} {error : Option Str} :
      s'.loops n = ((s.loops n).resumed s.client n ok).waits other error →
      Goes s.client n ok (s.client.runs n).pc .sleeping → (s'.client.runs n).pc = .sleeping →
      LoopMove other s s' a n
  | goes {ok : Bool} {text : Str} : a = .resume n ok text →
      s'.loops n = (s.loops n).resumed s.client n ok →
      Goes s.client n ok (s.client.runs n).pc (s'.client.runs n).pc →
      (s'.client.runs n).pc ≠ .sleeping → (s'.client.runs n).onReady = (s.client.runs n).onReady →
      LoopMove other s s' a n

section
variable {other : Lowering} {cfg : ClientConfig} {s s' : Forever} {a : ForeverAction}

theorem step_client (hs : s.step other cfg a = some s') :
    ∃ b, s.client.step cfg b = some s'.client := by
  cases a with
  | run n onReady args =>
    obtain ⟨c, hc, rfl⟩ := Option.map_eq_some_iff.mp hs
    exact ⟨_, hc⟩
  | resume n ok text =>
    obtain ⟨c, hc, rfl⟩ := Option.map_eq_some_iff.mp hs
    exact ⟨_, hc⟩
  | client b =>
    simp only [step] at hs
    split at hs
    · cases hs
    · cases hs
    · obtain ⟨c, hc, rfl⟩ := Option.map_eq_some_iff.mp hs
      exact ⟨_, hc⟩

/-- **What a step does to the variables of a loop.** -/
theorem step_loop (h : Owned s.client) (hs : s.step other cfg a = some s') (n : Nat) :
    LoopMove other s s' a n := by
  cases a with
  | run m onReady args =>
    obtain ⟨c, hc, rfl⟩ := Option.map_eq_some_iff.mp hs
    by_cases hn : n = m
    · subst hn
      obtain ⟨_, henters, hready⟩ := run_enters hc
      exact .begins rfl (Function.update_self ..) henters hready
    · have hm : some m ≠ some n := fun e => hn (Option.some.inj e).symm
      exact .still (Function.update_of_ne hn ..) ((step_moves h hc).runs n hm)
  | resume m ok text =>
    obtain ⟨c, hc, rfl⟩ := Option.map_eq_some_iff.mp hs
    by_cases hn : n = m
    · subst hn
      obtain ⟨pc, hmoved, hgoes⟩ := resumeRun_goes hc
      rw [← hmoved.pc] at hgoes
      by_cases hpc : (c.runs n).pc = .sleeping
      · refine .sleeps (?_ : _ = Loop.waits other _ (error s.client n text)) (hpc ▸ hgoes) hpc
        show Function.update s.loops n _ n = _
        rw [Function.update_self, hpc]
      · refine .goes rfl ?_ hgoes hpc (hmoved.onReady n)
        show Function.update s.loops n _ n = _
        rw [Function.update_self]
        split
        · exact absurd ‹_› hpc
        · rfl
    · have hm : some m ≠ some n := fun e => hn (Option.some.inj e).symm
      exact .still (Function.update_of_ne hn ..) ((step_moves h hc).runs n hm)
  | client b =>
    simp only [step] at hs
    split at hs
    · cases hs
    · cases hs
    · rename_i hrun hresume
      obtain ⟨c, hc, rfl⟩ := Option.map_eq_some_iff.mp hs
      by_cases hb : b.loop = some n
      · have hcancel : b = .cancelRun n := by
          cases b with
          | run m onReady => exact absurd rfl (hrun m onReady)
          | resumeRun m ok => exact absurd rfl (hresume m ok)
          | cancelRun m =>
            cases hb
            rfl
          | _ => cases hb
        rw [hcancel] at hc
        exact .stops rfl (cancelRun_finished hc)
      · exact .still rfl ((step_moves h hc).runs n hb)

end

end Forever
end Atsq
