import Atsq.Client.Reading

/-!
# What the handlers of a lone `run_forever` get

* `HandledInOrder`   the events of all connections, one after the other, each of them once.

Main result: `handled_in_order`.
-/

namespace Atsq
open Py

namespace Dispatcher
variable {H : Type}

def handled (s : Dispatcher H) (n : Nat) : List Event := (s.delivered n).map Delivery.event

/-- one `run_forever` makes all connections and reads them, and nobody else waits for events -/
def OnlyLoop (n : Nat) (s : Dispatcher H) : DispatchAction H → Prop
  | .client a => s.client.OnlyLoop n a
  | _ => True

structure HandledInOrder (s : Dispatcher H) (n : Nat) : Prop where
  /-- what left the queues and was not dropped went to `_dispatch`, in the same order, but for the
  event that the loop has got and did not run on with yet -/
  ordered : s.handled n ++ (s.client.eventOf n).toList = s.client.taken
  /-- a connection published what left its queue and what is still there, in this order -/
  account : ∀ (i : Nat) (c : Conn), s.client.links[i]? = some (.live c) →
    c.published = c.removed.map Prod.snd ++ c.queued
  /-- the handlers called are those registered when `_dispatch` was called with the event: all of
  them, but for an event whose `_dispatch` is under way or was cancelled -/
  calls : s.Calls n Delivery.handlers

/-- the `_dispatch` of a loop is called with what the loop has got -/
inductive Hands (s s' : Dispatcher H) (n : Nat) (a : ClientAction) : Prop where
  | resets {onReady : Bool} : a = .run n onReady → s'.handled n = [] → Hands s s' n a
  | hands {e : Event} {ok : Bool} : a = .resumeRun n ok → s.client.eventOf n = some e →
      s'.handled n = s.handled n ++ [e] → Hands s s' n a
  | keeps : (∀ ok, a = .resumeRun n ok → s.client.eventOf n = none) →
      s'.handled n = s.handled n → Hands s s' n a

section
variable {cfg : ClientConfig} {s s' : Dispatcher H} {n : Nat}

theorem handled_congr (h : s'.delivered n = s.delivered n) : s'.handled n = s.handled n :=
  congrArg (List.map Delivery.event) h

theorem handled_update {m : Nat} {ds : List (Delivery H)}
    (hd : s'.delivered = Function.update s.delivered m ds) :
    s'.handled n = if n = m then ds.map Delivery.event else s.handled n := by
  unfold handled
  rw [hd]
  by_cases hn : n = m
  · rw [if_pos hn, hn, Function.update_self]
  · rw [if_neg hn, Function.update_of_ne hn]

theorem after_hands {c : Client} {a : ClientAction} (hs : s.after c a = some s') :
    s'.client = c ∧ Hands s s' n a := by
  cases a with
  | run m onReady =>
    cases hs
    refine ⟨rfl, ?_⟩
    by_cases hn : n = m
    · subst hn
      exact .resets rfl ((handled_update (m := n) rfl).trans (if_pos rfl))
    · exact .keeps (fun ok he => by cases he) ((handled_update (m := m) rfl).trans (if_neg hn))
  | resumeRun m ok =>
    unfold after at hs
    simp only [] at hs
    split at hs
    · rename_i e he
      cases hs
      refine ⟨rfl, ?_⟩
      by_cases hn : n = m
      · subst hn
        refine .hands rfl he ((handled_update (m := n) rfl).trans ((if_pos rfl).trans ?_))
        exact List.map_append
      · refine .keeps (fun ok' he' => ?_) ((handled_update (m := m) rfl).trans (if_neg hn))
        injection he' with hm _
        exact absurd hm.symm hn
    · rename_i he
      split at hs
      · cases hs
      · cases hs
        refine ⟨rfl, .keeps (fun ok' he' => ?_) rfl⟩
        injection he' with hm _
        rw [← hm]
        exact he
  | _ =>
    cases hs
    exact ⟨rfl, .keeps (fun ok he => by cases he) rfl⟩

/-- everything that such a run keeps -/
structure Alone (cfg : ClientConfig) (s : Dispatcher H) (n : Nat) : Prop where
  sound : s.client.Sound cfg
  one : s.client.One (.loop n)
  reading : s.client.Reading n
  consistent : Consistent s
  ordered : s.handled n ++ (s.client.eventOf n).toList = s.client.taken

theorem after_ordered (h : Alone cfg s n) {c : Client} {a : ClientAction}
    (ha : s.client.OnlyLoop n a) (hflow : Client.Flow s.client c n a)
    (hs : s.after c a = some s') :
    s'.handled n ++ (s'.client.eventOf n).toList = s'.client.taken := by
  obtain ⟨hc, hhands⟩ := after_hands (n := n) hs
  have hordered := h.ordered
  rw [hc]
  -- a loop that is called finds no connection, and nothing was handled
  have hsame : (∀ ok, a = .resumeRun n ok → s.client.eventOf n = none) →
      s'.handled n = s.handled n := by
    intro hnone
    cases hhands with
    | @resets onReady he hnil =>
      subst he
      have htaken : s.client.taken = [] := by
        unfold Client.taken
        rw [(h.reading.idle ha.2).1]
        rfl
      rw [htaken, List.append_eq_nil_iff] at hordered
      exact hnil.trans hordered.1.symm
    | hands he hevent _ =>
      rw [hnone _ he] at hevent
      cases hevent
    | keeps _ hkeep => exact hkeep
  cases hflow with
  | @takes e htake hnone hsome =>
    rw [hnone, Option.toList_none, List.append_nil] at hordered
    rw [hsame fun _ _ => hnone, hsome, htake, hordered]
    rfl
  | @hands e ok he hevent htaken hnone =>
    rw [hevent] at hordered
    have hmore : s'.handled n = s.handled n ++ [e] := by
      cases hhands with
      | resets he' _ => cases he.symm.trans he'
      | hands _ hevent' hmore =>
        rw [hevent] at hevent'
        cases hevent'
        exact hmore
      | keeps hno _ => cases hevent.symm.trans (hno ok he)
    rw [hmore, hnone, htaken, ← hordered, Option.toList_none, List.append_nil]
    rfl
  | keeps hno htaken hevent => rw [hsame hno, htaken, hevent, hordered]

theorem client_of_step {a : DispatchAction H} (hs : s.step cfg a = some s') :
    (∃ b c, a = .client b ∧ s.client.step cfg b = some c ∧ s.after c b = some s') ∨
      s'.client = s.client ∧ s'.delivered = s.delivered := by
  cases a with
  | on eventName handler =>
    cases hs
    exact Or.inr ⟨rfl, rfl⟩
  | call m =>
    simp only [step] at hs
    split at hs
    · unfold call at hs
      simp only [] at hs
      split at hs
      · cases hs
        exact Or.inr ⟨rfl, rfl⟩
      · cases hs
    · cases hs
  | ended m raised =>
    simp only [step] at hs
    split at hs
    · unfold ended at hs
      simp only [] at hs
      split at hs
      · cases hs
        exact Or.inr ⟨rfl, rfl⟩
      · cases hs
    · cases hs
  | client b =>
    obtain ⟨c, hc, hs⟩ := Option.bind_eq_some_iff.mp hs
    exact Or.inl ⟨b, c, rfl, hc, hs⟩

/-- **Every step.** -/
theorem step_alone {a : DispatchAction H} (h : Alone cfg s n) (ha : OnlyLoop n s a)
    (hs : s.step cfg a = some s') : Alone cfg s' n := by
  have hconsistent := step_consistent h.consistent hs
  rcases client_of_step hs with ⟨b, c, rfl, hc, hs⟩ | ⟨hclient, hdelivered⟩
  · obtain ⟨hreading, hflow⟩ := Client.step_flow h.sound h.one h.reading ha hc
    have hordered := after_ordered h ha hflow hs
    have hclient := (after_hands (n := n) hs).1
    have hsound := Client.step_sound h.sound hc
    have hone := Client.step_one h.sound.tidy h.sound.owned h.one ha.sole hc
    exact ⟨hclient ▸ hsound, hclient ▸ hone, hclient ▸ hreading, hconsistent, hordered⟩
  · refine ⟨hclient ▸ h.sound, hclient ▸ h.one, hclient ▸ h.reading, hconsistent, ?_⟩
    rw [hclient, handled_congr (congrFun hdelivered n)]
    exact h.ordered

theorem alone_init (n : Nat) : Alone cfg ({} : Dispatcher H) n :=
  ⟨Client.sound_init, Client.one_init _, Client.reading_init n,
    consistent_init, rfl⟩

/-- **The handlers of a lone `run_forever` get each event once, in order**, in every run, however
often the connection is lost and made again, whatever handlers raise, and whoever closes the client
or cancels the loop: what went to `_dispatch` is what was taken from the first connection, then
from the second one, and so on; each connection hands out what it published in its order, where
only the queue's eviction leaves something out; and each event calls the handlers of its name, then
those of all events, unless the loop is cancelled meanwhile. -/
theorem handled_in_order (h : Sys.Reach (step cfg) (OnlyLoop n) {} s) : HandledInOrder s n := by
  have hall : Alone cfg s n := h.inv (alone_init n) fun _ _ _ hi ha hs => step_alone hi ha hs
  exact ⟨hall.ordered, fun i c hl => (hall.sound.tidy.base i c hl).ledger.history,
    hall.consistent.calls n⟩

end

/-- as a check: nothing but the loop 0 makes connections and waits for events -/
def onlyLoopCheck (s : Dispatcher H) : DispatchAction H → Bool
  | .client (.start _) => false
  | .client (.run m _) => m == 0 && match (s.client.runs 0).pc with | .idle => true | _ => false
  | .client (.link _ (.wait _ _)) => false
  | _ => true

theorem onlyLoop_of_check (s : Dispatcher H) (a : DispatchAction H)
    (h : onlyLoopCheck s a = true) : OnlyLoop 0 s a := by
  unfold onlyLoopCheck at h
  split at h
  · cases h
  · rw [Bool.and_eq_true, beq_iff_eq] at h
    refine ⟨h.1, ?_⟩
    split at h
    · assumption
    · cases h.2
  · cases h
  · rename_i a' hstart hrun hwait
    cases a with
    | client b =>
      cases b with
      | start m => exact absurd rfl (hstart m)
      | run m onReady => exact absurd rfl (hrun m onReady)
      | link i b =>
        cases b with
        | wait m d => exact absurd rfl (hwait i m d)
        | _ => exact trivial
      | _ => exact trivial
    | _ => exact trivial

/-- the handler raises for the first event, the second one comes before the peer goes away, and the
third one on the next connection -/
def reconnectRun : List (DispatchAction Nat) :=
  .on (lit "x") 1 :: eventRun (ascii "notifyx n=1") ++
    [.call 0, .ended 0 true, .client (.link 0 (.recv (ascii "notifyx n=2"))),
      .client (.link 0 .eof), .client (.resumeRun 0 true), .client (.resumeRun 0 true), .call 0,
      .ended 0 false, .client (.resumeRun 0 true), .client (.resumeRun 0 true),
      .client (.resumeRun 0 true), .client (.connected (.loop 0)),
      .client (.greet (.loop 0) (ascii "TS3")), .client (.greet (.loop 0) (ascii "Hi")),
      .client (.resumeRun 0 true), .client (.link 1 (.recv (ascii "notifyx n=3"))),
      .client (.link 1 (.resumeWait 0)), .client (.resumeRun 0 true), .call 0, .ended 0 false]

theorem handled_in_order_reconnect :
    ∃ s, Sys.run (step {}) {} reconnectRun = some s ∧
      (s.handled 0).map Event.raw =
        [ascii "notifyx n=1", ascii "notifyx n=2", ascii "notifyx n=3"] ∧
      HandledInOrder s 0 := by
  obtain ⟨s, hs, h⟩ := Sys.exists_reach_of_guard (step {}) (OnlyLoop 0) onlyLoopCheck {}
    reconnectRun onlyLoop_of_check (by decide +kernel)
  exact ⟨s, hs,
    Sys.eq_of_run_map (f := fun s : Dispatcher Nat => (s.handled 0).map Event.raw) hs
      (by decide +kernel), handled_in_order h⟩

end Dispatcher
end Atsq
