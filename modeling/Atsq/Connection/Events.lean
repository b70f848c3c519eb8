import Atsq.Connection.Frame

/-!
# Events in every run

`Delivery cfg s` collects what holds of the events of a connection: where each of them is, in which
order they are delivered, and what the next step can do to them.

Main result: `events_delivered`.
-/

namespace Atsq
open Py

namespace Conn

structure DeliveryStep (cfg : Config) (s : Conn) (a : Action) (s' : Conn) : Prop where
  /-- a step removes the oldest queued event, or none -/
  oldest : s'.removed = s.removed ∨ ∃ fate e, s'.removed = s.removed ++ [(fate, e)] ∧
    s.eventQueue.items.head? = some (.event e)
  /-- and evicts it only from a full queue before the shutdown -/
  full : ∀ e, s'.removed = s.removed ++ [(Fate.evicted, e)] →
    (s.eventQueue.items.length : Int) = cfg.eventQueueSize ∧ s.closed = false
  /-- what is delivered is what a consumer returns -/
  returned : ∀ e, (∃ n, a.consumer = some n ∧ (s'.waits n).pc = .finished (.event e)) ↔
    s'.removed = s.removed ++ [(Fate.delivered, e)]
  /-- a consumer sees the end after all events -/
  last : ∀ n, a.consumer = some n → (s'.waits n).pc = .finished .connectionClosed →
    s.closed = true ∧ s.queued = []

structure Delivery (cfg : Config) (s : Conn) : Prop where
  /-- every event was delivered, was evicted, or is queued -/
  account : s.published = s.removed.map Prod.snd ++ s.queued
  ordered : (s.deliveredEvents ++ s.queued).Sublist s.published
  suffix : s.queued <:+ s.published
  bounded : (s.eventQueue.items.length : Int) ≤ cfg.eventQueueSize
  rounds : ∀ x, s.eventQueue.rounds x ≤ 2
  step : ∀ a s', s.step cfg a = some s' → DeliveryStep cfg s a s'

theorem reach_maxsize {cfg : Config} {C : Conn → Action → Prop} {greeting : List Bytes} {s : Conn}
    (h : Sys.Reach (step cfg) C (started cfg greeting) s) :
    s.eventQueue.maxsize = cfg.eventQueueSize := by
  have hb : Base s ∧ s.eventQueue.maxsize = cfg.eventQueueSize := by
    refine h.inv (I := fun s => Base s ∧ s.eventQueue.maxsize = cfg.eventQueueSize)
      ⟨base_started cfg greeting, rfl⟩ fun s a s' hi _ hs => ⟨step_base hi.1 hs, ?_⟩
    rcases (step_effect hi.1.tasks hs).step_feed with ⟨hf, _⟩ | ⟨fa, hf, _⟩
    · exact (congrArg (fun f : Feed => f.eventQueue.maxsize) hf).trans hi.2
    · exact (Feed.step_maxsize hf).trans hi.2
  exact hb.2

theorem deliveryStep {cfg : Config} {s s' : Conn} {a : Action} (hb : Base s)
    (hm : s.eventQueue.maxsize = cfg.eventQueueSize) (hs : s.step cfg a = some s') :
    DeliveryStep cfg s a s' := by
  have hnil : ∀ {r : List (Fate × Event)} {x : Fate × Event}, r ≠ r ++ [x] := by
    intro r x hr
    have := congrArg List.length hr
    rw [List.length_append, List.length_singleton] at this
    omega
  rcases (step_effect hb.tasks hs).step_feed with ⟨hf, ha⟩ | ⟨fa, hf, ha⟩
  · have hr : s'.removed = s.removed := congrArg Feed.removed hf
    refine ⟨Or.inl hr, fun e he => ?_, fun e => ⟨?_, fun he => ?_⟩, fun n hn => ?_⟩
    · exact absurd (hr.symm.trans he) hnil
    · rintro ⟨n, hn, _⟩
      rw [ha] at hn
      cases hn
    · exact absurd (hr.symm.trans he) hnil
    · rw [ha] at hn
      cases hn
  · have hremoved := Feed.step_removed hb.ledger hf
    refine ⟨?_, fun e he => ?_, fun e => ?_, fun n hn hpc => ?_⟩
    · rcases hremoved with hr | ⟨e, hr, hh⟩ | ⟨e, hr, hh, _⟩
      · exact Or.inl hr
      · exact Or.inr ⟨.delivered, e, hr, hh⟩
      · exact Or.inr ⟨.evicted, e, hr, hh⟩
    · rcases hremoved with hr | ⟨e', hr, _⟩ | ⟨e', hr, _, hfull, hc⟩
      · exact absurd (hr.symm.trans he) hnil
      · cases List.append_cancel_left (hr.symm.trans he)
      · obtain ⟨hpos, hle⟩ := (Aio.Queue.full_iff _).mp hfull
        refine ⟨?_, hc⟩
        rw [← hm]
        exact le_antisymm (hb.ledger.bound hpos) hle
    · rw [← ha]
      exact Feed.step_delivers hb.ledger hf e
    · exact Feed.connectionClosed_of_step hb.ledger hf (ha.trans hn) hpc

/-- **Event delivery is ordered, free of duplicates, and loses only the oldest.** -/
theorem events_delivered {cfg : Config} {greeting : List Bytes} {s : Conn}
    (hn : 1 ≤ cfg.eventQueueSize) (h : Sys.Reach (step cfg) anyStep (started cfg greeting) s) :
    Delivery cfg s := by
  have hb := reach_base h
  have hm := reach_maxsize h
  refine ⟨hb.ledger.history, ?_, ?_, ?_, fun x => ?_, fun a s' hs => deliveryStep hb hm hs⟩
  · rw [hb.ledger.history]
    exact (List.filter_sublist.map Prod.snd).append_right _
  · rw [hb.ledger.history]
    exact List.suffix_append _ _
  · have := hb.ledger.bound (by rw [hm]; omega)
    rwa [hm] at this
  · exact Aio.Queue.rounds_le_two _ x hb.ledger.bound

/-- two notifications for a queue of one: the second stays -/
theorem events_delivered_overflow :
    ∃ s, Sys.run (step { eventQueueSize := 1 }) (started { eventQueueSize := 1 } [])
        [.recv (ascii "notifya"), .recv (ascii "notifyb"), .wait 0 none, .eof, .wait 0 none]
          = some s ∧ Delivery { eventQueueSize := 1 } s := by
  obtain ⟨s, hs, h⟩ := Sys.exists_reach (step { eventQueueSize := 1 }) anyStep
    (started { eventQueueSize := 1 } [])
    [.recv (ascii "notifya"), .recv (ascii "notifyb"), .wait 0 none, .eof, .wait 0 none]
    (fun _ _ => trivial) (by decide +kernel)
  exact ⟨s, hs, events_delivered (by decide) h⟩

end Conn
end Atsq
