import Atsq.Client.Forever

/-!
# Handlers and the events of `run_forever`

* `Dispatcher`  a client with its handlers and the `_dispatch` of each loop; `H` are the handlers;
* `Delivery`    history: an event that was delivered, and the registrations so far;
* `Calls`       the calls are those that the deliveries ask for, as far as `_dispatch` has come;
* `Exactly`     so they are where each registration is asked for once.

Main results: `dispatch_exact`, and `wildcard_called_twice`, a run that breaks it.
-/

namespace Atsq
open Py

/-- `ANY_EVENT` -/
def anyEvent : Str := lit "*"

/-- a `_dispatch` under way; `running` tells whether a handler is being called -/
structure Frame (H : Type) where
  event : Event := { name := [], rows := [], raw := [] }
  rest : List H := []
  running : Bool := false

structure Delivery (H : Type) where
  event : Event
  registrations : List (Str × H)

structure Dispatcher (H : Type) where
  client : Client := {}
  handlers : List (Str × List H) := []
  frames : Nat → Frame H := fun _ => {}
  /-- history: the calls of `on` -/
  registrations : List (Str × H) := []
  /-- history: the events that a `run_forever` got -/
  delivered : Nat → List (Delivery H) := fun _ => []
  /-- history: the calls of handlers, with their events -/
  calls : Nat → List (Event × H) := fun _ => []
  /-- history: the loops that were cancelled inside `_dispatch` -/
  cut : Nat → Bool := fun _ => false

inductive DispatchAction (H : Type) where
  | on (eventName : Str) (handler : H)
  | call (n : Nat)
  | ended (n : Nat) (raised : Bool)
  | client (a : ClientAction)

/-- the event that a loop has got -/
def Client.eventOf (s : Client) (n : Nat) : Option Event :=
  match (s.runs n).pc with
  | .events i =>
    match s.links[i]? with
    | some (.live c) =>
      match (c.waits (inside n)).pc with
      | .finished (.event event) => some event
      | _ => none
    | _ => none
  | _ => none

def RunPc.dispatches : RunPc → Bool
  | .dispatching _ => true
  | _ => false

namespace Dispatcher
variable {H : Type}

/-- `self._handlers.get(name, [])` -/
def get (s : Dispatcher H) (name : Str) : List H := (getItem s.handlers name).getD []

def on (s : Dispatcher H) (eventName : Str) (handler : H) : Dispatcher H :=
  { s with
    handlers := setItem s.handlers eventName (s.get eventName ++ [handler])
    registrations := s.registrations ++ [(eventName, handler)] }

def dispatch (s : Dispatcher H) (n : Nat) (event : Event) : Dispatcher H :=
  let handlers := s.get event.name ++ s.get anyEvent
  { s with
    frames := Function.update s.frames n { event := event, rest := handlers }
    delivered := Function.update s.delivered n
      (s.delivered n ++ [{ event := event, registrations := s.registrations }]) }

/-- the next round of the loop in `_dispatch` -/
def call (s : Dispatcher H) (n : Nat) : Option (Dispatcher H) :=
  let f := s.frames n
  match f.running, f.rest with
  | false, handler :: rest =>
    some { s with
      frames := Function.update s.frames n { f with rest := rest, running := true }
      calls := Function.update s.calls n (s.calls n ++ [(f.event, handler)]) }
  | _, _ => none

/-- `except Exception`: the loop goes on in either case -/
def ended (s : Dispatcher H) (n : Nat) (_raised : Bool) : Option (Dispatcher H) :=
  let f := s.frames n
  if f.running then
    some { s with frames := Function.update s.frames n { f with running := false } }
  else none

/-- a loop takes its event to `_dispatch`, and waits for the next one when that has returned -/
def after (s : Dispatcher H) (c : Client) : ClientAction → Option (Dispatcher H)
  | .run n _ =>
    some { s with
      client := c
      frames := Function.update s.frames n {}
      delivered := Function.update s.delivered n []
      calls := Function.update s.calls n []
      cut := Function.update s.cut n false }
  | .resumeRun n _ =>
    match s.client.eventOf n with
    | some event => some ({ s with client := c }.dispatch n event)
    | none =>
      if (s.client.runs n).pc.dispatches && ((s.frames n).running || !(s.frames n).rest.isEmpty)
      then none
      else some { s with client := c }
  | .cancelRun n =>
    some { s with
      client := c
      cut := Function.update s.cut n (s.client.runs n).pc.dispatches }
  | _ => some { s with client := c }

def step (cfg : ClientConfig) (s : Dispatcher H) : DispatchAction H → Option (Dispatcher H)
  | .on eventName handler => some (s.on eventName handler)
  | .call n => if (s.client.runs n).pc.dispatches then s.call n else none
  | .ended n raised => if (s.client.runs n).pc.dispatches then s.ended n raised else none
  | .client a => (s.client.step cfg a).bind fun c => s.after c a

end Dispatcher

/-! ## what the deliveries ask for -/

section
variable {H : Type}

/-- the handlers registered under a name, in the order of their registration -/
def under (name : Str) (rs : List (Str × H)) : List H :=
  (rs.filter fun r => r.1 = name).map Prod.snd

/-- each registration under the name of the event, and each other one under `"*"` -/
def Delivery.expected (d : Delivery H) : List H :=
  under d.event.name d.registrations
    ++ (d.registrations.filter fun r => r.1 = anyEvent ∧ r.1 ≠ d.event.name).map Prod.snd

def Delivery.handlers (d : Delivery H) : List H :=
  under d.event.name d.registrations ++ under anyEvent d.registrations

/-- the event is not named like the wildcard, or nothing is registered there -/
def Delivery.Plain (d : Delivery H) : Prop :=
  d.event.name ≠ anyEvent ∨ under anyEvent d.registrations = []

def asked (f : Delivery H → List H) (ds : List (Delivery H)) : List (Event × H) :=
  ds.flatMap fun d => (f d).map (d.event, ·)

/-- a `_dispatch` of the loop has not returned: it is under way, or it was cancelled -/
def Dispatcher.unfinished (s : Dispatcher H) (n : Nat) : Bool :=
  (s.client.runs n).pc.dispatches || s.cut n

/-- the handlers called, against those that the deliveries ask for -/
structure Dispatcher.Calls (s : Dispatcher H) (n : Nat) (f : Delivery H → List H) : Prop where
  /-- none is skipped, repeated or called out of order -/
  ordered : s.calls n <+: asked f (s.delivered n)
  /-- all of the events before the last one have been called -/
  earlier : asked f (s.delivered n).dropLast <+: s.calls n
  /-- and all of the last one, if its `_dispatch` has returned -/
  complete : s.unfinished n = false → s.calls n = asked f (s.delivered n)

/-- **Complete, ordered and isolated**: event by event, each registration once. -/
def Dispatcher.Exactly (s : Dispatcher H) (n : Nat) : Prop := s.Calls n Delivery.expected

theorem under_append (name : Str) (rs : List (Str × H)) (r : Str × H) :
    under name (rs ++ [r]) = under name rs ++ if r.1 = name then [r.2] else [] := by
  unfold under
  rw [List.filter_append, List.map_append]
  by_cases h : r.1 = name
  · rw [if_pos h, List.filter_cons_of_pos (by simpa using h)]
    rfl
  · rw [if_neg h, List.filter_cons_of_neg (by simpa using h)]
    rfl

theorem others_eq (d : Delivery H) :
    (d.registrations.filter fun r => r.1 = anyEvent ∧ r.1 ≠ d.event.name).map Prod.snd
      = if d.event.name = anyEvent then [] else under anyEvent d.registrations := by
  by_cases h : d.event.name = anyEvent
  · rw [if_pos h, h]
    have hnone : (d.registrations.filter fun r => r.1 = anyEvent ∧ r.1 ≠ anyEvent) = [] := by
      rw [List.filter_eq_nil_iff]
      intro r _
      simp
    rw [hnone]
    rfl
  · rw [if_neg h]
    unfold under
    congr 1
    refine List.filter_congr fun r _ => ?_
    have hne : r.1 = anyEvent → r.1 ≠ d.event.name := fun e hn => h (hn.symm.trans e)
    simpa using hne

theorem handlers_of_plain {d : Delivery H} (h : d.Plain) : d.handlers = d.expected := by
  unfold Delivery.handlers Delivery.expected
  rw [others_eq]
  rcases h with h | h
  · rw [if_neg h]
  · rw [h, ite_self]

theorem expected_length_le (d : Delivery H) : d.expected.length ≤ d.handlers.length := by
  unfold Delivery.handlers Delivery.expected
  rw [others_eq, List.length_append, List.length_append]
  split
  · exact Nat.add_le_add_left (Nat.zero_le _) _
  · exact Nat.le_refl _

theorem plain_of_length {d : Delivery H} (h : d.handlers.length = d.expected.length) : d.Plain := by
  unfold Delivery.handlers Delivery.expected at h
  rw [others_eq, List.length_append, List.length_append] at h
  by_cases hname : d.event.name = anyEvent
  · rw [if_pos hname, List.length_nil] at h
    exact Or.inr (List.length_eq_zero_iff.mp (by omega))
  · exact Or.inl hname

/-- lists joined piece by piece, each piece at least as long, are equal only if the pieces are -/
theorem length_eq_of_flatMap_eq {α β : Type} {l : List α} {f g : α → List β}
    (hle : ∀ x ∈ l, (g x).length ≤ (f x).length) (h : l.flatMap f = l.flatMap g) :
    ∀ x ∈ l, (f x).length = (g x).length := by
  have hsum : ∀ m : List α, (∀ x ∈ m, (g x).length ≤ (f x).length) →
      (m.flatMap g).length ≤ (m.flatMap f).length := by
    intro m hm
    induction m with
    | nil => exact Nat.le_refl _
    | cons x m ih =>
      rw [List.flatMap_cons, List.flatMap_cons, List.length_append, List.length_append]
      exact Nat.add_le_add (hm x List.mem_cons_self)
        (ih fun y hy => hm y (List.mem_cons_of_mem _ hy))
  induction l with
  | nil => exact fun x hx => absurd hx List.not_mem_nil
  | cons x l ih =>
    have hl : ∀ y ∈ l, (g y).length ≤ (f y).length := fun y hy =>
      hle y (List.mem_cons_of_mem _ hy)
    rw [List.flatMap_cons, List.flatMap_cons] at h
    have hlen := congrArg List.length h
    rw [List.length_append, List.length_append] at hlen
    have hx := hle x List.mem_cons_self
    have hrest := hsum l hl
    have hhead : (f x).length = (g x).length := by omega
    intro y hy
    rcases List.mem_cons.mp hy with rfl | hy
    · exact hhead
    · exact ih hl (List.append_inj_right h hhead) y hy

end

/-! ## every run -/

namespace Dispatcher
open Client

/-- the calls of one loop, those that its `_dispatch` would still make, and the deliveries -/
structure Tally {H : Type} (f : Frame H) (calls : List (Event × H))
    (delivered : List (Delivery H)) : Prop where
  sum : calls ++ f.rest.map (f.event, ·) = asked Delivery.handlers delivered
  earlier : asked Delivery.handlers delivered.dropLast <+: calls

structure Consistent {H : Type} (s : Dispatcher H) : Prop where
  owned : Owned s.client
  registry : ∀ name, s.get name = under name s.registrations
  tally : ∀ n, Tally (s.frames n) (s.calls n) (s.delivered n)
  cut : ∀ n, s.cut n = true → (s.client.runs n).pc.free = true
  returned : ∀ n, s.unfinished n = false → (s.frames n).rest = []

section
variable {H : Type} {cfg : ClientConfig} {s s' : Dispatcher H}

theorem Tally.nil : Tally ({} : Frame H) [] [] := ⟨rfl, List.prefix_rfl⟩

theorem unfinished_eq_false {n : Nat} : s.unfinished n = false ↔
    (s.client.runs n).pc.dispatches = false ∧ s.cut n = false := Bool.or_eq_false_iff

theorem Consistent.calls (h : Consistent s) (n : Nat) : s.Calls n Delivery.handlers := by
  obtain ⟨hsum, hearlier⟩ := h.tally n
  refine ⟨⟨_, hsum⟩, hearlier, fun hdone => ?_⟩
  rw [h.returned n hdone, List.map_nil, List.append_nil] at hsum
  exact hsum

theorem consistent_init : Consistent ({} : Dispatcher H) :=
  ⟨owned_init, fun _ => rfl, fun _ => .nil, fun _ hcut => (by cases hcut), fun _ _ => rfl⟩

theorem on_consistent (h : Consistent s) (eventName : Str) (handler : H) :
    Consistent (s.on eventName handler) := by
  refine ⟨h.owned, fun name => ?_, h.tally, h.cut, h.returned⟩
  show (getItem (setItem s.handlers eventName (s.get eventName ++ [handler])) name).getD []
    = under name (s.registrations ++ [(eventName, handler)])
  rw [getItem_setItem, under_append, ← h.registry name]
  by_cases he : eventName = name
  · rw [if_pos he, if_pos he, he]
    rfl
  · rw [if_neg he, if_neg he, List.append_nil]
    rfl

/-- only the frame, the calls and the deliveries of one loop change, and its calls still add up -/
theorem Consistent.update (h : Consistent s) (n : Nat) (f : Frame H) (calls : List (Event × H))
    (delivered : List (Delivery H)) (htally : Tally f calls delivered)
    (hreturned : s.unfinished n = false → f.rest = []) :
    Consistent { s with
      frames := Function.update s.frames n f
      calls := Function.update s.calls n calls
      delivered := Function.update s.delivered n delivered } := by
  refine ⟨h.owned, h.registry, fun m => ?_, h.cut, fun m => ?_⟩
  · show Tally (Function.update s.frames n f m) (Function.update s.calls n calls m)
      (Function.update s.delivered n delivered m)
    by_cases hm : m = n
    · rw [hm, Function.update_self, Function.update_self, Function.update_self]
      exact htally
    · rw [Function.update_of_ne hm, Function.update_of_ne hm, Function.update_of_ne hm]
      exact h.tally m
  · show s.unfinished m = false → (Function.update s.frames n f m).rest = []
    by_cases hm : m = n
    · rw [hm, Function.update_self]
      exact hreturned
    · rw [Function.update_of_ne hm]
      exact h.returned m

theorem unfinished_of_dispatches {n : Nat} (hpc : (s.client.runs n).pc.dispatches = true) :
    s.unfinished n = true := by
  unfold unfinished
  rw [hpc]
  rfl

theorem call_consistent (h : Consistent s) {n : Nat}
    (hpc : (s.client.runs n).pc.dispatches = true) (hs : s.call n = some s') :
    Consistent s' := by
  unfold call at hs
  simp only [] at hs
  split at hs
  · rename_i handler rest _ hrest
    cases hs
    obtain ⟨hsum, hearlier⟩ := h.tally n
    have hkeep := h.update n { s.frames n with rest := rest, running := true }
      (s.calls n ++ [((s.frames n).event, handler)]) (s.delivered n)
      ⟨?_, hearlier.trans (List.prefix_append _ _)⟩ fun hdone => ?_
    · rwa [Function.update_eq_self] at hkeep
    · rw [← hsum, hrest, List.map_cons, List.append_assoc, List.singleton_append]
    · rw [unfinished_of_dispatches hpc] at hdone
      cases hdone
  · cases hs

theorem ended_consistent (h : Consistent s) {n : Nat} {raised : Bool}
    (hs : s.ended n raised = some s') : Consistent s' := by
  unfold ended at hs
  simp only [] at hs
  split at hs
  · cases hs
    obtain ⟨hsum, hearlier⟩ := h.tally n
    have hkeep := h.update n { s.frames n with running := false } (s.calls n) (s.delivered n)
      ⟨hsum, hearlier⟩ (h.returned n)
    rwa [Function.update_eq_self, Function.update_eq_self] at hkeep
  · cases hs

theorem Consistent.client (h : Consistent s) {c : Client} (howned : Owned c)
    (hcut : ∀ n, s.cut n = true → (c.runs n).pc.free = true)
    (hreturned : ∀ n, (c.runs n).pc.dispatches = false → s.cut n = false →
      (s.frames n).rest = []) : Consistent { s with client := c } :=
  ⟨howned, h.registry, h.tally, hcut, fun n hdone =>
    let ⟨hd, hc⟩ := unfinished_eq_false.mp hdone
    hreturned n hd hc⟩

theorem dispatches_of_event {c : Client} {n : Nat} {ok : Bool} {event : Event}
    (he : s.client.eventOf n = some event) (hs : s.client.resumeRun cfg n ok = some c) :
    (c.runs n).pc.dispatches = true := by
  unfold eventOf at he
  split at he
  · rename_i i hpc
    split at he
    · rename_i d hl
      split at he
      · rename_i hwait
        unfold resumeRun at hs
        simp only [hpc, hl, hwait] at hs
        cases hs
        show (Function.update s.client.runs n _ n).pc.dispatches = true
        rw [Function.update_self]
        rfl
      · cases he
    · cases he
  · cases he

theorem pc_of_event {c : Client} {n : Nat} {event : Event} (he : c.eventOf n = some event) :
    (c.runs n).pc.free = false ∧ (c.runs n).pc.dispatches = false := by
  unfold eventOf at he
  split at he
  · rename_i i hpc
    rw [hpc]
    exact ⟨rfl, rfl⟩
  · cases he

theorem dispatch_consistent (h : Consistent s) {n : Nat} (event : Event)
    (hpc : (s.client.runs n).pc.dispatches = true) (hrest : (s.frames n).rest = []) :
    Consistent (s.dispatch n event) := by
  obtain ⟨hsum, _⟩ := h.tally n
  rw [hrest, List.map_nil, List.append_nil] at hsum
  have hkeep := h.update n { event := event, rest := s.get event.name ++ s.get anyEvent }
    (s.calls n) (s.delivered n ++ [{ event := event, registrations := s.registrations }])
    ⟨?_, ?_⟩ fun hdone => ?_
  · rwa [Function.update_eq_self] at hkeep
  · rw [hsum, asked, asked, List.flatMap_append, List.flatMap_singleton, h.registry, h.registry]
    rfl
  · rw [List.dropLast_concat, hsum]
  · rw [unfinished_of_dispatches hpc] at hdone
    cases hdone

theorem Consistent.uncut (h : Consistent s) {n : Nat} (hbusy : (s.client.runs n).pc.free = false) :
    s.cut n = false := by
  by_contra hcut
  rw [h.cut n (Bool.not_eq_false _ ▸ hcut)] at hbusy
  cases hbusy

theorem after_consistent (h : Consistent s) {c : Client} {a : ClientAction}
    (hc : s.client.step cfg a = some c) (hs : s.after c a = some s') : Consistent s' := by
  have hmoves := step_moves h.owned hc
  -- the loops that do not go on
  have hcut : ∀ n, a.loop ≠ some n → s.cut n = true → (c.runs n).pc.free = true := by
    intro n hn hcut
    rw [hmoves.runs n hn]
    exact h.cut n hcut
  have hreturned : ∀ n, a.loop ≠ some n → (c.runs n).pc.dispatches = false → s.cut n = false →
      (s.frames n).rest = [] := by
    intro n hn hd hc
    rw [hmoves.runs n hn] at hd
    exact h.returned n (unfinished_eq_false.mpr ⟨hd, hc⟩)
  cases a with
  | run n onReady =>
    cases hs
    refine ⟨hmoves.owned, h.registry, fun m => ?_, fun m => ?_, fun m hdone => ?_⟩
    · show Tally (Function.update s.frames n {} m) (Function.update s.calls n [] m)
        (Function.update s.delivered n [] m)
      by_cases hm : m = n
      · rw [hm, Function.update_self, Function.update_self, Function.update_self]
        exact .nil
      · rw [Function.update_of_ne hm, Function.update_of_ne hm, Function.update_of_ne hm]
        exact h.tally m
    · show Function.update s.cut n false m = true → (c.runs m).pc.free = true
      by_cases hm : m = n
      · rw [hm, Function.update_self]
        exact nofun
      · rw [Function.update_of_ne hm]
        exact hcut m fun e => hm (Option.some.inj e).symm
    · show (Function.update s.frames n {} m).rest = []
      by_cases hm : m = n
      · rw [hm, Function.update_self]
      · rw [Function.update_of_ne hm]
        obtain ⟨hd, hc⟩ := unfinished_eq_false.mp hdone
        have hc : Function.update s.cut n false m = false := hc
        rw [Function.update_of_ne hm] at hc
        exact hreturned m (fun e => hm (Option.some.inj e).symm) hd hc
  | resumeRun n ok =>
    have hbusy : (s.client.runs n).pc.free = false := busy_of_resumeRun hc
    have hcut' : ∀ m, s.cut m = true → (c.runs m).pc.free = true := by
      intro m hm
      refine hcut m (fun e => ?_) hm
      rw [← Option.some.inj e, h.uncut hbusy] at hm
      cases hm
    unfold after at hs
    simp only [] at hs
    split at hs
    · rename_i event hevent
      cases hs
      have hd := dispatches_of_event hevent hc
      have hold := (pc_of_event hevent).2
      refine dispatch_consistent (h.client hmoves.owned hcut' fun m hd' => ?_) event hd
        (h.returned n (unfinished_eq_false.mpr ⟨hold, h.uncut hbusy⟩))
      refine hreturned m (fun e => ?_) hd'
      rw [← Option.some.inj e, hd] at hd'
      cases hd'
    · split at hs
      · cases hs
      · rename_i hguard
        cases hs
        refine h.client hmoves.owned hcut' fun m hd => ?_
        by_cases hm : m = n
        · subst hm
          intro huncut
          cases hold : (s.client.runs m).pc.dispatches with
          | false => exact h.returned m (unfinished_eq_false.mpr ⟨hold, huncut⟩)
          | true =>
            -- the last `_dispatch` of this loop has returned
            rw [hold, Bool.true_and, Bool.or_eq_true, not_or, Bool.not_eq_true', Bool.not_eq_false]
              at hguard
            exact List.isEmpty_iff.mp hguard.2
        · exact hreturned m (fun e => hm (Option.some.inj e).symm) hd
  | cancelRun n =>
    cases hs
    refine ⟨hmoves.owned, h.registry, h.tally, fun m => ?_, fun m hdone => ?_⟩
    · show Function.update s.cut n _ m = true → (c.runs m).pc.free = true
      by_cases hm : m = n
      · rw [hm, cancelRun_finished hc]
        exact fun _ => rfl
      · rw [Function.update_of_ne hm]
        exact hcut m fun e => hm (Option.some.inj e).symm
    · obtain ⟨hd, hc'⟩ := unfinished_eq_false.mp hdone
      have hc' : Function.update s.cut n (s.client.runs n).pc.dispatches m = false := hc'
      by_cases hm : m = n
      · subst hm
        rw [Function.update_self] at hc'
        exact h.returned m (unfinished_eq_false.mpr ⟨hc', h.uncut (cancelRun_cases hc).2.1⟩)
      · rw [Function.update_of_ne hm] at hc'
        exact hreturned m (fun e => hm (Option.some.inj e).symm) hd hc'
  | _ =>
    cases hs
    exact h.client hmoves.owned (fun m => hcut m nofun) fun m => hreturned m nofun

/-- **Every step keeps the calls in line with the deliveries.** -/
theorem step_consistent {a : DispatchAction H} (h : Consistent s) (hs : s.step cfg a = some s') :
    Consistent s' := by
  cases a with
  | on eventName handler =>
    cases hs
    exact on_consistent h eventName handler
  | call n =>
    simp only [step] at hs
    split at hs
    · rename_i hpc
      exact call_consistent h hpc hs
    · cases hs
  | ended n raised =>
    simp only [step] at hs
    split at hs
    · exact ended_consistent h hs
    · cases hs
  | client a =>
    obtain ⟨c, hc, hs⟩ := Option.bind_eq_some_iff.mp hs
    exact after_consistent h hc hs

theorem consistent_of_reach (h : Sys.Reach (step cfg) (fun _ _ => True) {} s) : Consistent s :=
  h.inv consistent_init fun _ _ _ hi _ hs => step_consistent hi hs

theorem exactly_of_plain (h : Consistent s) {n : Nat} (hplain : ∀ d ∈ s.delivered n, d.Plain) :
    Exactly s n := by
  have hsame : ∀ ds, (∀ d ∈ ds, d ∈ s.delivered n) →
      asked Delivery.expected ds = asked Delivery.handlers ds := fun ds hds =>
    List.flatMap_congr fun d hd => by rw [handlers_of_plain (hplain d (hds d hd))]
  obtain ⟨hordered, hearlier, hcomplete⟩ := h.calls n
  refine ⟨?_, ?_, fun hdone => ?_⟩
  · rw [hsame _ fun _ => id]
    exact hordered
  · rw [hsame _ fun _ => List.mem_of_mem_dropLast]
    exact hearlier
  · rw [hsame _ fun _ => id]
    exact hcomplete hdone

/-- **The handlers called are exactly those that the events of the loop ask for if each event is not
named like the wildcard, or came while nothing was registered there**, in every run, whatever
handlers raise and whenever they register others; and where the last `_dispatch` has returned, only
if. -/
theorem dispatch_exact (h : Sys.Reach (step cfg) (fun _ _ => True) {} s) (n : Nat) :
    ((∀ d ∈ s.delivered n, d.Plain) → Exactly s n) ∧
      (s.unfinished n = false → Exactly s n → ∀ d ∈ s.delivered n, d.Plain) := by
  have hc := consistent_of_reach h
  refine ⟨exactly_of_plain hc, fun hdone hexact d hd => plain_of_length ?_⟩
  have hsame := ((hc.calls n).complete hdone).symm.trans (hexact.complete hdone)
  have hlen := length_eq_of_flatMap_eq (fun d _ => ?_) hsame d hd
  · rwa [List.length_map, List.length_map] at hlen
  · rw [List.length_map, List.length_map]
    exact expected_length_le d

end

def eventRun (line : Bytes) : List (DispatchAction Nat) :=
  [.client (.run 0 false), .client (.connected (.loop 0)), .client (.greet (.loop 0) (ascii "TS3")),
    .client (.greet (.loop 0) (ascii "Hi")), .client (.resumeRun 0 true),
    .client (.link 0 (.recv line)), .client (.link 0 (.resumeWait 0)),
    .client (.resumeRun 0 true)]

/-- the first handler registers another one, and raises -/
def raisingRun : List (DispatchAction Nat) :=
  [.on (lit "x") 1, .on (lit "*") 2, .on (lit "x") 3] ++ eventRun (ascii "notifyx n=1") ++
    [.call 0, .on (lit "x") 4, .ended 0 true, .call 0, .ended 0 false, .call 0, .ended 0 false,
      .client (.resumeRun 0 true)]

theorem dispatch_exact_raising :
    ∃ s, Sys.run (step {}) {} raisingRun = some s ∧ (s.calls 0).map Prod.snd = [1, 3, 2] ∧
      s.unfinished 0 = false ∧ Exactly s 0 := by
  obtain ⟨s, hs, h⟩ := Sys.exists_reach (step {}) (fun _ _ => True) {} raisingRun
    (fun _ _ => trivial) (by decide +kernel)
  have hnames : (s.delivered 0).map (fun d => d.event.name) = [lit "x"] :=
    Sys.eq_of_run_map (f := fun s : Dispatcher Nat => (s.delivered 0).map fun d => d.event.name) hs
      (by decide +kernel)
  refine ⟨s, hs, Sys.eq_of_run_map (f := fun s : Dispatcher Nat => (s.calls 0).map Prod.snd) hs
    (by decide +kernel), Sys.eq_of_run_map (f := fun s : Dispatcher Nat => s.unfinished 0) hs
    (by decide +kernel), (dispatch_exact h 0).1 fun d hd => Or.inl ?_⟩
  have hname := List.mem_map_of_mem (f := fun d : Delivery Nat => d.event.name) hd
  rw [hnames] at hname
  rw [List.mem_singleton.mp hname]
  decide

/-- a handler for all events, and an event that is named like the wildcard -/
def wildcardRun : List (DispatchAction Nat) :=
  .on (lit "*") 7 :: eventRun (ascii "notify*") ++
    [.call 0, .ended 0 false, .call 0, .ended 0 false]

/-- **An event named like the wildcard is passed twice to each handler registered there.** -/
theorem wildcard_called_twice :
    ∃ s, Sys.run (step {}) {} wildcardRun = some s ∧
      Sys.Reach (step {}) (fun _ _ => True) {} s ∧ (s.calls 0).map Prod.snd = [7, 7] ∧
      s.registrations = [(anyEvent, 7)] ∧ ¬ Exactly s 0 := by
  obtain ⟨s, hs, h⟩ := Sys.exists_reach (step {}) (fun _ _ => True) {} wildcardRun
    (fun _ _ => trivial) (by decide +kernel)
  have hmore : ((s.calls 0).length, (asked Delivery.expected (s.delivered 0)).length) = (2, 1) :=
    Sys.eq_of_run_map (f := fun s : Dispatcher Nat => ((s.calls 0).length,
      (asked Delivery.expected (s.delivered 0)).length)) hs (by decide +kernel)
  rw [Prod.mk.injEq] at hmore
  exact ⟨s, hs, h,
    Sys.eq_of_run_map (f := fun s : Dispatcher Nat => (s.calls 0).map Prod.snd) hs
      (by decide +kernel),
    Sys.eq_of_run_map (f := fun s : Dispatcher Nat => s.registrations) hs (by decide +kernel),
    fun hexact => absurd hexact.ordered.length_le (by rw [hmore.1, hmore.2]; decide)⟩

end Dispatcher
end Atsq
