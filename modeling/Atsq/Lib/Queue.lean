import Mathlib.Data.List.Basic
import Mathlib.Data.List.Nodup

/-!
# `asyncio.Queue` as its consumers see it

A bounded FIFO queue of items `β` whose consumers are named by `ω`.  A consumer that finds the queue
empty appends a getter and sleeps; `put_nowait` wakes the first getter, and the consumer takes its
item when its task runs, unless another consumer was faster.

* `Queue`           `items`, the sleeping `getters`, and the consumers that are `woken` but did not
                    run yet;
* `putNowait`       `none` when the queue is full;
* `park`, `unpark`, `drop`   what a consumer does to the getters: sleep, run, give up;
* `evictingPut`     the producer's loop that drops the oldest item until `put_nowait` succeeds.

Main results: `evictingPut_items` (what is dropped and what is left), `evictingPut_dropped` (only a
full queue drops, and only its oldest items), `Fair` (no wakeup is lost) and its preservation.
-/

namespace Aio

structure Queue (β ω : Type*) where
  maxsize : Int
  items : List β := []
  getters : List ω := []
  woken : List ω := []

namespace Queue
section
variable {β ω : Type*}

/-- a queue without a positive bound is never full -/
def full (q : Queue β ω) : Bool := 0 < q.maxsize && q.maxsize ≤ q.items.length

/-- `_wakeup_next` of the getters -/
def wakeupNext (q : Queue β ω) : Queue β ω :=
  match q.getters with
  | [] => q
  | w :: ws => { q with getters := ws, woken := q.woken ++ [w] }

/-- `put_nowait`, `none` for `QueueFull` -/
def putNowait (q : Queue β ω) (x : β) : Option (Queue β ω) :=
  if q.full then none else some (wakeupNext { q with items := q.items ++ [x] })

def withItems (q : Queue β ω) (items : List β) : Queue β ω := { q with items := items }

/-- `while True: put_nowait(x), and on QueueFull: get_nowait()`: the items it drops, and the queue.
The recursion is on the items; an empty queue is never full, so the put succeeds there. -/
def evictLoop (q : Queue β ω) (x : β) : List β → List β × Queue β ω
  | [] => ([], ((q.withItems []).putNowait x).getD q)
  | y :: ys =>
    match (q.withItems (y :: ys)).putNowait x with
    | some q' => ([], q')
    | none => (y :: (evictLoop q x ys).1, (evictLoop q x ys).2)

def evictingPut (q : Queue β ω) (x : β) : List β × Queue β ω := q.evictLoop x q.items

/-- how many times the loop calls `put_nowait` -/
def rounds (q : Queue β ω) (x : β) : Nat := (q.evictingPut x).1.length + 1

def park (q : Queue β ω) (w : ω) : Queue β ω := { q with getters := q.getters ++ [w] }

variable [DecidableEq ω]

def unpark (q : Queue β ω) (w : ω) : Queue β ω := { q with woken := q.woken.erase w }

def cancelGetter (q : Queue β ω) (w : ω) : Queue β ω := { q with getters := q.getters.erase w }

/-- a consumer that was cancelled runs: if it was woken already it wakes the next one in its
place, provided there is something to take -/
def giveUp (q : Queue β ω) (w : ω) : Queue β ω :=
  if w ∈ q.woken then
    if q.items.isEmpty then q.unpark w else (q.unpark w).wakeupNext
  else q
end

section
variable {β ω : Type*} (q : Queue β ω) (x : β)

/-! ## `full`, `wakeupNext` -/

theorem full_iff : q.full = true ↔ 0 < q.maxsize ∧ q.maxsize ≤ q.items.length := by
  rw [full, Bool.and_eq_true, decide_eq_true_iff, decide_eq_true_iff]

theorem wakeupNext_nil (h : q.getters = []) : q.wakeupNext = q := by
  unfold wakeupNext
  rw [h]
theorem wakeupNext_cons {w : ω} {ws : List ω} (h : q.getters = w :: ws) :
    q.wakeupNext = { q with getters := ws, woken := q.woken ++ [w] } := by
  unfold wakeupNext
  rw [h]

theorem wakeupNext_items : q.wakeupNext.items = q.items := by
  unfold wakeupNext
  cases q.getters <;> rfl
theorem wakeupNext_maxsize : q.wakeupNext.maxsize = q.maxsize := by
  unfold wakeupNext
  cases q.getters <;> rfl

def consumers : List ω := q.woken ++ q.getters

theorem wakeupNext_consumers : q.wakeupNext.consumers = q.consumers := by
  unfold wakeupNext consumers
  cases hg : q.getters <;> simp [hg]

/-- waking somebody up only shortens the list of sleepers -/
theorem getters_wakeupNext_subset : q.wakeupNext.getters ⊆ q.getters := by
  cases hg : q.getters with
  | nil => rw [wakeupNext_nil q hg, hg]; exact List.Subset.refl _
  | cons v vs => rw [wakeupNext_cons q hg]; exact List.subset_cons_self v vs

theorem putNowait_eq_some {x : β} {q' : Queue β ω} (h : q.putNowait x = some q') :
    q' = (q.withItems (q.items ++ [x])).wakeupNext := by
  unfold putNowait at h
  split at h
  · cases h
  · cases h
    rfl

theorem consumers_park (w : ω) : (q.park w).consumers = q.consumers ++ [w] :=
  (List.append_assoc q.woken q.getters [w]).symm

section
variable [DecidableEq ω] (w : ω)

theorem giveUp_items : (q.giveUp w).items = q.items := by
  unfold giveUp
  split
  · split
    · rfl
    · rw [wakeupNext_items]
      rfl
  · rfl
theorem giveUp_maxsize : (q.giveUp w).maxsize = q.maxsize := by
  unfold giveUp
  split
  · split
    · rfl
    · rw [wakeupNext_maxsize]
      rfl
  · rfl

theorem consumers_unpark (hw : w ∈ q.woken) : (q.unpark w).consumers = q.consumers.erase w :=
  (List.erase_append_left q.getters hw).symm
theorem consumers_giveUp (hw : w ∉ q.getters) : (q.giveUp w).consumers = q.consumers.erase w := by
  unfold giveUp
  split
  · rename_i h
    split
    · exact q.consumers_unpark w h
    · rw [wakeupNext_consumers]
      exact q.consumers_unpark w h
  · rename_i h
    refine (List.erase_of_not_mem fun hmem => ?_).symm
    rcases List.mem_append.mp hmem with hm | hm
    · exact h hm
    · exact hw hm

theorem getters_giveUp_subset : (q.giveUp w).getters ⊆ q.getters := by
  unfold giveUp
  split
  · split
    · exact List.Subset.refl _
    · exact (q.unpark w).getters_wakeupNext_subset
  · exact List.Subset.refl _
end

/-! ## the producer's loop -/

theorem full_withItems_nil : (q.withItems []).full = false := by
  refine Bool.eq_false_iff.mpr fun h => ?_
  obtain ⟨h1, h2⟩ := (full_iff _).mp h
  exact absurd (Int.lt_of_lt_of_le h1 h2) (Int.lt_irrefl 0)

theorem evictLoop_spec (l : List β) :
    ∃ kept, l = (q.evictLoop x l).1 ++ kept ∧
      (q.withItems kept).full = false ∧
      (q.evictLoop x l).2 = ((q.withItems (kept ++ [x]))).wakeupNext := by
  induction l with
  | nil =>
    refine ⟨[], rfl, q.full_withItems_nil, ?_⟩
    show ((q.withItems []).putNowait x).getD q = _
    rw [putNowait, if_neg (by rw [q.full_withItems_nil]; decide)]
    rfl
  | cons y ys ih =>
    obtain ⟨kept, h1, h2, h3⟩ := ih
    cases hf : (q.withItems (y :: ys)).full with
    | true =>
      have hput : (q.withItems (y :: ys)).putNowait x = none := if_pos hf
      rw [evictLoop, hput]
      exact ⟨kept, by rw [List.cons_append, ← h1], h2, h3⟩
    | false =>
      have hput : (q.withItems (y :: ys)).putNowait x
          = some ((q.withItems (y :: ys ++ [x])).wakeupNext) := by
        rw [putNowait, if_neg (by rw [hf]; decide)]
        rfl
      rw [evictLoop, hput]
      exact ⟨y :: ys, rfl, hf, rfl⟩

/-- what is dropped is what stood first, and the new item comes after what is kept -/
theorem evictingPut_items :
    ∃ kept, q.items = (q.evictingPut x).1 ++ kept ∧
      (q.evictingPut x).2.items = kept ++ [x] := by
  obtain ⟨kept, h1, _, h3⟩ := q.evictLoop_spec x q.items
  refine ⟨kept, h1, ?_⟩
  unfold evictingPut
  rw [h3, wakeupNext_items]
  rfl

theorem evictingPut_maxsize : (q.evictingPut x).2.maxsize = q.maxsize := by
  obtain ⟨kept, _, _, h3⟩ := q.evictLoop_spec x q.items
  unfold evictingPut
  rw [h3, wakeupNext_maxsize]
  rfl

theorem evictingPut_consumers : (q.evictingPut x).2.consumers = q.consumers := by
  obtain ⟨kept, _, _, h3⟩ := q.evictLoop_spec x q.items
  unfold evictingPut
  rw [h3, wakeupNext_consumers]
  rfl

theorem getters_evictingPut_subset : (q.evictingPut x).2.getters ⊆ q.getters := by
  obtain ⟨kept, _, _, h3⟩ := q.evictLoop_spec x q.items
  unfold evictingPut
  rw [h3]
  exact getters_wakeupNext_subset _

theorem evictingPut_length (hn : 0 < (q.evictingPut x).2.maxsize) :
    ((q.evictingPut x).2.items.length : Int) ≤ (q.evictingPut x).2.maxsize := by
  rw [evictingPut_maxsize] at hn ⊢
  obtain ⟨kept, _, h2, h3⟩ := q.evictLoop_spec x q.items
  have hlen : ¬ q.maxsize ≤ kept.length := fun hle =>
    Bool.eq_false_iff.mp h2 ((full_iff _).mpr ⟨hn, hle⟩)
  unfold evictingPut
  rw [h3, wakeupNext_items]
  show ((kept ++ [x]).length : Int) ≤ q.maxsize
  rw [List.length_append, List.length_singleton]
  omega

theorem full_of_evictingPut_ne_nil (h : (q.evictingPut x).1 ≠ []) : q.full = true := by
  by_contra hf
  apply h
  unfold evictingPut
  cases hi : q.items with
  | nil => rfl
  | cons y ys =>
    have hq : (q.withItems (y :: ys)).putNowait x
        = some (wakeupNext { q.withItems (y :: ys) with items := y :: ys ++ [x] }) := by
      refine if_neg ?_
      rw [← hi]
      exact hf
    rw [evictLoop, hq]

theorem evictingPut_length_le_one (h : 0 < q.maxsize → (q.items.length : Int) ≤ q.maxsize) :
    (q.evictingPut x).1.length ≤ 1 := by
  unfold evictingPut
  cases hi : q.items with
  | nil => exact Nat.zero_le _
  | cons y ys =>
    rw [evictLoop]
    cases hp : (q.withItems (y :: ys)).putNowait x with
    | some q' => exact Nat.zero_le _
    | none =>
      show (q.evictLoop x ys).1.length + 1 ≤ 1
      have hys : (q.withItems ys).full = false := by
        refine Bool.eq_false_iff.mpr fun hf => ?_
        obtain ⟨hpos, hle⟩ := (full_iff _).mp hf
        have hlen : q.maxsize ≤ ys.length := hle
        have hmax : (q.items.length : Int) ≤ q.maxsize := h hpos
        rw [hi, List.length_cons] at hmax
        omega
      have hput : (q.withItems ys).putNowait x
          = some (wakeupNext { q.withItems ys with items := ys ++ [x] }) :=
        if_neg (by rw [hys]; decide)
      cases ys with
      | nil => exact Nat.le_refl _
      | cons z zs =>
        rw [evictLoop, hput]
        exact Nat.le_refl _

/-- the loop ends after at most two rounds -/
theorem rounds_le_two (h : 0 < q.maxsize → (q.items.length : Int) ≤ q.maxsize) :
    q.rounds x ≤ 2 := Nat.succ_le_succ (q.evictingPut_length_le_one x h)

/-! ## no wakeup is lost -/

/-- while somebody sleeps, every item has a woken consumer that comes for it -/
def Fair : Prop := q.getters ≠ [] → q.items.length ≤ q.woken.length

variable {q}

theorem fair_withItems_wakeupNext {items : List β} (h : q.Fair)
    (hle : items.length ≤ q.items.length + 1) : (q.withItems items).wakeupNext.Fair := by
  cases hg : q.getters with
  | nil =>
    rw [wakeupNext_nil (q.withItems items) hg]
    exact fun hne => absurd hg hne
  | cons w ws =>
    have h' := h (by rw [hg]; exact List.cons_ne_nil _ _)
    rw [wakeupNext_cons (q.withItems items) hg]
    intro _
    show items.length ≤ (q.woken ++ [w]).length
    rw [List.length_append, List.length_singleton]
    omega

theorem Fair.evictingPut (h : q.Fair) : (q.evictingPut x).2.Fair := by
  obtain ⟨kept, h1, _, h3⟩ := q.evictLoop_spec x q.items
  unfold Queue.evictingPut
  rw [h3]
  refine fair_withItems_wakeupNext h ?_
  rw [List.length_append, List.length_singleton]
  have := congrArg List.length h1
  rw [List.length_append] at this
  omega

theorem Fair.putNowait {q' : Queue β ω} (h : q.Fair) (hp : q.putNowait x = some q') : q'.Fair := by
  unfold Queue.putNowait at hp
  split at hp
  · cases hp
  · cases hp
    exact fair_withItems_wakeupNext h (by simp)

theorem Fair.withItems {items : List β} (h : q.Fair) (hle : items.length ≤ q.items.length) :
    (q.withItems items).Fair := fun hg => Nat.le_trans hle (h hg)

theorem Fair.park (w : ω) (hi : q.items = []) : (q.park w).Fair := by
  intro _
  show q.items.length ≤ _
  rw [hi]
  exact Nat.zero_le _

variable [DecidableEq ω]

theorem Fair.cancelGetter (w : ω) (h : q.Fair) : (q.cancelGetter w).Fair :=
  fun hg => h fun e => hg (by unfold Queue.cancelGetter; rw [e]; rfl)

theorem length_unpark {w : ω} (hw : w ∈ q.woken) :
    (q.unpark w).woken.length + 1 = q.woken.length := by
  have hlen := List.length_erase_of_mem hw
  have hpos := List.length_pos_of_mem hw
  show (q.woken.erase w).length + 1 = _
  omega

theorem Fair.giveUp (w : ω) (h : q.Fair) : (q.giveUp w).Fair := by
  unfold Queue.giveUp
  split
  · rename_i hw
    have hlen := length_unpark hw
    split
    · rename_i hi
      intro _
      show q.items.length ≤ _
      rw [List.isEmpty_iff.mp hi]
      exact Nat.zero_le _
    · cases hg : q.getters with
      | nil =>
        rw [wakeupNext_nil (q.unpark w) hg]
        exact fun hne => absurd hg hne
      | cons v vs =>
        have h' := h (by rw [hg]; exact List.cons_ne_nil _ _)
        rw [wakeupNext_cons (q.unpark w) hg]
        intro _
        show q.items.length ≤ ((q.unpark w).woken ++ [v]).length
        rw [List.length_append, List.length_singleton]
        omega
  · exact h

/-- a woken consumer takes the first item -/
theorem Fair.take {w : ω} {y : β} {ys : List β} (h : q.Fair) (hw : w ∈ q.woken)
    (hi : q.items = y :: ys) : ((q.unpark w).withItems ys).Fair := by
  have hlen := length_unpark hw
  intro hg
  have h' := h hg
  rw [hi, List.length_cons] at h'
  show ys.length ≤ (q.unpark w).woken.length
  omega

end
end Queue
end Aio
