import Atsq.Connection.Session

/-!
# Runs in which the lines take turns

Whatever the peer says, as long as each line that is handed over is a single one, and no caller
leaves on a cancellation, or on the exception of its send, between its line and the next terminator
while the connection is open (`turnPolicy`).

* `wire`     the lines that the peer reads, each with the hand-over that wrote it;
* `InTurn`   a terminator was received after every line and before the next one was sent;
* `Left`     a caller that left so has a terminator behind its line, or the connection is closed.

Main results: `Move.single`, `Move.inTurn`, `Move.left`.
-/

namespace Atsq
open Py

/-- the lines that the peer reads of it -/
def Sent.lines (x : Sent) : List Bytes := SshTransport.linesOf (x.line ++ lineTerminator)

theorem Sent.lines_of_single {x : Sent} (h : LF ∉ x.line) : x.lines = [strip CR x.line] := by
  unfold Sent.lines
  rw [show x.line ++ lineTerminator = x.line ++ LF :: [CR] from rfl,
    SshTransport.linesOf_append _ _ h]
  rfl

theorem Sent.lines_of_mem {x : Sent} (h : LF ∈ x.line) : ∃ l l' ls, x.lines = l :: l' :: ls := by
  obtain ⟨l, rest, hx, hn⟩ := List.eq_append_cons_of_mem h
  have hrest : SshTransport.linesOf (rest ++ lineTerminator) ≠ [] :=
    SshTransport.linesOf_ne_nil (List.mem_append_right _ List.mem_cons_self)
  obtain ⟨l', ls, hls⟩ := List.exists_cons_of_ne_nil hrest
  refine ⟨strip CR l, l', ls, ?_⟩
  unfold Sent.lines
  rw [hx, List.append_assoc, List.cons_append, SshTransport.linesOf_append _ _ hn, hls]

namespace Session

/-! ## the lines on the wire -/

/-- the command lines that the peer reads, each with the hand-over that wrote it -/
def wire (v : Session) : List (Sent × Bytes) := v.sent.flatMap fun x => x.lines.map (x, ·)

def Single (v : Session) : Prop := ∀ x ∈ v.sent, LF ∉ x.line

theorem map_snd_wire (v : Session) : v.wire.map Prod.snd = v.sent.flatMap Sent.lines := by
  unfold wire
  rw [List.map_flatMap]
  refine congrArg (fun f => v.sent.flatMap f) (funext fun x => ?_)
  rw [List.map_map]
  exact List.map_id _

theorem wire_of_single {v : Session} (h : v.Single) :
    v.wire = v.sent.map fun x => (x, strip CR x.line) := by
  unfold wire
  rw [List.map_eq_flatMap]
  refine List.flatMap_congr fun x hx => ?_
  rw [Sent.lines_of_single (h x hx)]
  rfl

theorem length_wire {v : Session} (h : v.Single) : v.wire.length = v.sent.length := by
  rw [wire_of_single h, List.length_map]

theorem getElem?_wire {v : Session} (h : v.Single) (k : Nat) :
    v.wire[k]? = v.sent[k]?.map fun x => (x, strip CR x.line) := by
  rw [wire_of_single h, List.getElem?_map]

/-! ## a terminator behind every line -/

def Heard (v : Session) (x : Sent) : Prop :=
  ∃ l ∈ v.received.drop x.mark, isErrorLine l = true

def LastHeard (v : Session) : Prop := ∃ x, v.sent.getLast? = some x ∧ v.Heard x

/-- the lines are single ones, and no caller leaves without an answer between its line and the next
terminator while the connection is open -/
def turnPolicy (recv : Session → Bytes → Prop) (cancel : Session → Caller → Prop) : Policy where
  start _ := True
  go _ := True
  send v c := LF ∉ (v.execs c).line
  recv := recv
  leave v _ := v.closed = true ∨ v.LastHeard
  cancel := cancel

/-- a terminator was received between the two lines -/
def Apart (v : Session) (x y : Sent) : Prop :=
  ∃ l ∈ (v.received.take y.mark).drop x.mark, isErrorLine l = true

/-- the lines take turns; if the connection is open, the caller of a line without a terminator
still has the lock -/
structure InTurn (v : Session) : Prop where
  turns : v.sent.Pairwise v.Apart
  last : ∀ x, v.sent.getLast? = some x →
    v.closed = true ∨ v.lost = true ∨ v.cmdLock ≠ none ∨ v.Heard x

/-- a caller that handed over its line and waits for the next attempt, or left without an answer,
has a terminator behind its line, or the connection is closed -/
def LeftOk (v : Session) (c : Caller) (e : Exec) : Prop :=
  e.handed = true → e.pc.between = true → ∀ x, v.lastSent c = some x →
    v.closed = true ∨ v.Heard x

def Left (v : Session) : Prop := ∀ c, LeftOk v c (v.execs c)

/-- a terminator behind each line on the wire, before the next one: of one line, or none, from each
hand-over -/
theorem pairwise_wire {v : Session} :
    (v.wire.Pairwise fun p q => v.Apart p.1 q.1) ↔ v.Single ∧ v.sent.Pairwise v.Apart := by
  have irrefl : ∀ x, ¬ v.Apart x x := by
    rintro x ⟨l, hl, _⟩
    rw [List.drop_eq_nil_of_le (by rw [List.length_take]; exact min_le_left _ _)] at hl
    cases hl
  constructor
  · intro h
    have hsingle : v.Single := by
      intro x hx hLF
      obtain ⟨l, l', ls, hlines⟩ := Sent.lines_of_mem hLF
      have hown := (List.pairwise_flatMap.mp h).1 x hx
      rw [hlines] at hown
      exact irrefl x ((List.pairwise_cons.mp hown).1 (x, l') List.mem_cons_self)
    rw [wire_of_single hsingle, List.pairwise_map] at h
    exact ⟨hsingle, h⟩
  · rintro ⟨hsingle, h⟩
    rw [wire_of_single hsingle, List.pairwise_map]
    exact h

/-- **Every move that the policy allows hands over single lines.** -/
theorem Move.single {recv : Session → Bytes → Prop} {cancel : Session → Caller → Prop}
    {v v' : Session} (hm : Move (turnPolicy recv cancel) v v') (h : v.Single) : v'.Single := by
  have hsame : ∀ {w : Session}, w.sent = v.sent → w.Single := fun hw x hx => h x (hw ▸ hx)
  cases hm with
  | handOver c _ hsend =>
    intro x hx
    rcases List.mem_append.mp hx with hx | hx
    · exact h x hx
    · rw [List.mem_singleton.mp hx]
      exact hsend
  | recv line => exact hsame (sameWire_recv v line).1.sent
  | shutdown => exact hsame (sameWire_shutdown v).1.sent
  | _ => exact h

/-! ## lines that have their terminator -/

theorem Heard.append {v w : Session} {x : Sent} (h : v.Heard x) (hm : x.mark ≤ v.received.length)
    {more : List Bytes} (hw : w.received = v.received ++ more) : w.Heard x := by
  obtain ⟨l, hl, he⟩ := h
  refine ⟨l, ?_, he⟩
  rw [hw, List.drop_append_of_le_length hm]
  exact List.mem_append_left _ hl

theorem Apart.append {v w : Session} {x y : Sent} (h : v.Apart x y)
    (hm : y.mark ≤ v.received.length) {more : List Bytes}
    (hw : w.received = v.received ++ more) : w.Apart x y := by
  unfold Apart at h ⊢
  rw [hw, List.take_append_of_le_length hm]
  exact h

theorem Apart.heard {v : Session} {x y : Sent} (h : v.Apart x y) : v.Heard x := by
  obtain ⟨l, hl, he⟩ := h
  rw [List.drop_take] at hl
  exact ⟨l, List.mem_of_mem_take hl, he⟩

/-- if the last line has its terminator, all of them have -/
theorem InTurn.heard {v : Session} (h : InTurn v)
    (hlast : ∀ x, v.sent.getLast? = some x → v.Heard x) {x : Sent} (hx : x ∈ v.sent) :
    v.Heard x := by
  obtain ⟨y, hy⟩ : ∃ y, v.sent.getLast? = some y := by
    rw [← Option.isSome_iff_exists, List.getLast?_isSome]
    exact List.ne_nil_of_mem hx
  obtain ⟨init, hinit⟩ := List.getLast?_eq_some_iff.mp hy
  have hturns := h.turns
  rw [hinit] at hx hturns
  rcases List.mem_append.mp hx with hx | hx
  · exact ((List.pairwise_append.mp hturns).2.2 x hx y (List.mem_singleton.mpr rfl)).heard
  · rw [List.mem_singleton.mp hx]
    exact hlast y hy

theorem Inv.heard {v : Session} (hi : Inv v) {c : Caller} (hc : (v.execs c).pc.critical = true)
    {data : List Bytes} {error : ErrorLine} (hf : (v.execs c).future = .result data error)
    {x : Sent} (hx : v.sent.getLast? = some x) : v.Heard x := by
  obtain ⟨y, h1, _, h3⟩ := (hi.callers c).own ((hi.callers c).holder.mp hc)
  cases Option.some.inj (hx.symm.trans h1)
  unfold FutureOk at h3
  rw [hf] at h3
  exact h3.mem_drop

/-- a caller that leaves without an answer: what is known then -/
theorem Reason.over {recv : Session → Bytes → Prop} {cancel : Session → Caller → Prop}
    {v : Session} {c : Caller} {pc : ExecPc} (hwhy : Reason (turnPolicy recv cancel) v c pc)
    (hi : Inv v) (hc : (v.execs c).pc.critical = true) :
    v.closed = true ∨ (v.lost = true ∧ pc.between = false) ∨
      ∀ x, v.sent.getLast? = some x → v.Heard x := by
  obtain ⟨y, h1, _, h3⟩ := (hi.callers c).own ((hi.callers c).holder.mp hc)
  unfold FutureOk at h3
  cases hwhy with
  | timeout hclosed => exact Or.inl hclosed
  | closing hclosed => exact Or.inl hclosed
  | lost hlost => exact Or.inr (Or.inl ⟨hlost, rfl⟩)
  | exception hf => rw [hf] at h3; exact Or.inl h3
  | stray hf hq he => exact Or.inl (hi.closed_of_stray hc hf hq he)
  | cancelled _ hleave | raised _ hleave =>
    refine hleave.imp id fun ⟨x, hx, hh⟩ => Or.inr fun x' hx' => ?_
    cases Option.some.inj (hx.symm.trans hx')
    exact hh

/-! ## the lines take turns -/

theorem InTurn.congr {v w : Session} (h : InTurn v) (hw : SameWire v w)
    (hclosed : v.closed = true → w.closed = true) : InTurn w := by
  refine ⟨?_, ?_⟩
  · unfold Apart
    rw [hw.sent, hw.received]
    exact h.turns
  · unfold Heard
    rw [hw.sent, hw.received, hw.lost, hw.cmdLock]
    exact fun x hx => (h.last x hx).imp hclosed id

theorem InTurn.heard_of_free {v : Session} (h : InTurn v) (hclosed : v.closed = false)
    (hlost : v.lost = false) (hlock : v.cmdLock = none) {x : Sent}
    (hx : v.sent.getLast? = some x) : v.Heard x := by
  rcases h.last x hx with hc | hc | hc | hc
  · rw [hclosed] at hc; cases hc
  · rw [hlost] at hc; cases hc
  · exact absurd hlock hc
  · exact hc

theorem InTurn.handOver {v : Session} (h : InTurn v) (c : Caller) (hclosed : v.closed = false)
    (hlost : v.lost = false) (hlock : v.cmdLock = none) : InTurn (v.handOver c) := by
  have hlast : ∀ x, v.sent.getLast? = some x → v.Heard x := fun x =>
    h.heard_of_free hclosed hlost hlock
  refine ⟨List.pairwise_append.mpr ⟨h.turns, List.pairwise_singleton _ _, fun x hx y hy => ?_⟩,
    fun _ _ => Or.inr (Or.inr (Or.inl (Option.some_ne_none c)))⟩
  rw [List.mem_singleton.mp hy]
  show ∃ l ∈ (v.received.take v.received.length).drop x.mark, isErrorLine l = true
  rw [List.take_length]
  exact h.heard hlast hx

theorem InTurn.recv {v : Session} (h : InTurn v) (line : Bytes)
    (hmarks : ∀ x ∈ v.sent, x.mark ≤ v.received.length) : InTurn (v.recv line) := by
  suffices hline : InTurn { v with received := v.received ++ [line] } from
    let hw := sameWire_recv v line
    hline.congr hw.1 hw.2
  refine ⟨h.turns.imp_of_mem fun _ hy hxy => hxy.append (hmarks _ hy) rfl, fun x hx => ?_⟩
  refine (h.last x hx).imp id (Or.imp id (Or.imp id fun hh => ?_))
  exact hh.append (hmarks x (List.mem_of_getLast? hx)) rfl

/-- **Every move that the policy allows keeps the turns.** -/
theorem Move.inTurn {recv : Session → Bytes → Prop} {cancel : Session → Caller → Prop}
    {v v' : Session} (hm : Move (turnPolicy recv cancel) v v') (hi : Inv v) (h : InTurn v) :
    InTurn v' := by
  cases hm with
  | start c e _ _ _ _ _ => exact h.congr ⟨rfl, rfl, rfl, rfl⟩ id
  | outside c e _ _ _ _ _ _ => exact h.congr ⟨rfl, rfl, rfl, rfl⟩ id
  | await c d _ _ => exact h.congr ⟨rfl, rfl, rfl, rfl⟩ id
  | close c p _ _ _ => exact h.congr ⟨rfl, rfl, rfl, rfl⟩ id
  | cancel c _ => exact h.congr ⟨rfl, rfl, rfl, rfl⟩ id
  | expire c _ => exact h.congr ⟨rfl, rfl, rfl, rfl⟩ id
  | expireClose c _ => exact h.congr ⟨rfl, rfl, rfl, rfl⟩ id
  | handOver c _ _ hclosed hlost hlock _ _ => exact h.handOver c hclosed hlost hlock
  | recv line _ _ => exact h.recv line hi.marks
  | shutdown _ => exact h.congr (sameWire_shutdown v).1 fun _ => (sameWire_shutdown v).2
  | lose => exact ⟨h.turns, fun _ _ => Or.inr (Or.inl rfl)⟩
  | complete c _ hc hf _ =>
    exact ⟨h.turns, fun x hx => Or.inr (Or.inr (Or.inr (hi.heard hc hf hx)))⟩
  | leave c _ hc hwhy =>
    refine ⟨h.turns, fun x hx => ?_⟩
    rcases hwhy.over hi hc with hclosed | ⟨hlost, _⟩ | hheard
    · exact Or.inl hclosed
    · exact Or.inr (Or.inl hlost)
    · exact Or.inr (Or.inr (Or.inr (hheard x hx)))

/-! ## callers that left -/

theorem Left.setExec {v : Session} (h : Left v) (c : Caller) {e : Exec} (he : LeftOk v c e) :
    Left (v.setExec c e) := by
  intro t
  by_cases ht : t = c
  · rw [ht, setExec_self]
    exact he
  · rw [setExec_of_ne _ _ ht]
    exact h t

theorem Left.mono {v w : Session} (h : Left v)
    (hexecs : ∀ c, (w.execs c).pc = (v.execs c).pc ∧ (w.execs c).handed = (v.execs c).handed)
    (hsent : w.sent = v.sent) (hclosed : v.closed = true → w.closed = true)
    (hheard : ∀ x ∈ v.sent, v.Heard x → w.Heard x) : Left w := by
  intro c hh hb x hx
  rw [(hexecs c).2] at hh
  rw [(hexecs c).1] at hb
  have hlast : w.lastSent c = v.lastSent c := by unfold lastSent; rw [hsent]
  have hx' := hlast.symm.trans hx
  exact (h c hh hb x hx').imp hclosed (hheard x (mem_of_lastSent hx'))

theorem settle_exec (v : Session) (f : Future) (c : Caller) :
    ((v.settle f).execs c).pc = (v.execs c).pc ∧
      ((v.settle f).execs c).handed = (v.execs c).handed := by
  refine ⟨settle_pc v f c, ?_⟩
  rcases v.settle_cases with ⟨t, _, _, hset⟩ | ⟨_, hset⟩
  · rw [hset]
    by_cases ht : c = t
    · rw [ht, setExec_self]
    · rw [setExec_of_ne _ _ ht]
  · rw [hset]

theorem recv_exec (v : Session) (line : Bytes) (c : Caller) :
    ((v.recv line).execs c).pc = (v.execs c).pc ∧
      ((v.recv line).execs c).handed = (v.execs c).handed := by
  unfold recv
  split
  · split
    · exact settle_exec _ _ c
    · exact settle_exec _ _ c
  · split <;> exact ⟨rfl, rfl⟩

theorem Left.leave {v : Session} (h : Left v) (hi : Inv v) (c : Caller) {pc : ExecPc}
    (hc : (v.execs c).pc.critical = true)
    (hwhy : pc.between = true → v.closed = true ∨
      ∀ x, v.sent.getLast? = some x → v.Heard x) :
    Left (v.leave.setExec c { v.execs c with pc := pc }) := by
  refine Left.setExec (v := v.leave) h c fun _ hb x hx => ?_
  obtain ⟨y, h1, h2, _⟩ := (hi.callers c).own ((hi.callers c).holder.mp hc)
  have hlast : v.lastSent c = some y := h2 ▸ lastSent_of_getLast? h1
  cases Option.some.inj (hlast.symm.trans hx)
  exact (hwhy hb).imp id fun h => h x h1

/-- **Every move that the policy allows keeps what is known about callers that left.** -/
theorem Move.left {recv : Session → Bytes → Prop} {cancel : Session → Caller → Prop}
    {v v' : Session} (hm : Move (turnPolicy recv cancel) v v') (hi : Inv v) (h : Left v) :
    Left v' := by
  have hcrit : ∀ {c : Caller} {e : Exec}, e.pc.critical = true → LeftOk v c e := by
    intro c e hc _ hb
    rw [ExecPc.between_of_critical hc] at hb
    cases hb
  cases hm with
  | start c e _ _ _ _ hh =>
    exact h.setExec c fun hh' => by rw [hh] at hh'; cases hh'
  | outside c e _ hc hf _ _ hh =>
    exact h.setExec c fun hh' _ => h c (hh.symm.trans hh') (ExecPc.between_of hc hf)
  | handOver c =>
    intro t
    by_cases ht : t = c
    · rw [ht]
      unfold Session.handOver
      rw [setExec_self]
      exact fun _ hb => nomatch hb
    · have hexec : (v.handOver c).execs t = v.execs t := setExec_of_ne _ _ ht
      rw [hexec]
      intro hh hb x hx
      rw [lastSent_handOver_of_ne v ht] at hx
      exact h t hh hb x hx
  | await c d => exact h.setExec c (hcrit rfl)
  | close c p => exact h.setExec c (hcrit rfl)
  | cancel c =>
    refine h.setExec c fun hh hb => ?_
    rw [Exec.cancel_handed] at hh
    rw [Exec.cancel_pc] at hb
    exact h c hh hb
  | expire c hpc => exact h.setExec c (hcrit (by rw [Exec.expire_pc, hpc]; rfl))
  | expireClose c hpc => exact h.setExec c (hcrit (by rw [Exec.expire_pc, hpc]; rfl))
  | complete c _ hc hf _ =>
    exact h.leave hi c hc fun _ => Or.inr fun x hx => hi.heard hc hf hx
  | leave c _ hc hwhy =>
    refine h.leave hi c hc fun hb => ?_
    rcases hwhy.over hi hc with hclosed | ⟨_, hnot⟩ | hheard
    · exact Or.inl hclosed
    · rw [hb] at hnot
      cases hnot
    · exact Or.inr hheard
  | recv line _ _ =>
    obtain ⟨hw, hc⟩ := sameWire_recv v line
    exact h.mono (recv_exec v line) hw.sent hc fun x hx hh => hh.append (hi.marks x hx) hw.received
  | shutdown _ =>
    obtain ⟨hw, hc⟩ := sameWire_shutdown v
    refine h.mono (settle_exec { v with closed := true } .exception) hw.sent (fun _ => hc) ?_
    intro x _ hh
    unfold Heard
    rw [hw.received]
    exact hh
  | lose => exact h

end Session
end Atsq
