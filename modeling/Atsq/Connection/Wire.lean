import Atsq.Connection.Projection
import Atsq.Lib.Trace

/-!
# A session over the bytes of its transport

`start` and the receive loop read from one buffer, that of `SshTransport.read_line`, and the bytes
come in chunks.  Whatever runs between two chunks is the line machine of `Atsq.Connection.Step`; a
chunk is as many of its steps as there are complete lines in the buffer.

* `Wire`          a `start` that reads the greeting, a session with its buffer, or neither;
* `readOn`        the receive loop from one `read_line` to the next suspension;
* `Wire.step`     a chunk, the end of the stream, or anything else inside the connection;
* `Reads S ls b`  from the stream `S` these lines were taken, and `b` is left.

Main result: `wire_refines`, for every way of cutting the stream.
-/

namespace Atsq
open Py

namespace SshTransport

/-! ## lines taken from a stream -/

inductive Reads (S : Bytes) : List Bytes → Bytes → Prop where
  | none : Reads S [] S
  | line {rest rest' l : Bytes} {ls : List Bytes} : Reads S ls rest →
      takeLine rest = some (l, rest') → Reads S (ls ++ [l]) rest'

theorem takeLine_append {b l rest : Bytes} (h : takeLine b = some (l, rest)) (c : Bytes) :
    takeLine (b ++ c) = some (l, rest ++ c) := by
  rcases takeLine_cases b with ⟨line, r, hn, rfl, htake⟩ | ⟨_, htake⟩
  · rw [htake] at h
    cases h
    unfold takeLine
    rw [List.append_assoc, List.cons_append, partition_append LF line (rest ++ c) hn]
  · rw [htake] at h
    cases h

theorem Reads.append {S rest : Bytes} {ls : List Bytes} (h : Reads S ls rest) (c : Bytes) :
    Reads (S ++ c) ls (rest ++ c) := by
  induction h with
  | none => exact .none
  | line _ htake ih => exact ih.line (takeLine_append htake c)

theorem linesOf_of_takeLine {b l rest : Bytes} (h : takeLine b = some (l, rest)) :
    linesOf b = l :: linesOf rest ∧ rest.length < b.length := by
  rcases takeLine_cases b with ⟨line, r, hn, rfl, htake⟩ | ⟨_, htake⟩
  · rw [htake] at h
    cases h
    refine ⟨linesOf_append line rest hn, ?_⟩
    rw [List.length_append, List.length_cons]
    omega
  · rw [htake] at h
    cases h

theorem takeLine_eq_none {b : Bytes} (h : takeLine b = none) : LF ∉ b := by
  rcases takeLine_cases b with ⟨line, r, _, _, htake⟩ | ⟨hn, _⟩
  · rw [htake] at h
    cases h
  · exact hn

theorem Reads.linesOf {S rest : Bytes} {ls : List Bytes} (h : Reads S ls rest) :
    linesOf S = ls ++ SshTransport.linesOf rest := by
  induction h with
  | none => rfl
  | line _ htake ih => rw [ih, (linesOf_of_takeLine htake).1, List.append_assoc]; rfl

end SshTransport

open SshTransport

namespace Conn

/-- the receive loop reads on, up to its suspension in `stdout.read` or its end; the buffer of the
transport is beside the connection -/
def readOn : Nat → Conn → Bytes → Conn × Bytes
  | 0, s, b => (s, b)
  | fuel + 1, s, b =>
    match takeLine b with
    | some (line, rest) =>
      if (s.recvLine line).recvTask = .running then readOn fuel (s.recvLine line) rest
      else (s.recvLine line, rest)
    | none => if s.transport.closed then (s.recvEof, b) else (s, b)

def readBuffer (s : Conn) (b : Bytes) : Conn × Bytes := s.readOn (b.length + 1) b

end Conn

inductive Wire where
  | greeting (lines : List Bytes) (buffer : Bytes)
  /-- `start` has returned; the receive loop has begun or not -/
  | session (conn : Conn) (buffer : Bytes) (begun : Bool)
  /-- `start` has raised -/
  | failed

inductive WireAction where
  | chunk (b : Bytes)
  | lost
  | error
  /-- the receive loop runs for the first time -/
  | begin
  | act (a : Action)

def WireAction.bytes : WireAction → Bytes
  | .chunk b => b
  | _ => []

/-- by the receive loop, which gets bytes here -/
def Action.receives : Action → Bool
  | .recv _ | .eof | .readError => true
  | _ => false

namespace Wire

/-- the `read_line` calls of `start`, as many as the number says, up to a suspension or their end -/
def greet (cfg : Config) : Nat → List Bytes → Bytes → Wire
  | 0, lines, b => .session (Conn.started cfg lines) b false
  | k + 1, lines, b =>
    match takeLine b with
    | some (line, rest) => greet cfg k (lines ++ [line]) rest
    | none => .greeting lines b

def step (cfg : Config) : Wire → WireAction → Option Wire
  | .greeting lines buffer, .chunk b =>
    if b = [] then some .failed
    else some (greet cfg (greetingLines - lines.length) lines (buffer ++ b))
  | .greeting _ _, .lost | .greeting _ _, .error => some .failed
  | .session s buffer false, .begin =>
    if s.recvTask = .running then
      some (.session (s.readBuffer buffer).1 (s.readBuffer buffer).2 true)
    else none
  | .session s buffer true, .chunk b =>
    if s.recvTask = .running then
      if b = [] then some (.session s.recvEof buffer true)
      else
        some (.session (s.readBuffer (buffer ++ b)).1 (s.readBuffer (buffer ++ b)).2 true)
    else none
  | .session s buffer true, .lost =>
    if s.recvTask = .running then some (.session s.recvEof buffer true) else none
  | .session s buffer true, .error =>
    if s.recvTask = .running then some (.session s.recvCrash buffer true) else none
  | .session s buffer begun, .act a =>
    if a.receives then none else (s.step cfg a).map fun s' => .session s' buffer begun
  | _, _ => none

/-! ## what every run keeps -/

/-- what is known when the bytes `S` have arrived, and each step inside the connection has met the
condition -/
inductive Reached (cfg : Config) (C : Conn → Action → Prop) (S : Bytes) : Wire → Prop where
  | greeting {lines : List Bytes} {b : Bytes} : Reads S lines b → lines.length < greetingLines →
      LF ∉ b → Reached cfg C S (.greeting lines b)
  | session {g : List Bytes} {s : Conn} {b : Bytes} {begun : Bool} : g.length = greetingLines →
      Sys.Reach (Conn.step cfg) C (Conn.started cfg g) s → Reads S (g ++ s.received) b →
      (begun = true → s.recvTask = .running → LF ∉ b) → Reached cfg C S (.session s b begun)
  | failed : Reached cfg C S .failed

section
variable {cfg : Config} {C : Conn → Action → Prop} {S : Bytes}

theorem reached_greet {k : Nat} {lines : List Bytes} {b : Bytes} (h : Reads S lines b)
    (hk : lines.length + k = greetingLines) : Reached cfg C S (greet cfg k lines b) := by
  induction k generalizing lines b with
  | zero =>
    refine .session hk .init ?_ nofun
    rw [show (Conn.started cfg lines).received = [] from rfl, List.append_nil]
    exact h
  | succ k ih =>
    unfold greet
    cases htake : takeLine b with
    | none => exact .greeting h (by omega) (takeLine_eq_none htake)
    | some r =>
      refine ih (h.line htake) ?_
      rw [List.length_append, List.length_singleton]
      omega

/-- from `s` on, each step inside the connection meets the condition, and the lines received are
those taken from the stream -/
structure Advances (cfg : Config) (C : Conn → Action → Prop) (S : Bytes) (g : List Bytes)
    (s s' : Conn) (b : Bytes) (begun : Bool) : Prop where
  reach : Sys.Reach (Conn.step cfg) C s s'
  reads : Reads S (g ++ s'.received) b
  rest : begun = true → s'.recvTask = .running → LF ∉ b

/-- the condition is met by what a step over bytes does inside the connection -/
structure Meets (cfg : Config) (C : Conn → Action → Prop) (S : Bytes) (g : List Bytes) (s : Conn)
    (a : WireAction) : Prop where
  act : ∀ b, a = .act b → C s b
  eof : ∀ s', C s' .eof
  readError : ∀ s', C s' .readError
  recv : ∀ s' line rest, Sys.Reach (Conn.step cfg) C s s' → s'.recvTask = .running →
    Reads S (g ++ (s'.received ++ [line])) rest → C s' (.recv line)

theorem Meets.any (cfg : Config) (S : Bytes) (g : List Bytes) (s : Conn) (a : WireAction) :
    Meets cfg Conn.anyStep S g s a :=
  ⟨fun _ _ => trivial, fun _ => trivial, fun _ => trivial, fun _ _ _ _ _ _ => trivial⟩

variable {g : List Bytes} {s₀ s : Conn} {b : Bytes}

theorem advances_recvEof (hb : Conn.Base s) (hs : Sys.Reach (Conn.step cfg) C s₀ s)
    (hreads : Reads S (g ++ s.received) b) (hrun : s.recvTask = .running) (hC : C s .eof) :
    Advances cfg C S g s₀ s.recvEof b true := by
  have hstep : s.step cfg .eof = some s.recvEof := if_pos hrun
  refine ⟨hs.step hC hstep, ?_, fun _ h => by cases h⟩
  rw [(Conn.step_between hb hstep nofun).1]
  exact hreads

theorem advances_recvCrash (hb : Conn.Base s) (hs : Sys.Reach (Conn.step cfg) C s₀ s)
    (hreads : Reads S (g ++ s.received) b) (hrun : s.recvTask = .running)
    (hC : C s .readError) : Advances cfg C S g s₀ s.recvCrash b true := by
  have hstep : s.step cfg .readError = some s.recvCrash := if_pos hrun
  refine ⟨hs.step hC hstep, ?_, fun _ h => by cases h⟩
  rw [(Conn.step_between hb hstep nofun).1]
  exact hreads

/-- **The lines in the buffer, one after the other**, are steps of the line machine. -/
theorem advances_readOn {a : WireAction} (hC : Meets cfg C S g s₀ a) {fuel : Nat}
    (hb : Conn.Base s) (hs : Sys.Reach (Conn.step cfg) C s₀ s)
    (hreads : Reads S (g ++ s.received) b) (hrun : s.recvTask = .running)
    (hfuel : b.length < fuel) :
    Advances cfg C S g s₀ (s.readOn fuel b).1 (s.readOn fuel b).2 true := by
  induction fuel generalizing s b with
  | zero => omega
  | succ fuel ih =>
    unfold Conn.readOn
    cases htake : takeLine b with
    | some r =>
      obtain ⟨line, rest⟩ := r
      have hstep : s.step cfg (.recv line) = some (s.recvLine line) := if_pos hrun
      have hreads' : Reads S (g ++ (s.recvLine line).received) rest := by
        rw [Conn.recvLine_received, ← List.append_assoc]
        exact hreads.line htake
      have hline : C s (.recv line) :=
        hC.recv s line rest hs hrun (Conn.recvLine_received s line ▸ hreads')
      have hlt := (linesOf_of_takeLine htake).2
      simp only []
      split
      · rename_i hrun'
        exact ih (Conn.step_base hb hstep) (hs.step hline hstep) hreads' hrun' (by omega)
      · rename_i hend
        exact ⟨hs.step hline hstep, hreads', fun _ hrun' => absurd hrun' hend⟩
    | none =>
      simp only []
      split
      · exact advances_recvEof hb hs hreads hrun (hC.eof s)
      · exact ⟨hs, hreads, fun _ _ => takeLine_eq_none htake⟩

theorem step_act {begun : Bool} {a : Action} {w : Wire}
    (hs : (Wire.session s b begun).step cfg (.act a) = some w) :
    a.receives = false ∧ ∃ s', s.step cfg a = some s' ∧ w = .session s' b begun := by
  simp only [step] at hs
  split at hs
  · cases hs
  · rename_i ha
    obtain ⟨s', hs', rfl⟩ := Option.map_eq_some_iff.mp hs
    exact ⟨Bool.eq_false_iff.mpr ha, s', hs', rfl⟩

/-- **A step over bytes, inside a session.** -/
theorem step_session {begun : Bool} {a : WireAction} {w : Wire} (hb : Conn.Base s)
    (hreads : Reads S (g ++ s.received) b)
    (hrest : begun = true → s.recvTask = .running → LF ∉ b)
    (hC : Meets cfg C (S ++ a.bytes) g s a)
    (hs : (Wire.session s b begun).step cfg a = some w) :
    ∃ s' b' begun', w = .session s' b' begun' ∧
      Advances cfg C (S ++ a.bytes) g s s' b' begun' := by
  have hmore : Reads (S ++ []) (g ++ s.received) b := by rw [List.append_nil]; exact hreads
  cases a with
  | act a =>
    obtain ⟨ha, s', hs', rfl⟩ := step_act hs
    have hreceived := (Conn.step_between hb hs' (by rintro l rfl; cases ha)).1
    refine ⟨s', b, begun, rfl, Sys.Reach.init.step (hC.act a rfl) hs', ?_, fun hbegun hrun => ?_⟩
    · rw [hreceived]
      exact hmore
    -- a closed connection does not open again
    refine hrest hbegun (hb.tasks.recv.mpr ?_)
    by_contra hclosed
    have hclosed' := Conn.step_closed hs' (Bool.not_eq_false _ ▸ hclosed)
    rw [(Conn.step_base hb hs').tasks.recv.mp hrun] at hclosed'
    cases hclosed'
  | begin =>
    cases begun with
    | true => cases hs
    | false =>
      simp only [step] at hs
      split at hs <;> cases hs
      rename_i hrun
      exact ⟨_, _, _, rfl, advances_readOn hC hb .init hmore hrun (Nat.lt_succ_self _)⟩
  | chunk c =>
    cases begun with
    | false => cases hs
    | true =>
      simp only [step] at hs
      split at hs
      · rename_i hrun
        split at hs <;> cases hs
        · rename_i hc
          subst hc
          exact ⟨_, _, _, rfl, advances_recvEof hb .init hmore hrun (hC.eof s)⟩
        · exact ⟨_, _, _, rfl,
            advances_readOn hC hb .init (hreads.append c) hrun (Nat.lt_succ_self _)⟩
      · cases hs
  | lost =>
    cases begun with
    | false => cases hs
    | true =>
      simp only [step] at hs
      split at hs <;> cases hs
      rename_i hrun
      exact ⟨_, _, _, rfl, advances_recvEof hb .init hmore hrun (hC.eof s)⟩
  | error =>
    cases begun with
    | false => cases hs
    | true =>
      simp only [step] at hs
      split at hs <;> cases hs
      rename_i hrun
      exact ⟨_, _, _, rfl, advances_recvCrash hb .init hmore hrun (hC.readError s)⟩

theorem step_greeting {lines : List Bytes} {w : Wire} {a : WireAction} (hreads : Reads S lines b)
    (hlen : lines.length < greetingLines) (hs : (Wire.greeting lines b).step cfg a = some w) :
    Reached cfg C (S ++ a.bytes) w := by
  cases a with
  | chunk c =>
    simp only [step] at hs
    split at hs <;> cases hs
    · exact .failed
    · exact reached_greet (hreads.append c) (by omega)
  | lost | error =>
    cases hs
    exact .failed
  | begin => cases hs
  | act a => cases hs

theorem step_reached {w w' : Wire} {a : WireAction} (h : Reached cfg C S w)
    (hC : ∀ g s, Meets cfg C (S ++ a.bytes) g s a) (hs : w.step cfg a = some w') :
    Reached cfg C (S ++ a.bytes) w' := by
  cases h with
  | failed => cases a <;> cases hs
  | greeting hreads hlen _ => exact step_greeting hreads hlen hs
  | @session g s b begun hg hreach hreads hrest =>
    obtain ⟨s', b', begun', rfl, hadv⟩ :=
      step_session (Conn.reach_base hreach) hreads hrest (hC g s) hs
    exact .session hg (hreach.trans hadv.reach) hadv.reads hadv.rest

end

/-! ## every run -/

/-- the bytes that arrived in a run -/
def stream (as : List WireAction) : Bytes := as.flatMap WireAction.bytes

def anyAct : Wire → WireAction → Prop := fun _ _ => True

def init : Wire := .greeting [] []

theorem reached_of_trace {cfg : Config} {as : List WireAction} {w : Wire}
    (h : Sys.Trace (step cfg) anyAct init as w) : Reached cfg Conn.anyStep (stream as) w := by
  induction h with
  | init => exact .greeting .none (by decide) List.not_mem_nil
  | @step as w w' a _ _ hs ih =>
    have hstream : stream (as ++ [a]) = stream as ++ a.bytes := by
      unfold stream
      rw [List.flatMap_append, List.flatMap_singleton]
    rw [hstream]
    exact step_reached ih (fun g s => .any cfg _ g s a) hs

/-- what a session has made of a stream, given the connection when `start` returned -/
structure Consumes (cfg : Config) (S : Bytes) (s : Conn) (done : Prop) : Prop where
  /-- the connection is one that the line machine reaches from the first two lines -/
  reach : Sys.Reach (Conn.step cfg) Conn.anyStep
    (Conn.started cfg ((linesOf S).take greetingLines)) s
  /-- what the receive loop received are the lines after them, in order -/
  received : s.received <+: (linesOf S).drop greetingLines
  /-- and nothing of them is still to come when it waits for bytes -/
  complete : done → s.received = (linesOf S).drop greetingLines
  /-- what it published are the notifications among the lines received -/
  published : s.published = (s.received.filter isEventLine).map Event.fromLine

/-- **A session over bytes is a session over lines.**  However the stream is cut into chunks,
wherever the chunks fall between the other steps, and whatever lies between the greeting and the
first run of the receive loop: no line is lost, repeated, split or swapped. -/
theorem wire_refines {cfg : Config} {as : List WireAction} {s : Conn} {b : Bytes} {begun : Bool}
    (h : Sys.Trace (step cfg) anyAct init as (.session s b begun)) :
    Consumes cfg (stream as) s (begun = true ∧ s.recvTask = .running) := by
  cases reached_of_trace h with
  | @session g _ _ _ hg hreach hreads hrest =>
    have hlines := hreads.linesOf
    rw [List.append_assoc] at hlines
    have htake : (linesOf (stream as)).take greetingLines = g := by
      rw [hlines, ← hg, List.take_left]
    have hdrop : (linesOf (stream as)).drop greetingLines = s.received ++ linesOf b := by
      rw [hlines, ← hg, List.drop_left]
    obtain ⟨pairs, hreceived⟩ := Conn.exists_received hreach
    refine ⟨htake ▸ hreach, hdrop ▸ List.prefix_append _ _, ?_, hreceived.published⟩
    rintro ⟨hbegun, hrun⟩
    rw [hdrop, linesOf_of_notMem b (hrest hbegun hrun), List.append_nil]

def chunkedRun : List WireAction :=
  [.chunk (ascii "TS3\n\rWelc"), .chunk (ascii "ome\n\rnotify"), .begin,
    .act (.exec 0 (lit "version") [] none []), .act (.acquire (.task 0) .done),
    .chunk (ascii "x a=1\n\rversion=3\n"), .chunk (ascii "\rerror id=0 msg=ok\n\r"),
    .act (.resume (.task 0) {})]

theorem wire_refines_chunks :
    ∃ s b begun, Sys.run (step {}) init chunkedRun = some (.session s b begun) ∧
      Consumes {} (stream chunkedRun) s (begun = true ∧ s.recvTask = .running) := by
  have hrun : (Sys.run (step {}) init chunkedRun).any
      (fun | .session _ _ _ => true | _ => false) = true := by decide +kernel
  rw [Option.any_eq_true] at hrun
  obtain ⟨w, hw, hsession⟩ := hrun
  cases w with
  | session s b begun =>
    exact ⟨s, b, begun, hw, wire_refines (Sys.trace_of_run (fun _ _ _ => trivial) hw)⟩
  | _ => cases hsession

end Wire
end Atsq
