import Atsq.Connection.Linear
import Atsq.Connection.Wire

/-!
# Client, network and server

A whole session: the connection over bytes, a server that reads lines off the bytes that reach it
and writes its replies line by line, and a network that carries the bytes of both sides, each in
order, cut and delayed in any way.

* `Network`        the client, the bytes on their way, and the server with its log;
* `Rules srv`      the server writes notifications and its replies, commands are single lines, and
                   no call leaves, cancelled or by its send, while its answer is due;
* `Writes`         what the server has written, against its log;
* `Executed`       the lines of a call are in the log, once each, after the call began; the server
                   refused all but the last as floods, and the call returns its reply to the last.

Main result: `call_executed`.
-/

namespace Atsq
open Py SshTransport

/-! ## the server writes -/

/-- a way to write the reply that a line reader takes apart again -/
structure Reply.Sendable (r : Reply) (a : Answer) : Prop where
  written : r.Written a
  data : ∀ l ∈ a.data, isDataLine l = true ∧ PlainLine l
  terminator : PlainLine a.terminator

/-- neither of an answer nor cut by the framing -/
structure Notice (l : Bytes) : Prop where
  plain : PlainLine l
  noError : isErrorLine l = false
  noData : isDataLine l = false

def Demux.begun (d : Demux) : Nat := d.answers.length + if d.data = [] then 0 else 1

theorem Demux.begun_take (d : Demux) (l : Bytes) : d.begun ≤ (d.take l).begun := by
  unfold Demux.begun
  cases hl : isErrorLine l with
  | true =>
    rw [Demux.take_error d hl, List.length_append, List.length_singleton, if_pos rfl]
    split <;> omega
  | false =>
    cases hd : isDataLine l with
    | true =>
      rw [Demux.take_data d hd, if_neg (List.concat_ne_nil _ _)]
      refine Nat.add_le_add_left ?_ d.answers.length
      split <;> omega
    | false =>
      rw [Demux.take_neutral d hl hd]

theorem Demux.begun_takeAll (d : Demux) (ls : List Bytes) : d.begun ≤ (d.takeAll ls).begun := by
  induction ls generalizing d with
  | nil => exact le_rfl
  | cons l ls ih => exact (d.begun_take l).trans (ih (d.take l))

theorem Demux.lt_begun (d : Demux) {l : Bytes} (h : isErrorLine l = true ∨ isDataLine l = true) :
    d.answers.length < (d.take l).begun := by
  unfold Demux.begun
  cases hl : isErrorLine l with
  | true =>
    rw [Demux.take_error d hl, List.length_append, List.length_singleton, if_pos rfl]
    omega
  | false =>
    have hd := h.resolve_left (by rw [hl]; decide)
    rw [Demux.take_data d hd, if_neg (List.concat_ne_nil _ _)]
    exact Nat.lt_succ_self d.answers.length

/-- what the server has written since the greeting, and has yet to write, against its log -/
structure Writes (served : List (Bytes × Reply)) (out writing : List Bytes) : Prop where
  full : ∀ (k : Nat) (a : Answer), (demux out).answers[k]? = some a →
    ∃ line r, served[k]? = some (line, r) ∧ Reply.Written r a
  idle : writing = [] → (demux out).data = [] ∧ served.length = (demux out).answers.length
  busy : writing ≠ [] → ∃ line r a, served[(demux out).answers.length]? = some (line, r) ∧
    served.length = (demux out).answers.length + 1 ∧ Reply.Sound r ∧ r.Sendable a ∧
    (demux out).data ++ writing = a.data ++ [a.terminator]

section
variable {served : List (Bytes × Reply)} {out writing p : List Bytes} {l : Bytes}

theorem Writes.begun (h : Writes served out writing) : (demux out).begun ≤ served.length := by
  unfold Demux.begun
  by_cases hw : writing = []
  · obtain ⟨hdata, hlen⟩ := h.idle hw
    rw [if_pos hdata, hlen]
    exact le_rfl
  · obtain ⟨_, _, _, _, hlen, _⟩ := h.busy hw
    rw [hlen]
    split <;> omega

/-- a line of an answer was written after the line that it answers was served -/
theorem Writes.lt (h : Writes served out writing) (hp : p ++ [l] <+: out)
    (hl : isErrorLine l = true ∨ isDataLine l = true) :
    (demux p).answers.length < served.length := by
  obtain ⟨more, rfl⟩ := hp
  refine lt_of_lt_of_le ?_ h.begun
  rw [demux_append, demux_concat]
  exact lt_of_lt_of_le (Demux.lt_begun _ hl) (Demux.begun_takeAll _ _)

/-- and what a terminator closes is a way to write the reply -/
theorem Writes.closes (h : Writes served out writing) (hp : p ++ [l] <+: out)
    (hl : isErrorLine l = true) : ∃ line r,
      served[(demux p).answers.length]? = some (line, r) ∧
      Reply.Written r ⟨(demux p).data, l⟩ := by
  obtain ⟨more, rfl⟩ := hp
  refine h.full _ _ ?_
  have hanswers : (demux p).answers ++ [⟨(demux p).data, l⟩] <+:
      (demux (p ++ [l] ++ more)).answers := by
    rw [demux_append, demux_concat, Demux.take_error _ hl]
    exact Demux.answers_takeAll { answers := (demux p).answers ++ [_] } more
  obtain ⟨rest, hrest⟩ := hanswers
  rw [← hrest, List.getElem?_append_left (by simp), List.getElem?_concat_length]

theorem Writes.nil : Writes [] [] [] where
  full k a hk := by cases hk
  idle _ := ⟨rfl, rfl⟩
  busy h := absurd rfl h

theorem Writes.notify (h : Writes served out writing) (hl : Notice l) :
    Writes served (out ++ [l]) writing := by
  have hsame : demux (out ++ [l]) = demux out := by
    rw [demux_concat, Demux.take_neutral _ hl.noError hl.noData]
  refine ⟨?_, ?_, ?_⟩
  · rw [hsame]
    exact h.full
  · rw [hsame]
    exact h.idle
  · rw [hsame]
    exact h.busy

theorem Writes.serve (h : Writes served out []) {line : Bytes} {r : Reply} {a : Answer}
    (hr : r.Sound) (ha : r.Sendable a) :
    Writes (served ++ [(line, r)]) out (a.data ++ [a.terminator]) := by
  obtain ⟨hdata, hlen⟩ := h.idle rfl
  refine ⟨fun k b hk => ?_, fun he => absurd he (List.concat_ne_nil _ _), fun _ => ?_⟩
  · obtain ⟨line', r', hserved, hw⟩ := h.full k b hk
    refine ⟨line', r', ?_, hw⟩
    rw [List.getElem?_append_left (List.getElem?_eq_some_iff.mp hserved).1]
    exact hserved
  · refine ⟨line, r, a, ?_, ?_, hr, ha, ?_⟩
    · rw [← hlen, List.getElem?_concat_length]
    · rw [List.length_append, List.length_singleton, hlen]
    · rw [hdata, List.nil_append]

theorem Writes.write (h : Writes served out (l :: writing)) :
    Writes served (out ++ [l]) writing := by
  obtain ⟨line, r, a, hlast, hlen, hr, ha, hlines⟩ := h.busy (List.cons_ne_nil l writing)
  obtain ⟨herror, _⟩ := ha.written.parse hr
  cases writing with
  | nil =>
    obtain ⟨hdata, hl⟩ := List.append_inj' hlines rfl
    obtain rfl := (List.cons.inj hl).1
    have hdemux : demux (out ++ [a.terminator]) =
        { answers := (demux out).answers ++ [a], data := [] } := by
      rw [demux_concat, Demux.take_error _ herror, hdata]
    refine ⟨fun k b hk => ?_, fun _ => ?_, fun hne => absurd rfl hne⟩
    · rw [hdemux] at hk
      rcases Nat.lt_or_ge k (demux out).answers.length with hlt | hge
      · rw [List.getElem?_append_left hlt] at hk
        exact h.full k b hk
      · rw [List.getElem?_append_right hge, List.getElem?_singleton] at hk
        split at hk
        · obtain rfl := Option.some.inj hk
          obtain rfl : k = (demux out).answers.length := by omega
          exact ⟨line, r, hlast, ha.written⟩
        · cases hk
    · rw [hdemux, List.length_append, List.length_singleton]
      exact ⟨rfl, hlen⟩
  | cons l' ls =>
    have hmem : l ∈ a.data := by
      have hdata := congrArg List.dropLast hlines
      rw [List.dropLast_append_of_ne_nil (List.cons_ne_nil l _), List.dropLast_concat] at hdata
      rw [← hdata]
      exact List.mem_append_right _ List.mem_cons_self
    have hdemux : demux (out ++ [l]) = { demux out with data := (demux out).data ++ [l] } := by
      rw [demux_concat, Demux.take_data _ (ha.data l hmem).1]
    refine ⟨?_, fun he => (List.cons_ne_nil _ _ he).elim, fun _ => ⟨line, r, a, ?_, ?_, hr, ha, ?_⟩⟩
    · rw [hdemux]
      exact h.full
    · rw [hdemux]
      exact hlast
    · rw [hdemux]
      exact hlen
    · rw [hdemux, ← hlines]
      exact List.append_assoc _ _ _

end

/-! ## the machine -/

def Wire.written : Wire → Bytes
  | .session s _ _ => s.transport.written
  | _ => []

def Wire.conn : Wire → Option Conn
  | .session s _ _ => some s
  | _ => none

/-- the client, the bytes on their way, and the server -/
structure Network (σ : Type) where
  wire : Wire
  /-- how many of the bytes that the client wrote have reached the server -/
  heard : Nat
  /-- those of them that it did not read yet -/
  inbox : Bytes
  state : σ
  /-- the lines that the server served, and its replies -/
  served : List (Bytes × Reply)
  /-- the rest of the reply that it is writing -/
  writing : List Bytes
  /-- the lines that it wrote since the greeting -/
  out : List Bytes
  /-- the bytes of the server that did not reach the client yet -/
  downlink : Bytes

inductive NetworkAction where
  /-- a step of the client that reads no bytes -/
  | client (a : WireAction)
  /-- the next bytes of the client reach the server -/
  | arrive (n : Nat)
  /-- the next bytes of the server reach the client -/
  | deliver (n : Nat)
  /-- the server serves the next line, and has this to write -/
  | serve (answer : Answer)
  | write
  | notify (line : Bytes)

namespace Network
variable {σ : Type}

/-- the server has greeted the client -/
def init (srv : Server σ) (greeting : List Bytes) : Network σ where
  wire := Wire.init
  heard := 0
  inbox := []
  state := srv.init
  served := []
  writing := []
  out := []
  downlink := Conn.terminated greeting

def put (N : Network σ) (line : Bytes) (writing : List Bytes) : Network σ :=
  { N with
    writing := writing
    out := N.out ++ [line]
    downlink := N.downlink ++ (line ++ lineTerminator) }

def step (cfg : Config) (srv : Server σ) (N : Network σ) : NetworkAction → Option (Network σ)
  | .client a =>
    if a.bytes = [] then (N.wire.step cfg a).map fun w => { N with wire := w } else none
  | .arrive n =>
    if N.heard + n ≤ N.wire.written.length then
      some { N with
        heard := N.heard + n
        inbox := N.inbox ++ (N.wire.written.drop N.heard).take n }
    else none
  | .deliver n =>
    if 0 < n ∧ n ≤ N.downlink.length then
      (N.wire.step cfg (.chunk (N.downlink.take n))).map fun w =>
        { N with wire := w, downlink := N.downlink.drop n }
    else none
  | .serve answer =>
    match N.writing, takeLine N.inbox with
    | [], some (line, rest) =>
      some { N with
        inbox := rest
        state := (srv.serve N.state line).2
        served := N.served ++ [(line, (srv.serve N.state line).1)]
        writing := answer.data ++ [answer.terminator] }
    | _, _ => none
  | .write =>
    match N.writing with
    | line :: lines => some (N.put line lines)
    | [] => none
  | .notify line => some (N.put line N.writing)

end Network

/-- the lines of the calls that start need no second one -/
def Conn.PlainText (a : Action) : Prop := ∀ c line, Starts c a → a.text = .ok line → PlainLine line

/-- what the parties of a session keep to -/
structure Rules {σ : Type} (srv : Server σ) (N : Network σ) (a : NetworkAction) : Prop where
  leave : ∀ b s, a = .client (.act b) → N.wire.conn = some s → Conn.LeaveSafe s b
  plain : ∀ b, a = .client (.act b) → Conn.PlainText b
  reply : ∀ answer line rest, a = .serve answer → takeLine N.inbox = some (line, rest) →
    (srv.serve N.state line).1.Sendable answer
  notice : ∀ line, a = .notify line → Notice line

/-! ## what every run keeps -/

section
variable {σ : Type} (srv : Server σ)

/-- the state in which these lines leave the server -/
def Server.after (q : σ) (lines : List Bytes) : σ := lines.foldl (fun q l => (srv.serve q l).2) q

theorem Server.after_concat (q : σ) (lines : List Bytes) (l : Bytes) :
    srv.after q (lines ++ [l]) = (srv.serve (srv.after q lines) l).2 := List.foldl_concat _ _ _ _

theorem Server.repliesFrom_concat (q : σ) (lines : List Bytes) (l : Bytes) :
    srv.repliesFrom q (lines ++ [l])
      = srv.repliesFrom q lines ++ [(srv.serve (srv.after q lines) l).1] := by
  induction lines generalizing q with
  | nil => rfl
  | cons l' ls ih => exact congrArg (List.cons _) (ih (srv.serve q l').2)

end

namespace Conn
section
variable {σ : Type} {srv : Server σ} {cfg : Config} {g : List Bytes} {s s' : Conn}

theorem starts_of_receives {a : Action} (ha : a.receives = true) (c : Caller) : ¬ Starts c a := by
  intro h
  cases a with
  | recv line => cases c <;> cases h
  | eof => cases c <;> cases h
  | readError => cases c <;> cases h
  | _ => cases ha

theorem pairSafe_of_receives {a : Action} (ha : a.receives = true) : PairSafe s a := by
  refine ⟨?_, fun v c he => ?_⟩
  · rintro c drain rfl
    cases ha
  · cases he with
    | cancelled => cases ha
    | raises he => cases he <;> cases ha

/-- the client's part of the rules, and what it gets of the server's -/
def Polite (srv : Server σ) (s : Conn) (a : Action) : Prop := Serving srv s a ∧ PlainText a

theorem plain_of_polite (h : Sys.Reach (step cfg) (Polite srv) (started cfg g) s) :
    ∀ x ∈ s.sent, PlainLine x.line := by
  intro x hx
  obtain ⟨as, htrace⟩ := h.exists_trace
  obtain ⟨a, ha, hstarts, htext⟩ := asked_of_mem htrace hx
  obtain ⟨r, hr⟩ := htrace.of_mem ha
  exact hr.2 x.caller x.line hstarts htext

theorem lines_of_polite (h : Sys.Reach (step cfg) (Polite srv) (started cfg g) s) :
    s.lines = s.sent.map Sent.line := by
  have hplain := plain_of_polite h
  rw [lines, Session.map_snd_wire, List.map_eq_flatMap]
  exact List.flatMap_congr fun x hx => (hplain x hx).linesOf

theorem singleLines_of_polite (h : Sys.Reach (step cfg) (Polite srv) (started cfg g) s) {a : Action}
    (hs : s.step cfg a = some s') : SingleLines s a := by
  rintro c drain rfl _ _
  obtain ⟨as, htrace⟩ := h.exists_trace
  have hbusy : (s.execs c).pc.free = false := by
    cases step_cases hs with
    | acquire hpc _ _ => rw [hpc]; rfl
    | feed hfa _ => cases hfa
  obtain ⟨a, ha, hstarts, htext⟩ := (asked_of_trace htrace c).own hbusy
  obtain ⟨r, hr⟩ := htrace.of_mem ha
  exact (hr.2 c _ hstarts htext).1

theorem said_of_polite (h : Sys.Reach (step cfg) (Polite srv) (started cfg g) s) :
    linesOf s.transport.written = s.said :=
  linesOf_terminated (written_of_reach h) (plain_of_polite h)

theorem written_grows {a : Action} (hs : s.step cfg a = some s') :
    s.transport.written <+: s'.transport.written := by
  cases step_output hs with
  | mute hout =>
    have hwritten : s'.transport.written = s.transport.written := congrArg Out.written hout
    rw [hwritten]
  | line x _ hout =>
    have hwritten : s'.transport.written = s.transport.written ++ (x.line ++ lineTerminator) :=
      congrArg Out.written hout
    rw [hwritten]
    exact List.prefix_append _ _
  | quit hquit =>
    have hwritten : s'.transport.written =
        s.transport.written ++ (ascii "quit" ++ lineTerminator) := congrArg Out.written hquit.out
    rw [hwritten]
    exact List.prefix_append _ _

theorem written_grows_of_reach {C : Conn → Action → Prop} (h : Sys.Reach (step cfg) C s s') :
    s.transport.written <+: s'.transport.written :=
  h.inv (I := fun t => s.transport.written <+: t.transport.written) List.prefix_rfl
    fun _ _ _ hi _ hs => hi.trans (written_grows hs)

theorem closed_of_reach {C : Conn → Action → Prop} (h : Sys.Reach (step cfg) C s s')
    (hclosed : s.closed = true) : s'.closed = true :=
  h.inv (I := fun t => t.closed = true) hclosed fun _ _ _ hi _ hs => step_closed hs hi

end
end Conn

namespace Network
variable {σ : Type}

structure Joined (cfg : Config) (srv : Server σ) (greeting : List Bytes) (N : Network σ) :
    Prop where
  heard : N.heard ≤ N.wire.written.length
  /-- the server serves the lines that it reads, in order -/
  reads : Reads (N.wire.written.take N.heard) (N.served.map Prod.fst) N.inbox
  log : N.served.map Prod.snd = srv.replies (N.served.map Prod.fst)
  state : N.state = srv.after srv.init (N.served.map Prod.fst)
  writes : Writes N.served N.out N.writing
  plain : ∀ l ∈ greeting ++ (N.out ++ N.writing), PlainLine l
  /-- what the client got and what is on its way are what the server wrote -/
  link : ∃ S, Wire.Reached cfg (Conn.Polite srv) S N.wire ∧
    S ++ N.downlink = Conn.terminated (greeting ++ N.out)

section
variable {cfg : Config} {srv : Server σ} {greeting g : List Bytes} {N N' : Network σ} {s s' : Conn}

theorem reached_conn {C : Conn → Action → Prop} {S : Bytes} {w : Wire}
    (h : Wire.Reached cfg C S w) (hs : w.conn = some s) :
    ∃ g b begun, w = .session s b begun ∧ g.length = greetingLines ∧
      Sys.Reach (Conn.step cfg) C (Conn.started cfg g) s ∧ Reads S (g ++ s.received) b ∧
      (begun = true → s.recvTask = .running → LF ∉ b) := by
  cases h with
  | session hg hreach hreads hrest =>
    cases hs
    exact ⟨_, _, _, rfl, hg, hreach, hreads, hrest⟩
  | _ => cases hs

/-- the lines that the client reads were written by the server -/
theorem Joined.prefix_out (h : Joined cfg srv greeting N) (hlen : greeting.length = greetingLines)
    (hg : g.length = greetingLines) {S more rest : Bytes} {lines : List Bytes}
    (hstream : S ++ more = Conn.terminated (greeting ++ N.out))
    (hreads : Reads S (g ++ lines) rest) : lines <+: N.out := by
  have hplain : ∀ l ∈ greeting ++ N.out, PlainLine l := fun l hl => by
    refine h.plain l ?_
    rw [← List.append_assoc]
    exact List.mem_append_left _ hl
  have hlines := (hreads.append more).linesOf
  have hsent : linesOf (Conn.terminated (greeting ++ N.out)) = greeting ++ N.out :=
    linesOf_sent_plain (greeting ++ N.out) hplain
  rw [hstream, hsent, List.append_assoc] at hlines
  obtain ⟨_, hout⟩ := List.append_inj hlines (hlen.trans hg.symm)
  rw [hout]
  exact List.prefix_append _ _

/-- the server has served lines of the client, in order -/
theorem Joined.served_said (h : Joined cfg srv greeting N) (hs : N.wire.conn = some s) :
    N.served.map Prod.fst <+: s.said := by
  obtain ⟨S, hreached, _⟩ := h.link
  obtain ⟨g, b, begun, hw, _, hreach, _, _⟩ := reached_conn hreached hs
  have hwritten : N.wire.written = s.transport.written := by rw [hw]; rfl
  have hlines := (h.reads.append (N.wire.written.drop N.heard)).linesOf
  rw [List.take_append_drop, hwritten, Conn.said_of_polite hreach] at hlines
  rw [hlines]
  exact List.prefix_append _ _

theorem Joined.served_lines (h : Joined cfg srv greeting N) (hs : N.wire.conn = some s)
    (hopen : s.closed = false) : N.served.map Prod.fst <+: s.lines := by
  obtain ⟨S, hreached, _⟩ := h.link
  obtain ⟨g, b, begun, hw, _, hreach, _, _⟩ := reached_conn hreached hs
  have hsaid : s.said = s.lines := by
    rw [Conn.lines_of_polite hreach]
    unfold Conn.said
    rw [(Conn.reach_base hreach).quitsOpen hopen]
    exact List.append_nil _
  rw [← hsaid]
  exact h.served_said hs

/-- **What the client receives is what the server may say.** -/
theorem Joined.polite (h : Joined cfg srv greeting N) {C : Conn → Action → Prop}
    (hs : N.wire.conn = some s) (hbase : Conn.Base s)
    (hreach : Sys.Reach (Conn.step cfg) C s s') (hrun : s'.recvTask = .running) {line : Bytes}
    (hline : s'.received ++ [line] <+: N.out) : Conn.Polite srv s' (.recv line) := by
  have hbase' : Conn.Base s' := hreach.inv (I := Conn.Base) hbase
    fun _ _ _ hi _ hs => Conn.step_base hi hs
  have hopen : s.closed = false := by
    by_contra hclosed
    have hclosed' := Conn.closed_of_reach hreach (Bool.not_eq_false _ ▸ hclosed)
    cases hclosed'.symm.trans (hbase'.tasks.recv.mp hrun)
  have hlines : N.served.map Prod.fst <+: s'.lines :=
    (h.served_lines hs hopen).trans (Conn.lines_grow_of_reach hreach)
  refine ⟨⟨Conn.pairSafe_of_receives rfl, ?_⟩,
    fun c _ hstarts => absurd hstarts (Conn.starts_of_receives rfl c)⟩
  · rintro _ ⟨⟩ hkind
    have hlt := h.writes.lt hline hkind
    refine ⟨?_, fun herror => ?_⟩
    · refine lt_of_lt_of_le hlt ?_
      have := hlines.length_le
      rwa [List.length_map] at this
    · obtain ⟨l, r, hserved, hw⟩ := h.writes.closes hline herror
      refine ⟨r, ?_, hw⟩
      obtain ⟨more, hmore⟩ := srv.replies_prefix hlines
      rw [← hmore, ← h.log, List.getElem?_append_left (by rw [List.length_map]; exact hlt),
        List.getElem?_map, hserved]
      rfl

/-- what the client's side of a step comes to -/
structure Carries (cfg : Config) (srv : Server σ) (E : Action → Prop) (S : Bytes) (w w' : Wire) :
    Prop where
  reached : Wire.Reached cfg (Conn.Polite srv) S w'
  written : w.written <+: w'.written
  conn : ∀ s, w.conn = some s → ∃ s', w'.conn = some s' ∧
    Sys.Reach (Conn.step cfg) (fun s a => Conn.Polite srv s a ∧ E a) s s'

theorem step_wire (h : Joined cfg srv greeting N) (hlen : greeting.length = greetingLines)
    {E : Action → Prop} (hE : ∀ b, b.receives = true → E b) {a : WireAction} {w : Wire}
    {S more : Bytes} (hS : Wire.Reached cfg (Conn.Polite srv) S N.wire)
    (hstream : S ++ a.bytes ++ more = Conn.terminated (greeting ++ N.out))
    (hact : ∀ b s, a = .act b → N.wire.conn = some s →
      Conn.LeaveSafe s b ∧ Conn.PlainText b ∧ E b)
    (hs : N.wire.step cfg a = some w) : Carries cfg srv E (S ++ a.bytes) N.wire w := by
  cases hwire : N.wire with
  | greeting lines b =>
    rw [hwire] at hS hs
    cases hS with
    | greeting hreads hlines _ =>
      exact ⟨Wire.step_greeting hreads hlines hs, List.nil_prefix, fun s hs => by cases hs⟩
  | session s b begun =>
    have hconn : N.wire.conn = some s := by rw [hwire]; rfl
    rw [hwire] at hS hs
    cases hS with
    | @session g _ _ _ hg hreach hreads hrest =>
      have hbase := Conn.reach_base hreach
      have hmeets : Wire.Meets cfg (fun s a => Conn.Polite srv s a ∧ E a) (S ++ a.bytes) g s a := by
        have hquiet : ∀ s' b, b.receives = true → (∀ line, b ≠ .recv line) →
            Conn.Polite srv s' b ∧ E b := by
          intro s' b hb hrecv
          exact ⟨⟨⟨Conn.pairSafe_of_receives hb, fun line he => absurd he (hrecv line)⟩,
            fun c _ hstarts => absurd hstarts (Conn.starts_of_receives hb c)⟩, hE b hb⟩
        refine ⟨?_, fun s' => hquiet s' .eof rfl nofun, fun s' => hquiet s' .readError rfl nofun,
          ?_⟩
        · rintro b rfl
          obtain ⟨hleave, htext, hb⟩ := hact b s rfl hconn
          obtain ⟨hb', s', hs', _⟩ := Wire.step_act hs
          refine ⟨⟨⟨⟨Conn.singleLines_of_polite hreach hs', hleave⟩, ?_⟩, htext⟩, hb⟩
          rintro line rfl
          cases hb'
        · intro s' line rest hreach' hrun hreads'
          have hline := h.prefix_out hlen hg hstream hreads'
          exact ⟨h.polite hconn hbase hreach' hrun hline, hE (.recv line) rfl⟩
      obtain ⟨s', b', begun', rfl, hadv⟩ := Wire.step_session hbase hreads hrest hmeets hs
      have hpolite := hadv.reach.mono (D := Conn.Polite srv) fun _ _ ha => ha.1
      refine ⟨.session hg (hreach.trans hpolite) hadv.reads hadv.rest,
        Conn.written_grows_of_reach hadv.reach, ?_⟩
      rintro _ ⟨⟩
      exact ⟨s', rfl, hadv.reach⟩
  | failed =>
    rw [hwire] at hs
    cases a <;> cases hs

/-! ## every step -/

theorem Joined.wired (h : Joined cfg srv greeting N) {w : Wire} {S rest : Bytes}
    (hwritten : N.wire.written <+: w.written) (hS : Wire.Reached cfg (Conn.Polite srv) S w)
    (hrest : S ++ rest = Conn.terminated (greeting ++ N.out)) :
    Joined cfg srv greeting { N with wire := w, downlink := rest } := by
  refine ⟨h.heard.trans hwritten.length_le, ?_, h.log, h.state, h.writes, h.plain, S, hS, hrest⟩
  obtain ⟨more, hmore⟩ := hwritten
  show Reads (w.written.take N.heard) _ _
  rw [← hmore, List.take_append_of_le_length h.heard]
  exact h.reads

theorem Joined.put (h : Joined cfg srv greeting N) {line : Bytes} {writing : List Bytes}
    (hw : Writes N.served (N.out ++ [line]) writing) (hline : PlainLine line)
    (hwriting : ∀ l ∈ writing, PlainLine l) : Joined cfg srv greeting (N.put line writing) := by
  obtain ⟨S, hS, hstream⟩ := h.link
  refine ⟨h.heard, h.reads, h.log, h.state, hw, fun l hl => ?_, S, hS, ?_⟩
  · have hl : l ∈ greeting ++ (N.out ++ [line] ++ writing) := hl
    rw [List.mem_append, List.mem_append, List.mem_append, List.mem_singleton] at hl
    rcases hl with hl | (hl | rfl) | hl
    · exact h.plain l (List.mem_append_left _ hl)
    · exact h.plain l (List.mem_append_right _ (List.mem_append_left _ hl))
    · exact hline
    · exact hwriting l hl
  · show S ++ (N.downlink ++ (line ++ lineTerminator)) =
      Conn.terminated (greeting ++ (N.out ++ [line]))
    rw [← List.append_assoc greeting, Conn.terminated_concat, ← hstream, List.append_assoc S]

/-- **Every step**: what is known of the session is kept, and the client goes on inside the
connection. -/
theorem step_joined (hsrv : srv.Sound) (hlen : greeting.length = greetingLines) {E : Action → Prop}
    (hE : ∀ b, b.receives = true → E b) {a : NetworkAction} (h : Joined cfg srv greeting N)
    (hr : Rules srv N a) (ha : ∀ b, a = .client (.act b) → E b)
    (hs : N.step cfg srv a = some N') :
    Joined cfg srv greeting N' ∧ ∀ s, N.wire.conn = some s → ∃ s', N'.wire.conn = some s' ∧
      Sys.Reach (Conn.step cfg) (fun s a => Conn.Polite srv s a ∧ E a) s s' := by
  obtain ⟨S, hS, hstream⟩ := h.link
  have same : ∀ s, N.wire.conn = some s → ∃ s', N.wire.conn = some s' ∧
      Sys.Reach (Conn.step cfg) (fun s a => Conn.Polite srv s a ∧ E a) s s' :=
    fun s hs => ⟨s, hs, .init⟩
  cases a with
  | client a =>
    simp only [step] at hs
    split at hs
    · rename_i hbytes
      obtain ⟨w, hw, rfl⟩ := Option.map_eq_some_iff.mp hs
      have hall : S ++ a.bytes ++ N.downlink = Conn.terminated (greeting ++ N.out) := by
        rw [hbytes, List.append_nil]
        exact hstream
      have hcar := step_wire h hlen hE hS hall
        (fun b s he hconn => by
          subst he
          exact ⟨hr.leave b s rfl hconn, hr.plain b rfl, ha b rfl⟩) hw
      exact ⟨h.wired hcar.written hcar.reached hall, hcar.conn⟩
    · cases hs
  | arrive n =>
    simp only [step] at hs
    split at hs <;> cases hs
    rename_i hn
    refine ⟨⟨hn, ?_, h.log, h.state, h.writes, h.plain, S, hS, hstream⟩, same⟩
    show Reads (N.wire.written.take (N.heard + n)) _ _
    rw [List.take_add]
    exact h.reads.append _
  | deliver n =>
    simp only [step] at hs
    split at hs
    · rename_i hn
      obtain ⟨w, hw, rfl⟩ := Option.map_eq_some_iff.mp hs
      have hall : S ++ (WireAction.chunk (N.downlink.take n)).bytes ++ N.downlink.drop n =
          Conn.terminated (greeting ++ N.out) := by
        show S ++ N.downlink.take n ++ N.downlink.drop n = _
        rw [List.append_assoc, List.take_append_drop]
        exact hstream
      have hcar := step_wire h hlen hE hS hall (fun b s he => by cases he) hw
      exact ⟨h.wired hcar.written hcar.reached hall, hcar.conn⟩
    · cases hs
  | serve answer =>
    simp only [step] at hs
    split at hs
    · rename_i line rest hwriting htake
      cases hs
      have hsend := hr.reply answer line rest rfl htake
      have hw := h.writes
      rw [hwriting] at hw
      refine ⟨⟨h.heard, ?_, ?_, ?_, hw.serve (hsrv _ _) hsend, fun l hl => ?_, S, hS, hstream⟩,
        same⟩
      · rw [List.map_append]
        exact h.reads.line htake
      · rw [List.map_append, List.map_append, h.log, h.state]
        exact (srv.repliesFrom_concat srv.init _ line).symm
      · rw [List.map_append, h.state]
        exact (srv.after_concat srv.init _ line).symm
      · have hl : l ∈ greeting ++ (N.out ++ (answer.data ++ [answer.terminator])) := hl
        rw [← List.append_assoc, List.mem_append, List.mem_append, List.mem_append,
          List.mem_singleton] at hl
        rcases hl with (hl | hl) | hl | rfl
        · exact h.plain l (List.mem_append_left _ hl)
        · exact h.plain l (List.mem_append_right _ (List.mem_append_left _ hl))
        · exact (hsend.data l hl).2
        · exact hsend.terminator
    · cases hs
  | write =>
    simp only [step] at hs
    split at hs
    · rename_i line lines hwriting
      cases hs
      have hw := h.writes
      have hplain := h.plain
      rw [hwriting] at hw hplain
      refine ⟨h.put hw.write (hplain line ?_) fun l hl => hplain l ?_, same⟩
      · simp
      · simp [hl]
    · cases hs
  | notify line =>
    cases hs
    have hn := hr.notice line rfl
    refine ⟨h.put (h.writes.notify hn) hn.plain fun l hl => h.plain l ?_, same⟩
    exact List.mem_append_right _ (List.mem_append_right _ hl)

/-! ## every run -/

theorem joined_init (cfg : Config) (srv : Server σ) (hplain : ∀ l ∈ greeting, PlainLine l) :
    Joined cfg srv greeting (init srv greeting) where
  heard := Nat.zero_le _
  reads := .none
  log := rfl
  state := rfl
  writes := .nil
  plain l hl := by
    rw [show greeting ++ ((init srv greeting).out ++ (init srv greeting).writing) = greeting from
      List.append_nil _] at hl
    exact hplain l hl
  link := ⟨[], .greeting .none (by decide) List.not_mem_nil,
    congrArg Conn.terminated (List.append_nil greeting).symm⟩

/-- every answer that the client got is a way to write a reply of the log -/
theorem Joined.replied (h : Joined cfg srv greeting N) (hlen : greeting.length = greetingLines)
    (hs : N.wire.conn = some s) : Conn.Replied (N.served.map Prod.snd) s := by
  obtain ⟨S, hreached, hstream⟩ := h.link
  obtain ⟨g, b, begun, _, hg, _, hreads, _⟩ := reached_conn hreached hs
  obtain ⟨more, hmore⟩ := h.prefix_out hlen hg hstream hreads
  intro k a hk
  have hanswers : (demux s.received).answers <+: (demux N.out).answers := by
    rw [← hmore, demux_append]
    exact Demux.answers_takeAll _ _
  obtain ⟨rest, hrest⟩ := hanswers
  have hlt := (List.getElem?_eq_some_iff.mp hk).1
  obtain ⟨line, r, hserved, hw⟩ := h.writes.full k a (by
    rw [← hrest, List.getElem?_append_left hlt]
    exact hk)
  exact ⟨r, by rw [List.getElem?_map, hserved]; rfl, hw⟩

end

structure Executed (srv : Server σ) (N₀ N : Network σ) (s₀ s : Conn) (c : Caller)
    (text : Except RenderError Bytes) (floods rest : List Sent) : Prop where
  /-- the log is what the server makes of the lines of the client, one after the other -/
  log : N.served.map Prod.snd = srv.replies (N.served.map Prod.fst)
  lines : N.served.map Prod.fst <+: s.said
  /-- the lines of the call are its text, each at its place, behind what was served before it -/
  sent : s.session.sentBy c = s₀.session.sentBy c ++ (floods ++ rest)
  fresh : ∀ x ∈ floods ++ rest, text = .ok x.line ∧ s.lines[x.index]? = some x.line ∧
    N₀.served.length ≤ x.index
  once : rest.length ≤ 1
  refused : ∀ x ∈ floods, ∃ r, N.served[x.index]? = some (x.line, r) ∧ r.id = floodErrorId
  result : ∀ o, (s.execs c).pc = .finished o → (∃ rows, o = .rows rows) ∨ (∃ e, o = .queryError e) →
    ∃ x r, rest = [x] ∧ N.served[x.index]? = some (x.line, r) ∧ r.Gives o

end Network

namespace Conn
section
variable {cfg : Config} {s s' : Conn}

theorem sent_of_closed {C : Conn → Action → Prop} (h : Sys.Reach (step cfg) C s s')
    (hclosed : s.closed = true) : s'.sent = s.sent := by
  refine (h.inv (I := fun t => t.closed = true ∧ t.sent = s.sent) ⟨hclosed, rfl⟩ ?_).2
  rintro t a t' ⟨hclosed, hsent⟩ _ hs
  refine ⟨step_closed hs hclosed, ?_⟩
  cases step_output hs with
  | mute hout => exact (congrArg Out.sent hout).trans hsent
  | line x hopen _ => cases hclosed.symm.trans hopen
  | quit hquit => exact (congrArg Out.sent hquit.out).trans hsent

end
end Conn

namespace Network
variable {σ : Type}
section
variable {cfg : Config} {srv : Server σ} {greeting : List Bytes} {N₀ N : Network σ} {s₀ s : Conn}

/-- a line of a call, and its place in the log -/
theorem Joined.place (h₀ : Joined cfg srv greeting N₀) (h : Joined cfg srv greeting N)
    (hs₀ : N₀.wire.conn = some s₀) (hs : N.wire.conn = some s) {C : Conn → Action → Prop}
    (hreach : Sys.Reach (Conn.step cfg) C s₀ s) {c : Caller} {x : Sent}
    (hx : Conn.SentSince s₀ s c x) :
    s.lines[x.index]? = some x.line ∧ N₀.served.length ≤ x.index ∧
      ∀ r, (N.served.map Prod.snd)[x.index]? = some r → N.served[x.index]? = some (x.line, r) := by
  obtain ⟨S, hreached, _⟩ := h.link
  obtain ⟨_, _, _, _, _, hpolite, _, _⟩ := reached_conn hreached hs
  have hline : s.lines[x.index]? = some x.line := by
    have hplain := Conn.plain_of_polite hpolite x hx.mem
    rw [hx.line, strip_of_ends CR x.line hplain.2.1 hplain.2.2]
  refine ⟨hline, ?_, fun r hr => ?_⟩
  · cases hclosed : s₀.closed with
    | false =>
      have hle := (h₀.served_lines hs₀ hclosed).length_le
      rw [List.length_map] at hle
      exact hle.trans hx.since
    | true =>
      have hlt := (List.getElem?_eq_some_iff.mp hline).1
      have hsame : s.session.sent = s₀.session.sent := Conn.sent_of_closed hreach hclosed
      rw [Conn.lines, Session.wire, hsame] at hlt
      exact absurd hx.since (not_le_of_gt hlt)
  · rw [List.getElem?_map, Option.map_eq_some_iff] at hr
    obtain ⟨⟨l, r'⟩, hserved, rfl⟩ := hr
    obtain ⟨more, hmore⟩ := h.served_said hs
    have hsaid : s.said[x.index]? = some x.line := by
      rw [Conn.lines_of_polite hpolite] at hline
      unfold Conn.said
      rw [List.getElem?_append_left (List.getElem?_eq_some_iff.mp hline).1]
      exact hline
    have hlt := (List.getElem?_eq_some_iff.mp hserved).1
    rw [← hmore, List.getElem?_append_left (by rw [List.length_map]; exact hlt), List.getElem?_map,
      hserved] at hsaid
    rw [hserved, ← Option.some.inj hsaid]

/-- as the rules say, and the caller makes no other call -/
def WithinCall (srv : Server σ) (c : Caller) (N : Network σ) (a : NetworkAction) : Prop :=
  Rules srv N a ∧ ∀ b, a = .client (.act b) → ¬ Conn.Starts c b

theorem joined_of_reach (hsrv : srv.Sound) (hlen : greeting.length = greetingLines)
    (hplain : ∀ l ∈ greeting, PlainLine l)
    (h : Sys.Reach (step cfg srv) (Rules srv) (init srv greeting) N) :
    Joined cfg srv greeting N := by
  refine h.inv (joined_init cfg srv hplain) fun N a N' hi hr hs => ?_
  exact (step_joined hsrv hlen (E := fun _ => True) (fun _ _ => trivial) hi hr
    (fun _ _ => trivial) hs).1

theorem act_cases {N' : Network σ} {b : Action}
    (hs : N.step cfg srv (.client (.act b)) = some N') :
    ∃ s s', N.wire.conn = some s ∧ N'.wire.conn = some s' ∧ s.step cfg b = some s' := by
  simp only [step, WireAction.bytes, if_true] at hs
  obtain ⟨w, hw, rfl⟩ := Option.map_eq_some_iff.mp hs
  cases hwire : N.wire with
  | session s buffer begun =>
    rw [hwire] at hw
    obtain ⟨_, s', hs', rfl⟩ := Wire.step_act hw
    exact ⟨s, s', rfl, rfl, hs'⟩
  | _ =>
    rw [hwire] at hw
    cases hw

/-- **A call of `exec` is executed by the server, over the bytes of a network.**  However the bytes
of both sides are cut and delayed, whatever the other callers do and whenever the server notifies:
the lines of the call are in the log of the server, each once, between its start and its end; the
server refused all but the last of them as floods; and the rows or the error that the call returns
are the reply to the last one, which the server made of it in the state in which the lines before it
left the server. -/
theorem call_executed (hsrv : srv.Sound) (hlen : greeting.length = greetingLines)
    (hplain : ∀ l ∈ greeting, PlainLine l) {N₁ : Network σ} {n : Nat} {cmd : Str}
    {options : List Str} {blocks : Option (List Block)} {params : Block}
    (h₀ : Sys.Reach (step cfg srv) (Rules srv) (init srv greeting) N₀)
    (hrule : Rules srv N₀ (.client (.act (.exec n cmd options blocks params))))
    (hcall : N₀.step cfg srv (.client (.act (.exec n cmd options blocks params))) = some N₁)
    (h : Sys.Reach (step cfg srv) (WithinCall srv (.task n)) N₁ N) :
    ∃ s₀ s, N₀.wire.conn = some s₀ ∧ N.wire.conn = some s ∧ ∃ floods rest,
      Executed srv N₀ N s₀ s (.task n) (renderCommand cmd options blocks params) floods rest := by
  obtain ⟨s₀, s₁, hs₀, hs₁, hstep⟩ := act_cases hcall
  have hj₀ := joined_of_reach hsrv hlen hplain h₀
  have hj₁ := joined_of_reach hsrv hlen hplain (h₀.step hrule hcall)
  have hall : Joined cfg srv greeting N ∧ ∃ s, N.wire.conn = some s ∧ Sys.Reach (Conn.step cfg)
      (fun s a => Conn.Polite srv s a ∧ ¬ Conn.Starts (.task n) a) s₁ s := by
    refine h.inv (I := fun N => Joined cfg srv greeting N ∧ ∃ s, N.wire.conn = some s ∧
      Sys.Reach (Conn.step cfg) (fun s a => Conn.Polite srv s a ∧ ¬ Conn.Starts (.task n) a) s₁ s)
      ⟨hj₁, s₁, hs₁, .init⟩ ?_
    rintro M a M' ⟨hj, r, hr, hreach⟩ ⟨hrules, hstarts⟩ hs
    obtain ⟨hj', hgo⟩ :=
      step_joined hsrv hlen (fun _ hb => Conn.starts_of_receives hb _) hj hrules hstarts hs
    obtain ⟨r', hr', hmore⟩ := hgo r hr
    exact ⟨hj', r', hr', hreach.trans hmore⟩
  obtain ⟨hj, s, hs, hreach⟩ := hall
  obtain ⟨S, hreached, _⟩ := hj.link
  obtain ⟨g, b, begun, _, _, hpolite, _, _⟩ := reached_conn hreached hs
  obtain ⟨S₀, hreached₀, _⟩ := hj₀.link
  obtain ⟨g₀, b₀, begun₀, _, _, hpolite₀, _, _⟩ := reached_conn hreached₀ hs₀
  obtain ⟨ht, hi, _⟩ := Conn.reach_serving hsrv (hpolite.mono fun _ _ ha => ha.1)
  have hsound : ∀ r ∈ N.served.map Prod.snd, Reply.Sound r := fun r hr => by
    rw [hj.log] at hr
    exact Server.sound_of_mem hsrv hr
  have hsame : Sys.Reach (Conn.step cfg) (Conn.sameCall (.task n)) s₁ s :=
    hreach.mono fun _ _ ha => ha.2
  obtain ⟨floods, rest, heff⟩ := Conn.effected_of_call hsound (Conn.reach_base hpolite₀) hstep hsame
    ht.single hi (hj.replied hlen hs)
  have hsince : Sys.Reach (Conn.step cfg) Conn.anyStep s₀ s :=
    (Sys.Reach.init.step trivial hstep).trans (hreach.mono fun _ _ _ => trivial)
  have hplace : ∀ x ∈ floods ++ rest, _ := fun x hx =>
    hj₀.place hj hs₀ hs hsince (heff.lines x hx).2
  refine ⟨s₀, s, hs₀, hs, floods, rest, hj.log, hj.served_said hs, heff.sent, fun x hx => ?_,
    heff.once, fun x hx => ?_, fun o ho hres => ?_⟩
  · obtain ⟨hline, hfresh, _⟩ := hplace x hx
    exact ⟨(heff.lines x hx).1, hline, hfresh⟩
  · obtain ⟨r, hr, hflood⟩ := heff.refused x hx
    exact ⟨r, (hplace x (List.mem_append_left _ hx)).2.2 r hr, hflood⟩
  · obtain ⟨x, r, rfl, hr, hgives⟩ := heff.result o ho hres
    refine ⟨x, r, rfl, ?_, hgives⟩
    exact (hplace x (List.mem_append_right _ List.mem_cons_self)).2.2 r hr

end

def versionRules (N : Network Unit) : NetworkAction → Bool
  | .client (.act (.exec ..)) => false
  | .client (.act b) => N.wire.conn.all fun s => Conn.heardCheck s b
  | .serve answer => decide (answer = ⟨[ascii "version=3"], ascii "error id=0 msg=ok"⟩)
  | .notify line => decide (line = ascii "notifyx n=1")
  | _ => true

theorem plainText_whoami {b : Action} {c : Caller} {line : Bytes}
    (hb : ∀ n, ¬ Conn.Starts (.task n) b) (hstarts : Conn.Starts c b) (h : b.text = .ok line) :
    PlainLine line := by
  cases c with
  | task n => exact absurd hstarts (hb n)
  | keepalive =>
    cases b with
    | keepalive =>
      have hwhoami : Action.text .keepalive = .ok (ascii "whoami") := by decide +kernel
      obtain rfl := Except.ok.inj (hwhoami.symm.trans h)
      exact ⟨by decide, by decide, by decide⟩
    | _ => cases hstarts

theorem rules_of_check (N : Network Unit) (a : NetworkAction) (h : versionRules N a = true) :
    WithinCall Conn.versionServer (.task 0) N a := by
  have hnobody : ∀ b, a = .client (.act b) → ∀ n, ¬ Conn.Starts (.task n) b := by
    rintro b rfl n hn
    cases b with
    | exec m cmd options blocks params => cases h
    | _ => cases hn
  refine ⟨⟨?_, fun b hb c line hc => plainText_whoami (hnobody b hb) hc, ?_, ?_⟩,
    fun b hb => hnobody b hb 0⟩
  · rintro b s rfl hs
    have hheard : Conn.heardCheck s b = true := by
      cases b with
      | exec m cmd options blocks params => cases h
      | _ =>
        have h : N.wire.conn.all _ = true := h
        rw [hs] at h
        exact h
    exact Conn.leaveSafe_of_heardCheck b hheard
  · rintro answer line rest rfl _
    obtain rfl := of_decide_eq_true h
    refine ⟨Conn.versionReply_written, fun l hl => ?_, by decide, by decide, by decide⟩
    rw [List.mem_singleton.mp hl]
    exact ⟨by decide, by decide, by decide, by decide⟩
  · rintro line rfl
    obtain rfl := of_decide_eq_true h
    exact ⟨⟨by decide, by decide, by decide⟩, by decide, by decide⟩

def versionGreeting : List Bytes := [ascii "TS3", ascii "Welcome"]

def versionCall : NetworkAction := .client (.act (.exec 0 (lit "version") [] none []))

def greetRun : List NetworkAction := [.deliver 5, .deliver 9, .client .begin]

def answerRun : List NetworkAction :=
  [.client (.act (.acquire (.task 0) .done)), .arrive 4, .arrive 5,
    .serve ⟨[ascii "version=3"], ascii "error id=0 msg=ok"⟩, .write, .notify (ascii "notifyx n=1"),
    .deliver 8, .write, .deliver 35, .client (.act (.resume (.task 0) {}))]

theorem call_executed_version :
    ∃ N₀ N₁ N : Network Unit,
      Sys.run (step {} Conn.versionServer) (init Conn.versionServer versionGreeting) greetRun
        = some N₀ ∧ N₀.step {} Conn.versionServer versionCall = some N₁ ∧
      Sys.run (step {} Conn.versionServer) N₁ answerRun = some N ∧
      (∃ s, N.wire.conn = some s ∧ s.returned (.task 0) = some [[(lit "version", lit "3")]]) ∧
      ∃ s₀ s, N₀.wire.conn = some s₀ ∧ N.wire.conn = some s ∧ ∃ floods rest,
        Executed Conn.versionServer N₀ N s₀ s (.task 0) (renderCommand (lit "version") [] none [])
          floods rest := by
  obtain ⟨N₀, hN₀, h₀⟩ := Sys.exists_reach_of_guard (step {} Conn.versionServer)
    (WithinCall Conn.versionServer (.task 0)) versionRules
    (init Conn.versionServer versionGreeting) greetRun rules_of_check (by decide +kernel)
  have hcalled : (Sys.run (step {} Conn.versionServer)
      (init Conn.versionServer versionGreeting) greetRun).map (fun N₀ =>
        (N₀.step {} Conn.versionServer versionCall).isSome) = some true := by
    decide +kernel
  rw [hN₀, Option.map_some, Option.some.injEq, Option.isSome_iff_exists] at hcalled
  obtain ⟨N₁, hN₁⟩ := hcalled
  -- what can be checked of the state after the call
  have called : ∀ f : Network Unit → Bool,
      (Sys.run (step {} Conn.versionServer) (init Conn.versionServer versionGreeting) greetRun).map
        (fun N₀ => (N₀.step {} Conn.versionServer versionCall).map f) = some (some true) →
      f N₁ = true := by
    intro f hf
    rw [hN₀, Option.map_some, Option.some.injEq, hN₁, Option.map_some, Option.some.injEq] at hf
    exact hf
  obtain ⟨N, hN, h⟩ := Sys.exists_reach_of_guard (step {} Conn.versionServer)
    (WithinCall Conn.versionServer (.task 0)) versionRules N₁ answerRun rules_of_check
    (called (fun N₁ => (Sys.run (Sys.guard versionRules (step {} Conn.versionServer)) N₁
      answerRun).isSome) (by decide +kernel))
  have hrows := called (fun N₁ => (Sys.run (step {} Conn.versionServer) N₁ answerRun).any
    fun N => N.wire.conn.any fun s =>
      decide (s.returned (.task 0) = some [[(lit "version", lit "3")]])) (by decide +kernel)
  rw [hN, Option.any_some, Option.any_eq_true] at hrows
  obtain ⟨s, hs, hrows⟩ := hrows
  have hrule : Rules Conn.versionServer N₀ versionCall := by
    refine ⟨?_, ?_, ?_, ?_⟩
    · rintro b s ⟨⟩ _
      exact nofun
    · rintro b ⟨⟩ c line hstarts hline
      have htext : Action.text (.exec 0 (lit "version") [] none []) = .ok (ascii "version") := by
        decide +kernel
      obtain rfl := Except.ok.inj (htext.symm.trans hline)
      exact ⟨by decide, by decide, by decide⟩
    · rintro answer line rest ⟨⟩
    · rintro line ⟨⟩
  have hgreeting : ∀ l ∈ versionGreeting, PlainLine l := by
    intro l hl
    rcases List.mem_cons.mp hl with rfl | hl
    · exact ⟨by decide, by decide, by decide⟩
    · rw [List.mem_singleton.mp hl]
      exact ⟨by decide, by decide, by decide⟩
  exact ⟨N₀, N₁, N, hN₀, hN₁, hN, ⟨s, hs, of_decide_eq_true hrows⟩,
    call_executed Conn.versionServer_sound rfl hgreeting (h₀.mono fun _ _ ha => ha.1) hrule hN₁ h⟩

end Network

end Atsq
