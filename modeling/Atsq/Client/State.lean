import Atsq.Connection.Frame

/-!
# `atsq.client`: `Client.start`, `run_forever` and `close`

Any number of tasks inside these three methods, over the connections of `Atsq.Connection`.  As
there, each action is one segment of one task, from one `await` that suspends to the next; what goes
on inside a connection is an action of that connection.

* `Link`     a connection that `start` made: its greeting is being read, or it is live;
* `Client`   `_conn`, `_stopping`, all links ever made, and where each task is suspended;
* `step`     the state after an action.

A sleeping loop may wake up at any time; its delays are in `Atsq.Client.Forever`, the handlers in
`Atsq.Client.Dispatch`.  What goes on after `start` returned or raised inside `run_forever` is an
action of its own, which only adds interleavings.
-/

namespace Atsq
open Py

/-! ## configuration -/

/-- a command that `start` sends; a `QueryError` for a cosmetic one is only logged -/
structure Setup where
  cmd : Str
  params : Block
  cosmetic : Bool := false

structure ClientConfig where
  conn : Config := {}
  serverId : Option Scalar := none
  serverPort : Option Scalar := none
  nickname : Option Str := none
  registerEvents : List (Str × Option Scalar) := []

/-- `use` -/
def ClientConfig.use (cfg : ClientConfig) : List Setup :=
  match cfg.serverId, cfg.serverPort with
  | some sid, _ => [{ cmd := lit "use", params := [(lit "sid", .scalar sid)] }]
  | none, some port => [{ cmd := lit "use", params := [(lit "port", .scalar port)] }]
  | none, none => []

def ClientConfig.setup (cfg : ClientConfig) : List Setup :=
  let nickname := cfg.nickname.toList.map fun nick =>
    { cmd := lit "clientupdate", params := [(lit "client_nickname", .scalar (.text nick))],
      cosmetic := true }
  let register := cfg.registerEvents.map fun (event, channelId) =>
    { cmd := lit "servernotifyregister",
      params := [(lit "event", .scalar (.text event)),
        (lit "id", .scalar (channelId.getD .none))] }
  cfg.use ++ nickname ++ register

inductive EventRegistration where
  | event (event : Str)
  | anchored (event : Str) (channelId : Option Scalar)

/-- the argument `register_events` -/
inductive RegisterEvents where
  | none
  /-- a `str`, or a pair with an `int` -/
  | single (item : EventRegistration)
  | sequence (items : List EventRegistration)

def RegisterEvents.items : RegisterEvents → List EventRegistration
  | .none => []
  | .single item => [item]
  | .sequence items => items

/-- `_normalize_registrations` -/
def normalizeRegistrations (value : RegisterEvents) : List (Str × Option Scalar) :=
  value.items.map fun
    | .event event => (event, none)
    | .anchored event channelId => (event, channelId)

/-- the arguments of `Client` that `start` uses -/
structure ClientArgs where
  conn : Config := {}
  serverId : Option Scalar := none
  serverPort : Option Scalar := none
  nickname : Option Str := none
  registerEvents : RegisterEvents := .none

/-- `Client.__init__`; `none` is the `ValueError` -/
def ClientArgs.init (args : ClientArgs) : Option ClientConfig :=
  if args.serverId.isSome && args.serverPort.isSome then none
  else some
    { conn := args.conn
      serverId := args.serverId
      serverPort := args.serverPort
      nickname := args.nickname
      registerEvents := normalizeRegistrations args.registerEvents }

/-! ## tasks -/

/-- who calls `start`: a user's task, or a `run_forever` -/
inductive Owner where
  | user (n : Nat)
  | loop (n : Nat)
deriving DecidableEq

def Owner.slot : Owner → Nat
  | .user n => 2 * n
  | .loop n => 2 * n + 1

/-- the tasks of the client have the even numbers on a connection -/
def inside (n : Nat) : Nat := 2 * n

def Action.outside : Action → Bool
  | .exec n .. | .wait n _ | .close n _ => n % 2 == 1
  | _ => true

/-- a connection before the end of its `start`, without its background tasks; `lost` tells whether
`read_line` has found the end of the stream, and with it closed the transport -/
def Conn.unstarted (cfg : Config) (lost : Bool) : Conn :=
  { eventQueue := { maxsize := cfg.eventQueueSize }, dialect := cfg.dialect, recvTask := .ended,
    transport := { closed := lost } }

inductive Link where
  /-- `RawConnection.start` has read these lines of the greeting -/
  | greeting (lines : List Bytes)
  | live (conn : Conn)

def Link.closed : Link → Bool
  | .greeting _ => false
  | .live conn => conn.closed

def Link.conn (cfg : Config) (lost : Bool) : Link → Conn
  | .greeting _ => Conn.unstarted cfg lost
  | .live conn => conn

/-- what `start` raises -/
inductive StartError where
  /-- an exception of the transport factory -/
  | factory
  /-- `ConnectionClosedError` in the greeting: the end of the stream, or `ConnectionLost` -/
  | connectionClosed
  /-- any other exception of `stdout.read` in the greeting -/
  | readError
  /-- what a command raised -/
  | command (out : Outcome)
  /-- `CancelledError` outside of a command -/
  | cancelled

namespace StartError

def ofFactory : StartError → Bool
  | .factory | .cancelled => true
  | _ => false

def ofGreeting : StartError → Bool
  | .connectionClosed | .readError | .cancelled => true
  | _ => false

/-- no `Exception`: `run_forever` raises it again -/
def isCancelled : StartError → Bool
  | .cancelled | .command .cancelled => true
  | _ => false

def lost : StartError → Bool
  | .connectionClosed => true
  | _ => false

end StartError

/-- where a task inside `start` is suspended, or how it ended -/
inductive StartPc where
  | idle
  | factory
  | greeting (i : Nat)
  | setup (i : Nat) (rest : List Setup)
  | failing (i : Nat) (e : StartError)
  | returned (i : Nat)
  | raised (e : StartError)

def StartPc.free : StartPc → Bool
  | .idle | .returned _ | .raised _ => true
  | _ => false

/-- where a task inside `run_forever` is suspended -/
inductive RunPc where
  | idle
  | starting
  | onReady (i : Nat)
  | events (i : Nat)
  | dispatching (i : Nat)
  | sleeping
  | finished
deriving DecidableEq

def RunPc.free : RunPc → Bool
  | .idle | .finished => true
  | _ => false

/-- the connection on which the loop runs `on_ready`, waits for events or handles one -/
def RunPc.on : RunPc → Option Nat
  | .onReady i | .events i | .dispatching i => some i
  | _ => none

structure Run where
  pc : RunPc := .idle
  onReady : Bool := false

inductive CallPc where
  | waiting (i : Nat)
  | returned
  | cancelled
deriving DecidableEq

/-- a call of `close`; `mark` and `quiet` are history: how many connections there were, and whether
it returned and neither `start` nor `run_forever` were called since -/
structure CloseCall where
  mark : Nat
  pc : CallPc
  quiet : Bool
deriving DecidableEq

structure Client where
  conn : Option Nat := none
  stopping : Bool := false
  links : List Link := []
  starts : Owner → StartPc := fun _ => .idle
  runs : Nat → Run := fun _ => {}
  closes : List CloseCall := []

inductive ClientAction where
  | start (n : Nat)
  /-- the transport factory returns a transport -/
  | connected (o : Owner)
  /-- it raises, or the task is cancelled meanwhile -/
  | refused (o : Owner) (e : StartError)
  | greet (o : Owner) (line : Bytes)
  | greetFail (o : Owner) (e : StartError) (io : Io)
  | advance (o : Owner) (io : Io)
  /-- the `close` of a `start` that failed has ended -/
  | startClosed (o : Owner)
  | run (n : Nat) (onReady : Bool)
  /-- a `run_forever` goes on; `ok` tells whether `on_ready` returned -/
  | resumeRun (n : Nat) (ok : Bool)
  /-- it is cancelled inside `on_ready`, a handler or a sleep -/
  | cancelRun (n : Nat)
  | close (io : Io)
  | closeReturns (k : Nat)
  | link (i : Nat) (a : Action)

namespace Client

/-! ## small steps -/

def setLink (s : Client) (i : Nat) (l : Link) : Client := { s with links := s.links.set i l }

def setStart (s : Client) (o : Owner) (pc : StartPc) : Client :=
  { s with starts := Function.update s.starts o pc }

def setRun (s : Client) (n : Nat) (pc : RunPc) : Client :=
  { s with runs := Function.update s.runs n { s.runs n with pc := pc } }

/-- `start` or `run_forever` is called -/
def called (s : Client) : Client :=
  { s with closes := s.closes.map fun c => { c with quiet := false } }

/-- `connected`: there is a connection, and it is not closed -/
def connected (s : Client) : Bool :=
  match s.conn.bind (s.links[·]?) with
  | some l => !l.closed
  | none => false

/-! ## `start` -/

/-- the next command of `start`, or its end: the connection is installed -/
def setupFrom (cfg : ClientConfig) (s : Client) (o : Owner) (i : Nat) (c : Conn) :
    List Setup → Option Client
  | [] => some ({ s.setLink i (.live c) with conn := some i }.setStart o (.returned i))
  | x :: rest =>
    (c.step cfg.conn (.exec (inside o.slot) x.cmd [] none x.params)).map fun c' =>
      (s.setLink i (.live c')).setStart o (.setup i (x :: rest))

/-- `except BaseException`: the connection is closed -/
def failStart (cfg : ClientConfig) (s : Client) (o : Owner) (i : Nat) (l : Link) (e : StartError)
    (io : Io) : Option Client :=
  ((l.conn cfg.conn e.lost).step cfg.conn (.close (inside (2 * o.slot)) io)).map fun c' =>
    (s.setLink i (.live c')).setStart o (.failing i e)

def greet (cfg : ClientConfig) (s : Client) (o : Owner) (line : Bytes) : Option Client :=
  match s.starts o with
  | .greeting i =>
    match s.links[i]? with
    | some (.greeting lines) =>
      if lines.length + 1 < greetingLines then some (s.setLink i (.greeting (lines ++ [line])))
      else s.setupFrom cfg o i (Conn.started cfg.conn (lines ++ [line])) cfg.setup
    | _ => none
  | _ => none

def greetFail (cfg : ClientConfig) (s : Client) (o : Owner) (e : StartError) (io : Io) :
    Option Client :=
  match s.starts o with
  | .greeting i =>
    match s.links[i]? with
    | some l => if e.ofGreeting then s.failStart cfg o i l e io else none
    | none => none
  | _ => none

def advance (cfg : ClientConfig) (s : Client) (o : Owner) (io : Io) : Option Client :=
  match s.starts o with
  | .setup i (x :: rest) =>
    match s.links[i]? with
    | some (.live c) =>
      match (c.execs (.task (inside o.slot))).pc with
      | .finished (.rows _) => s.setupFrom cfg o i c rest
      | .finished (.queryError e) =>
        if x.cosmetic then s.setupFrom cfg o i c rest
        else s.failStart cfg o i (.live c) (.command (.queryError e)) io
      | .finished out => s.failStart cfg o i (.live c) (.command out) io
      | _ => none
    | _ => none
  | _ => none

def startClosed (s : Client) (o : Owner) : Option Client :=
  match s.starts o with
  | .failing i e =>
    match s.links[i]? with
    | some (.live c) =>
      match (c.closers (inside (2 * o.slot))).pc with
      | .returned => some (s.setStart o (.raised e))
      | .cancelled => some (s.setStart o (.raised .cancelled))
      | _ => none
    | _ => none
  | _ => none

/-! ## `run_forever` -/

/-- `async for event in conn.events()`: wait for the next one -/
def nextEvent (cfg : ClientConfig) (s : Client) (n i : Nat) : Option Client :=
  match s.links[i]? with
  | some (.live c) =>
    (c.step cfg.conn (.wait (inside n) none)).map fun c' =>
      (s.setLink i (.live c')).setRun n (.events i)
  | _ => none

/-- after an exception or the end of the events -/
def lost (s : Client) (n : Nat) : Client := s.setRun n (if s.stopping then .finished else .sleeping)

/-- `self._conn.events()` -/
def listen (cfg : ClientConfig) (s : Client) (n : Nat) : Option Client :=
  match s.conn with
  | some i => s.nextEvent cfg n i
  | none => some (s.lost n)

def loopHead (cfg : ClientConfig) (s : Client) (n : Nat) : Option Client :=
  if s.stopping then some (s.setRun n .finished)
  else if s.connected then s.listen cfg n
  else some ((s.setStart (.loop n) .factory).setRun n .starting)

def resumeRun (cfg : ClientConfig) (s : Client) (n : Nat) (ok : Bool) : Option Client :=
  match (s.runs n).pc with
  | .starting =>
    match s.starts (.loop n) with
    | .returned i => if (s.runs n).onReady then some (s.setRun n (.onReady i)) else s.listen cfg n
    | .raised e => if e.isCancelled then some (s.setRun n .finished) else some (s.lost n)
    | _ => none
  | .onReady _ => if ok then s.listen cfg n else some (s.lost n)
  | .events i =>
    match s.links[i]? with
    | some (.live c) =>
      match (c.waits (inside n)).pc with
      | .finished (.event _) => some (s.setRun n (.dispatching i))
      | .finished .cancelled => some (s.setRun n .finished)
      | .finished _ => some (s.lost n)
      | _ => none
    | _ => none
  | .dispatching i => s.nextEvent cfg n i
  | .sleeping => s.loopHead cfg n
  | _ => none

/-! ## `close` -/

def close (cfg : ClientConfig) (s : Client) (io : Io) : Option Client :=
  let s := { s with stopping := true }
  let call : CloseCall := { mark := s.links.length, pc := .returned, quiet := true }
  match s.conn with
  | none => some { s with closes := s.closes ++ [call] }
  | some i =>
    match s.links[i]? with
    | some (.live c) =>
      (c.step cfg.conn (.close (inside (2 * s.closes.length + 1)) io)).map fun c' =>
        { s.setLink i (.live c') with
          closes := s.closes ++ [{ call with pc := .waiting i, quiet := false }] }
    | _ => none

def closeReturns (s : Client) (k : Nat) : Option Client :=
  match s.closes[k]? with
  | some call =>
    match call.pc with
    | .waiting i =>
      match s.links[i]? with
      | some (.live c) =>
        match (c.closers (inside (2 * k + 1))).pc with
        | .returned =>
          some { s with closes := s.closes.set k { call with pc := .returned, quiet := true } }
        | .cancelled => some { s with closes := s.closes.set k { call with pc := .cancelled } }
        | _ => none
      | _ => none
    | _ => none
  | none => none

/-! ## the runs -/

def step (cfg : ClientConfig) (s : Client) : ClientAction → Option Client
  | .start n =>
    if (s.starts (.user n)).free then some (s.called.setStart (.user n) .factory) else none
  | .connected o =>
    match s.starts o with
    | .factory =>
      some ({ s with links := s.links ++ [Link.greeting []] }.setStart o (.greeting s.links.length))
    | _ => none
  | .refused o e =>
    match s.starts o with
    | .factory => if e.ofFactory then some (s.setStart o (.raised e)) else none
    | _ => none
  | .greet o line => s.greet cfg o line
  | .greetFail o e io => s.greetFail cfg o e io
  | .advance o io => s.advance cfg o io
  | .startClosed o => s.startClosed o
  | .run n onReady =>
    if (s.runs n).pc.free then
      { s.called with runs := Function.update s.runs n { onReady := onReady } }.loopHead cfg n
    else none
  | .resumeRun n ok => s.resumeRun cfg n ok
  | .cancelRun n =>
    match (s.runs n).pc with
    | .onReady _ | .dispatching _ | .sleeping => some (s.setRun n .finished)
    | _ => none
  | .close io => s.close cfg io
  | .closeReturns k => s.closeReturns k
  | .link i a =>
    match s.links[i]? with
    | some (.live c) =>
      if a.outside then (c.step cfg.conn a).map fun c' => s.setLink i (.live c') else none
    | _ => none

end Client
end Atsq
