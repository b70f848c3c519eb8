import Atsq.Connection.State
import Atsq.Lib.Coro

/-!
# `atsq.filetransfer`: `FileTransfer.upload` and `download`

One call at a time, from its start to its end; what the server and the event loop do in it is a
parameter, the `Peer`.

* `Exn`, `Await`, `Peer`   the exceptions, how an `await` ends, and all of them in one call;
* `FileTransfer`           the object, with the commands sent and the data channels opened so far;
* `upload`, `download`     the methods.
-/

namespace Atsq
open Py Aio

/-! ## the peer -/

/-- `cancelled` is the cancellation of the task from outside, `expired` the one of the timer of
`asyncio.timeout`; both are `CancelledError` -/
inductive Exn where
  | queryError (e : QueryError)
  | queryTimeout
  | connectionClosed
  | renderError (e : RenderError)
  | sendError
  | assertionError
  | valueError
  | keyError (key : Str)
  | unicodeEncode
  | cancelled
  | expired
  | timeoutError
  | osError
deriving DecidableEq

inductive Await where
  | done
  | raises (e : Exn)
deriving DecidableEq

/-- the end of the `exec` call and of every call on the data channel, and the bytes that the server
sends there before it closes -/
structure Peer where
  answer : Outcome
  connect : Await := .done
  drain : Await := .done
  canWriteEof : Bool := true
  writeEof : Await := .done
  read : Await := .done
  waitClosed : Await := .done
  sends : Bytes := []

structure DataChannel where
  written : Bytes := []
  eof : Bool := false
  closed : Bool := false
deriving DecidableEq

/-- `requests`, `opened` and `channel`, the data channel opened last, are history -/
structure FileTransfer where
  host : Str
  portOverride : Option Int := none
  ftfid : Nat := 1
  requests : List (Str × Block) := []
  opened : List (Str × Int) := []
  channel : DataChannel := {}

/-! ## what both methods do -/

/-- `_normalize` -/
def normalize (name : Str) : Str := if (lit "/").isPrefixOf name then name else lit "/" ++ name

/-- `str.encode("ascii")` -/
def encodeAscii (s : Str) : Option Bytes :=
  if s.all (· < 128) then some (s.map UInt8.ofNat) else none

namespace FileTransfer

/-- `await`, or a call that only may raise -/
def await : Await → Coro FileTransfer Exn Unit
  | .done => pure ()
  | .raises e => throw e

def orRaise {α : Type} (e : Exn) : Option α → Coro FileTransfer Exn α
  | some a => pure a
  | none => throw e

/-- `int(row.get(key, default))` -/
def getInt (row : Row) (key default : Str) : Coro FileTransfer Exn Int :=
  orRaise .valueError (int ((getItem row key).getD default))

/-- `row[key]` -/
def item (row : Row) (key : Str) : Coro FileTransfer Exn Str :=
  orRaise (.keyError key) (getItem row key)

/-- `await self._client.exec(cmd, **params)` -/
def exec (peer : Peer) (cmd : Str) (params : Block) : Coro FileTransfer Exn (List Row) := do
  modify fun ft => { ft with requests := ft.requests ++ [(cmd, params)] }
  match peer.answer with
  | .rows rows => pure rows
  | .queryError e => throw (.queryError e)
  | .queryTimeout => throw .queryTimeout
  | .connectionClosed => throw .connectionClosed
  | .cancelled => throw .cancelled
  | .renderError e => throw (.renderError e)
  | .sendError => throw .sendError
  | .assertionError => throw .assertionError

/-- `_init` -/
def init (peer : Peer) (cmd : Str) (params : Block) : Coro FileTransfer Exn Row := do
  let ft ← get
  set { ft with ftfid := ft.ftfid + 1 }
  let rows ← exec peer cmd ((lit "clientftfid", .scalar (.text (intText ft.ftfid))) :: params)
  let row := rows.headD []
  if getItem row (lit "ftkey") = none then do
    let status ← getInt row (lit "status") (lit "-1")
    throw (.queryError
      { errorId := status
        msg := (getItem row (lit "msg")).getD (cmd ++ lit " failed")
        extra := row
        flood := false })
  else pure row

/-- the port override counts when it is neither `None` nor `0` -/
def override (ft : FileTransfer) : Option Int := ft.portOverride.filter (· ≠ 0)

/-- `self._port_override or int(row["port"])` -/
def dataPort (row : Row) : Coro FileTransfer Exn Int := do
  let ft ← get
  match ft.override with
  | some port => pure port
  | none => do
    let port ← item row (lit "port")
    orRaise .valueError (int port)

/-- `_open_data_channel` -/
def openDataChannel (peer : Peer) (row : Row) : Coro FileTransfer Exn Unit := do
  let port ← dataPort row
  modify fun ft => { ft with opened := ft.opened ++ [(ft.host, port)] }
  await peer.connect
  modify fun ft => { ft with channel := {} }

def onChannel (ft : FileTransfer) (f : DataChannel → DataChannel) : FileTransfer :=
  { ft with channel := f ft.channel }

/-- `writer.write` -/
def write (data : Bytes) : Coro FileTransfer Exn Unit :=
  modify (onChannel · fun c => { c with written := c.written ++ data })

/-- `if writer.can_write_eof(): writer.write_eof()` -/
def writeEof (peer : Peer) : Coro FileTransfer Exn Unit :=
  if peer.canWriteEof then do
    modify (onChannel · fun c => { c with eof := true })
    await peer.writeEof
  else pure ()

/-- the `finally` of both methods -/
def closeWriter (peer : Peer) : Coro FileTransfer Exn Unit := do
  modify (onChannel · fun c => { c with closed := true })
  await peer.waitClosed

/-- `async with asyncio.timeout(…)`, and `except TimeoutError` around it -/
def underTimeout {α : Type} : Coro FileTransfer Exn α → Coro FileTransfer Exn α :=
  mapError fun
    | .expired | .timeoutError => .queryTimeout
    | e => e

/-! ## the methods -/

/-- the `try` of `upload` -/
def sendFile (peer : Peer) (row : Row) (payload : Bytes) : Coro FileTransfer Exn Unit := do
  let ftkey ← item row (lit "ftkey")
  let key ← orRaise .unicodeEncode (encodeAscii ftkey)
  write key
  write payload
  await peer.drain
  writeEof peer
  await peer.read

/-- the parameters of `ftinitupload` -/
def uploadParams (data : Bytes) (name : Str) (cid : Scalar) (channelPassword : Str)
    (overwrite resume : Bool) : Block :=
  [(lit "name", .scalar (.text (normalize name))),
   (lit "cid", .scalar cid),
   (lit "cpw", .scalar (.text channelPassword)),
   (lit "size", .scalar (.text (intText data.length))),
   (lit "overwrite", .scalar (.bool overwrite)),
   (lit "resume", .scalar (.bool resume))]

def upload (peer : Peer) (data : Bytes) (name : Str) (cid : Scalar) (channelPassword : Str)
    (overwrite resume : Bool) : Coro FileTransfer Exn Unit := do
  let row ← init peer (lit "ftinitupload")
    (uploadParams data name cid channelPassword overwrite resume)
  let seekpos ← getInt row (lit "seekpos") (lit "0")
  underTimeout do
    openDataChannel peer row
    tryFinally (sendFile peer row (sliceFrom data seekpos)) (closeWriter peer)

/-- `reader.readexactly(size)`; `IncompleteReadError` becomes `ConnectionClosedError` -/
def readExactly (peer : Peer) (size : Int) : Coro FileTransfer Exn Bytes := do
  if size < 0 then throw .valueError
  await peer.read
  if size ≤ peer.sends.length then pure (peer.sends.take size.toNat) else throw .connectionClosed

/-- the `try` of `download` -/
def receiveFile (peer : Peer) (row : Row) (size : Int) : Coro FileTransfer Exn Bytes := do
  let ftkey ← item row (lit "ftkey")
  let key ← orRaise .unicodeEncode (encodeAscii ftkey)
  write key
  await peer.drain
  readExactly peer size

/-- the parameters of `ftinitdownload` -/
def downloadParams (name : Str) (cid : Scalar) (channelPassword : Str) : Block :=
  [(lit "name", .scalar (.text (normalize name))),
   (lit "cid", .scalar cid),
   (lit "cpw", .scalar (.text channelPassword)),
   (lit "seekpos", .scalar (.text (lit "0")))]

def download (peer : Peer) (name : Str) (cid : Scalar) (channelPassword : Str) :
    Coro FileTransfer Exn Bytes := do
  let row ← init peer (lit "ftinitdownload") (downloadParams name cid channelPassword)
  let text ← item row (lit "size")
  let size ← orRaise .valueError (int text)
  underTimeout do
    openDataChannel peer row
    tryFinally (receiveFile peer row size) (closeWriter peer)

end FileTransfer
end Atsq
