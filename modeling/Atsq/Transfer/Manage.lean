import Atsq.Client.Commands
import Atsq.Transfer.Download

/-!
# The other methods of `FileTransfer`, and all of them one after the other

* `crc32`             `zlib.crc32`;
* `Call`, `Got`       a call of one of the methods, and what it returns;
* `Call.request`      the command that the call makes;
* `Made ft call ft'`  what a call leaves behind, whatever the server does.

Main result: `calls_in_order`.
-/

namespace Atsq
open Py Aio

/-! ## icons -/

/-- a bit of the reflected polynomial -/
def crcBit (crc : BitVec 32) : BitVec 32 :=
  if crc.getLsbD 0 then (crc >>> 1) ^^^ 0xEDB88320#32 else crc >>> 1

def crcByte (crc : BitVec 32) (b : UInt8) : BitVec 32 :=
  Nat.iterate crcBit 8 (crc ^^^ BitVec.ofNat 32 b.toNat)

def crc32 (data : Bytes) : Nat := (~~~(data.foldl crcByte (~~~0#32))).toNat

example : crc32 (ascii "123456789") = 0xCBF43926 := by decide +kernel

namespace FileTransfer

def iconName (iconId : Int) : Str := lit "/icon_" ++ intText iconId

/-- the channel of the server's own files, and of the icons -/
def serverFiles : Scalar := .text (lit "0")

def uploadIcon (peer : Peer) (data : Bytes) : Coro FileTransfer Exn Int := do
  let iconId : Int := crc32 data
  upload peer data (iconName iconId) serverFiles [] true false
  pure iconId

def downloadIcon (peer : Peer) (iconId : Int) : Coro FileTransfer Exn Bytes :=
  download peer (iconName iconId) serverFiles []

/-! ## listing and management -/

/-- `_EMPTY_RESULT_SET` -/
def emptyResultSet : Int := 1281

def channelParams (cid : Scalar) (channelPassword : Str) : Block :=
  [(lit "cid", .scalar cid), (lit "cpw", .scalar (.text channelPassword))]

def nameParam (key : String) (name : Str) : Str × Value :=
  (lit key, .scalar (.text (normalize name)))

def fileList (peer : Peer) (cid : Scalar) (path channelPassword : Str) :
    Coro FileTransfer Exn (List Row) :=
  tryCatch
    (exec peer (lit "ftgetfilelist")
      (channelParams cid channelPassword ++ [(lit "path", .scalar (.text path))]))
    fun
      | .queryError e => if e.errorId = emptyResultSet then pure [] else throw (.queryError e)
      | e => throw e

/-- the value is what becomes of `rows[0]` -/
def fileInfo (peer : Peer) (name : Str) (cid : Scalar) (channelPassword : Str) :
    Coro FileTransfer Exn (Except RowError Returned) := do
  let rows ← exec peer (lit "ftgetfileinfo")
    (channelParams cid channelPassword ++ [nameParam "name" name])
  pure (Returns.first.read rows)

def deleteFile (peer : Peer) (name : Str) (cid : Scalar) (channelPassword : Str) :
    Coro FileTransfer Exn Unit := do
  let _ ← exec peer (lit "ftdeletefile")
    (channelParams cid channelPassword ++ [nameParam "name" name])

def deleteIcon (peer : Peer) (iconId : Int) : Coro FileTransfer Exn Unit :=
  deleteFile peer (iconName iconId) serverFiles []

def createDirectory (peer : Peer) (dirname : Str) (cid : Scalar) (channelPassword : Str) :
    Coro FileTransfer Exn Unit := do
  let _ ← exec peer (lit "ftcreatedir")
    (channelParams cid channelPassword ++ [nameParam "dirname" dirname])

def renameFile (peer : Peer) (oldname newname : Str) (cid : Scalar) (channelPassword : Str) :
    Coro FileTransfer Exn Unit := do
  let _ ← exec peer (lit "ftrenamefile")
    (channelParams cid channelPassword
      ++ [nameParam "oldname" oldname, nameParam "newname" newname])

/-! ## calls -/

inductive Call where
  | upload (data : Bytes) (name : Str) (cid : Scalar) (channelPassword : Str)
      (overwrite resume : Bool)
  | download (name : Str) (cid : Scalar) (channelPassword : Str)
  | uploadIcon (data : Bytes)
  | downloadIcon (iconId : Int)
  | deleteIcon (iconId : Int)
  | fileList (cid : Scalar) (path channelPassword : Str)
  | fileInfo (name : Str) (cid : Scalar) (channelPassword : Str)
  | deleteFile (name : Str) (cid : Scalar) (channelPassword : Str)
  | createDirectory (dirname : Str) (cid : Scalar) (channelPassword : Str)
  | renameFile (oldname newname : Str) (cid : Scalar) (channelPassword : Str)

inductive Got where
  | nothing
  | bytes (data : Bytes)
  | icon (iconId : Int)
  | rows (rows : List Row)
  | info (row : Except RowError Returned)
deriving DecidableEq

def Call.run (peer : Peer) : Call → Coro FileTransfer Exn Got
  | .upload data name cid channelPassword overwrite resume => do
    FileTransfer.upload peer data name cid channelPassword overwrite resume
    pure .nothing
  | .download name cid channelPassword => do
    let data ← FileTransfer.download peer name cid channelPassword
    pure (.bytes data)
  | .uploadIcon data => do
    let iconId ← FileTransfer.uploadIcon peer data
    pure (.icon iconId)
  | .downloadIcon iconId => do
    let data ← FileTransfer.downloadIcon peer iconId
    pure (.bytes data)
  | .deleteIcon iconId => do
    FileTransfer.deleteIcon peer iconId
    pure .nothing
  | .fileList cid path channelPassword => do
    let rows ← FileTransfer.fileList peer cid path channelPassword
    pure (.rows rows)
  | .fileInfo name cid channelPassword => do
    let row ← FileTransfer.fileInfo peer name cid channelPassword
    pure (.info row)
  | .deleteFile name cid channelPassword => do
    FileTransfer.deleteFile peer name cid channelPassword
    pure .nothing
  | .createDirectory dirname cid channelPassword => do
    FileTransfer.createDirectory peer dirname cid channelPassword
    pure .nothing
  | .renameFile oldname newname cid channelPassword => do
    FileTransfer.renameFile peer oldname newname cid channelPassword
    pure .nothing

/-- a transfer takes an id and may open a data channel -/
def Call.transfers : Call → Bool
  | .upload .. | .download .. | .uploadIcon _ | .downloadIcon _ => true
  | _ => false

def initRequest (ftfid : Nat) (cmd : String) (params : Block) : Str × Block :=
  (lit cmd, (lit "clientftfid", .scalar (.text (intText ftfid))) :: params)

def plainRequest (cmd : String) (cid : Scalar) (channelPassword : Str) (params : Block) :
    Str × Block :=
  (lit cmd, channelParams cid channelPassword ++ params)

def Call.request (ftfid : Nat) : Call → Str × Block
  | .upload data name cid channelPassword overwrite resume =>
    initRequest ftfid "ftinitupload" (uploadParams data name cid channelPassword overwrite resume)
  | .download name cid channelPassword =>
    initRequest ftfid "ftinitdownload" (downloadParams name cid channelPassword)
  | .uploadIcon data =>
    initRequest ftfid "ftinitupload"
      (uploadParams data (iconName (crc32 data)) serverFiles [] true false)
  | .downloadIcon iconId =>
    initRequest ftfid "ftinitdownload" (downloadParams (iconName iconId) serverFiles [])
  | .deleteIcon iconId =>
    plainRequest "ftdeletefile" serverFiles [] [nameParam "name" (iconName iconId)]
  | .fileList cid path channelPassword =>
    plainRequest "ftgetfilelist" cid channelPassword [(lit "path", .scalar (.text path))]
  | .fileInfo name cid channelPassword =>
    plainRequest "ftgetfileinfo" cid channelPassword [nameParam "name" name]
  | .deleteFile name cid channelPassword =>
    plainRequest "ftdeletefile" cid channelPassword [nameParam "name" name]
  | .createDirectory dirname cid channelPassword =>
    plainRequest "ftcreatedir" cid channelPassword [nameParam "dirname" dirname]
  | .renameFile oldname newname cid channelPassword =>
    plainRequest "ftrenamefile" cid channelPassword
      [nameParam "oldname" oldname, nameParam "newname" newname]

/-! ## what changes only the data channel -/

section
variable {α : Type} {peer : Peer} {row : Row} {ft ft' : FileTransfer}

def OnlyChannel (ft ft' : FileTransfer) : Prop := ∃ c, ft' = { ft with channel := c }

theorem OnlyChannel.refl (ft : FileTransfer) : OnlyChannel ft ft := ⟨ft.channel, rfl⟩

theorem OnlyChannel.trans {ft₁ : FileTransfer} (h : OnlyChannel ft ft₁)
    (h' : OnlyChannel ft₁ ft') : OnlyChannel ft ft' := by
  obtain ⟨c, rfl⟩ := h
  obtain ⟨c', rfl⟩ := h'
  exact ⟨c', rfl⟩

theorem OnlyChannel.bind {β : Type} {x : Coro FileTransfer Exn α}
    {f : α → Coro FileTransfer Exn β} (hx : ∀ s, OnlyChannel s (final (x s)))
    (hf : ∀ a s, OnlyChannel s (final (f a s))) (s : FileTransfer) :
    OnlyChannel s (final ((x >>= f) s)) :=
  final_bind (hx s) fun a s' h => h.trans (hf a s')

theorem onlyChannel_orRaise (e : Exn) (o : Option α) (s : FileTransfer) :
    OnlyChannel s (final (orRaise e o s)) := by
  rw [final_orRaise]
  exact .refl s

theorem onlyChannel_await (w : Await) (s : FileTransfer) : OnlyChannel s (final (await w s)) := by
  cases w <;> exact .refl s

theorem onlyChannel_write (data : Bytes) (s : FileTransfer) :
    OnlyChannel s (final (write data s)) := ⟨_, rfl⟩

theorem onlyChannel_writeEof (s : FileTransfer) : OnlyChannel s (final (writeEof peer s)) := by
  unfold writeEof
  split
  · exact OnlyChannel.bind (fun _ => ⟨_, rfl⟩) (fun _ s' => onlyChannel_await _ s') s
  · exact .refl s

theorem onlyChannel_closeWriter (s : FileTransfer) : OnlyChannel s (final (closeWriter peer s)) :=
  OnlyChannel.bind (fun _ => ⟨_, rfl⟩) (fun _ s' => onlyChannel_await _ s') s

theorem onlyChannel_readExactly (size : Int) (s : FileTransfer) :
    OnlyChannel s (final (readExactly peer size s)) := by
  unfold readExactly
  split
  · exact .refl s
  · refine OnlyChannel.bind (onlyChannel_await _) (fun _ s' => ?_) s
    split <;> exact .refl s'

theorem onlyChannel_sendFile (payload : Bytes) (s : FileTransfer) :
    OnlyChannel s (final (sendFile peer row payload s)) :=
  OnlyChannel.bind (onlyChannel_orRaise _ _) (fun _ => OnlyChannel.bind (onlyChannel_orRaise _ _)
    fun _ => OnlyChannel.bind (onlyChannel_write _) fun _ => OnlyChannel.bind (onlyChannel_write _)
    fun _ => OnlyChannel.bind (onlyChannel_await _) fun _ => OnlyChannel.bind onlyChannel_writeEof
    fun _ => onlyChannel_await _) s

theorem onlyChannel_receiveFile (size : Int) (s : FileTransfer) :
    OnlyChannel s (final (receiveFile peer row size s)) :=
  OnlyChannel.bind (onlyChannel_orRaise _ _) (fun _ => OnlyChannel.bind (onlyChannel_orRaise _ _)
    fun _ => OnlyChannel.bind (onlyChannel_write _) fun _ => OnlyChannel.bind (onlyChannel_await _)
    fun _ => onlyChannel_readExactly size) s

/-! ## what opens a data channel -/

/-- one data channel at most is opened, to the port of the row -/
structure Opens (row : Row) (ft ft' : FileTransfer) : Prop where
  rest : ∃ o c, ft' = { ft with opened := o, channel := c }
  opened : ft'.opened = ft.opened ∨
    ∃ port, portOf ft row = some port ∧ ft'.opened = ft.opened ++ [(ft.host, port)]

theorem OnlyChannel.opens (h : OnlyChannel ft ft') : Opens row ft ft' := by
  obtain ⟨c, rfl⟩ := h
  exact ⟨⟨_, c, rfl⟩, Or.inl rfl⟩

theorem Opens.onlyChannel {s : FileTransfer} (h : Opens row ft s) (h' : OnlyChannel s ft') :
    Opens row ft ft' := by
  obtain ⟨⟨o, c, rfl⟩, hopened⟩ := h
  obtain ⟨c', rfl⟩ := h'
  exact ⟨⟨o, c', rfl⟩, hopened⟩

theorem opens_openDataChannel : Opens row ft (final (openDataChannel peer row ft)) := by
  unfold openDataChannel
  cases hdata : dataPort row ft with
  | error e s =>
    have hs : final (dataPort row ft) = ft := final_dataPort
    rw [hdata] at hs
    rw [bind_of_error hdata]
    cases hs
    exact (OnlyChannel.refl s).opens
  | ok port s =>
    obtain ⟨hport, rfl⟩ := dataPort_eq_ok.mp hdata
    rw [bind_of_ok hdata, bind_modify]
    cases peer.connect with
    | done => exact ⟨⟨_, _, rfl⟩, Or.inr ⟨port, hport, rfl⟩⟩
    | raises e => exact ⟨⟨_, _, rfl⟩, Or.inr ⟨port, hport, rfl⟩⟩

theorem opens_channel {x : Coro FileTransfer Exn α} (hx : ∀ s, OnlyChannel s (final (x s))) :
    Opens row ft (final (underTimeout (openDataChannel peer row >>= fun _ =>
      tryFinally x (closeWriter peer)) ft)) := by
  unfold underTimeout
  rw [final_mapError]
  refine final_bind opens_openDataChannel fun _ s h => h.onlyChannel ?_
  rw [final_tryFinally]
  exact (hx s).trans (onlyChannel_closeWriter _)

/-- nothing is opened unless the server gave a key -/
theorem final_transfer {cmd : Str} {params : Block} {f : Row → Coro FileTransfer Exn α}
    (hf : ∀ row s, Opens row s (final (f row s))) :
    final ((init peer cmd params >>= f) ft) = ft.requested cmd params ∨
      ∃ row, firstRow peer = some row ∧ getItem row (lit "ftkey") ≠ none ∧
        Opens row (ft.requested cmd params) (final ((init peer cmd params >>= f) ft)) := by
  cases hinit : init peer cmd params ft with
  | error e s =>
    left
    have hs : final (init peer cmd params ft) = ft.requested cmd params := final_init
    rw [hinit] at hs
    rw [bind_of_error hinit]
    exact hs
  | ok row s =>
    right
    obtain ⟨hrow, hkey, rfl⟩ := init_eq_ok.mp hinit
    rw [bind_of_ok hinit]
    exact ⟨row, hrow, hkey, hf row _⟩

theorem opens_upload {data : Bytes} (row : Row) (s : FileTransfer) :
    Opens row s (final ((getInt row (lit "seekpos") (lit "0") >>= fun seekpos => underTimeout do
      openDataChannel peer row
      tryFinally (sendFile peer row (sliceFrom data seekpos)) (closeWriter peer)) s)) := by
  unfold getInt
  cases hpos : int ((getItem row (lit "seekpos")).getD (lit "0")) with
  | none => exact (OnlyChannel.refl s).opens
  | some seekpos => exact opens_channel (onlyChannel_sendFile _)

theorem opens_download (row : Row) (s : FileTransfer) :
    Opens row s (final ((item row (lit "size") >>= fun text => orRaise .valueError (int text) >>=
      fun size => underTimeout do
        openDataChannel peer row
        tryFinally (receiveFile peer row size) (closeWriter peer)) s)) := by
  unfold item
  cases getItem row (lit "size") with
  | none => exact (OnlyChannel.refl s).opens
  | some text =>
    have htext : orRaise (.keyError (lit "size")) (some text) s = .ok text s := rfl
    rw [bind_of_ok htext]
    cases int text with
    | none => exact (OnlyChannel.refl s).opens
    | some size => exact opens_channel (onlyChannel_receiveFile size)

end

/-! ## what every call leaves behind -/

structure Made (peer : Peer) (call : Call) (ft ft' : FileTransfer) : Prop where
  host : ft'.host = ft.host
  portOverride : ft'.portOverride = ft.portOverride
  ftfid : ft'.ftfid = ft.ftfid + if call.transfers then 1 else 0
  requests : ft'.requests = ft.requests ++ [call.request ft.ftfid]
  opened : ft'.opened = ft.opened ∨ call.transfers = true ∧
    ∃ row port, firstRow peer = some row ∧ getItem row (lit "ftkey") ≠ none ∧
      portOf ft row = some port ∧ ft'.opened = ft.opened ++ [(ft.host, port)]
  released : Released ft.channel ft'

section
variable {peer : Peer} {ft ft' : FileTransfer} {call : Call} {cmd : Str} {params : Block}

def asked (ft : FileTransfer) (request : Str × Block) : FileTransfer :=
  { ft with requests := ft.requests ++ [request] }

theorem final_exec : final (exec peer cmd params ft) = ft.asked (cmd, params) := by
  unfold exec
  rw [bind_modify]
  cases peer.answer <;> rfl

theorem final_fileList {cid : Scalar} {path channelPassword : Str} :
    final (fileList peer cid path channelPassword ft)
      = ft.asked (Call.request 0 (.fileList cid path channelPassword)) := by
  have hexec : ∀ (x : Coro FileTransfer Exn (List Row))
      (h : Exn → Coro FileTransfer Exn (List Row)), (∀ e s, final (h e s) = s) →
        final (tryCatch x h ft) = final (x ft) := by
    intro x h hh
    show final (EStateM.tryCatch x h ft) = _
    unfold EStateM.tryCatch
    cases x ft with
    | ok a s => rfl
    | error e s => exact hh e s
  unfold fileList
  rw [hexec _ _ fun e s => ?_, final_exec]
  · rfl
  · cases e with
    | queryError e =>
      simp only []
      split <;> rfl
    | _ => rfl

theorem made_of_asked (hcall : call.transfers = false)
    (h : ft' = ft.asked (call.request ft.ftfid)) : Made peer call ft ft' := by
  subst h
  refine ⟨rfl, rfl, ?_, rfl, Or.inl rfl, Or.inl rfl⟩
  rw [hcall]
  rfl

theorem made_of_transfer (hcall : call.transfers = true)
    (hrequest : ft.requested cmd params
      = { ft.asked (call.request ft.ftfid) with ftfid := ft.ftfid + 1 })
    (h : ft' = ft.requested cmd params ∨ ∃ row, firstRow peer = some row ∧
      getItem row (lit "ftkey") ≠ none ∧ Opens row (ft.requested cmd params) ft')
    (hreleased : Released ft.channel ft') : Made peer call ft ft' := by
  have hftfid : ft.ftfid + 1 = ft.ftfid + if call.transfers = true then 1 else 0 := by
    rw [hcall]
    rfl
  rcases h with rfl | ⟨row, hrow, hkey, ⟨o, c, rfl⟩, hopened⟩
  · rw [hrequest]
    exact ⟨rfl, rfl, hftfid, rfl, Or.inl rfl, Or.inl rfl⟩
  · refine ⟨rfl, rfl, hftfid, ?_, ?_, hreleased⟩
    · exact congrArg requests hrequest
    · rcases hopened with hopened | ⟨port, hport, hopened⟩
      · exact Or.inl hopened
      · exact Or.inr ⟨hcall, row, port, hrow, hkey, hport, hopened⟩

theorem made_upload {data : Bytes} {name : Str} {cid : Scalar} {channelPassword : Str}
    {overwrite resume : Bool} (hcall : call.transfers = true)
    (hrequest : call.request ft.ftfid = initRequest ft.ftfid "ftinitupload"
      (uploadParams data name cid channelPassword overwrite resume)) :
    Made peer call ft (final (upload peer data name cid channelPassword overwrite resume ft)) := by
  refine made_of_transfer hcall ?_ (final_transfer opens_upload) released_upload
  rw [hrequest]
  rfl

theorem made_download {name : Str} {cid : Scalar} {channelPassword : Str}
    (hcall : call.transfers = true)
    (hrequest : call.request ft.ftfid = initRequest ft.ftfid "ftinitdownload"
      (downloadParams name cid channelPassword)) :
    Made peer call ft (final (download peer name cid channelPassword ft)) := by
  refine made_of_transfer hcall ?_ (final_transfer opens_download) released_download
  rw [hrequest]
  rfl

/-- **What a call leaves behind**, whatever the server and the network do. -/
theorem made_run (peer : Peer) (call : Call) (ft : FileTransfer) :
    Made peer call ft (final (call.run peer ft)) := by
  cases call with
  | upload data name cid channelPassword overwrite resume =>
    rw [Call.run, final_bind_pure]
    exact made_upload rfl rfl
  | download name cid channelPassword =>
    rw [Call.run, final_bind_pure]
    exact made_download rfl rfl
  | uploadIcon data =>
    rw [Call.run, final_bind_pure, uploadIcon, final_bind_pure]
    exact made_upload rfl rfl
  | downloadIcon iconId =>
    rw [Call.run, final_bind_pure]
    exact made_download rfl rfl
  | fileList cid path channelPassword =>
    rw [Call.run, final_bind_pure]
    exact made_of_asked rfl final_fileList
  | fileInfo name cid channelPassword =>
    rw [Call.run, final_bind_pure, fileInfo, final_bind_pure]
    exact made_of_asked rfl final_exec
  | deleteIcon iconId =>
    rw [Call.run, final_bind_pure, deleteIcon, deleteFile, final_bind_pure]
    exact made_of_asked rfl final_exec
  | deleteFile name cid channelPassword =>
    rw [Call.run, final_bind_pure, deleteFile, final_bind_pure]
    exact made_of_asked rfl final_exec
  | createDirectory dirname cid channelPassword =>
    rw [Call.run, final_bind_pure, createDirectory, final_bind_pure]
    exact made_of_asked rfl final_exec
  | renameFile oldname newname cid channelPassword =>
    rw [Call.run, final_bind_pure, renameFile, final_bind_pure]
    exact made_of_asked rfl final_exec

end

/-! ## the commands -/

def ftfidOf (request : Str × Block) : Option Str :=
  match getItem request.2 (lit "clientftfid") with
  | some (.scalar (.text id)) => some id
  | _ => none

theorem ftfidOf_request (call : Call) (n : Nat) :
    ftfidOf (call.request n) = if call.transfers then some (intText n) else none := by
  cases call <;> rfl

/-- the directory of a listing -/
def pathOf (request : Str × Block) : Option Str :=
  match getItem request.2 (lit "path") with
  | some (.scalar (.text path)) => some path
  | _ => none

/-- `file_list` does not normalize it -/
def Call.listed : Call → Option Str
  | .fileList _ path _ => some path
  | _ => none

theorem pathOf_request (call : Call) (n : Nat) : pathOf (call.request n) = call.listed := by
  cases call <;> rfl

/-- the keys of the names of files and directories that are normalized -/
def nameKeys : List Str := [lit "name", lit "oldname", lit "newname", lit "dirname"]

/-- a name begins with a slash -/
def Rooted (item : Str × Value) : Prop :=
  item.1 ∈ nameKeys → ∃ rest, item.2 = .scalar (.text (lit "/" ++ rest))

theorem rooted_normalize (key name : Str) : Rooted (key, .scalar (.text (normalize name))) := by
  intro _
  unfold normalize
  split
  · rename_i hslash
    obtain ⟨rest, hrest⟩ := List.isPrefixOf_iff_prefix.mp hslash
    exact ⟨rest, by rw [hrest]⟩
  · exact ⟨name, rfl⟩

theorem rooted_of_key {key : Str} {value : Value} (h : key ∉ nameKeys) : Rooted (key, value) :=
  fun hk => absurd hk h

theorem rooted_plainRequest {cmd : String} {cid : Scalar} {channelPassword : Str} {params : Block}
    (h : ∀ item ∈ params, Rooted item) :
    ∀ item ∈ (plainRequest cmd cid channelPassword params).2, Rooted item := by
  intro item hi
  rcases List.mem_append.mp hi with hi | hi
  · unfold channelParams at hi
    rcases List.mem_pair.mp hi with rfl | rfl
    · exact rooted_of_key (by decide)
    · exact rooted_of_key (by decide)
  · exact h item hi

theorem rooted_singleton {key : String} {name : Str} :
    ∀ item ∈ [nameParam key name], Rooted item := by
  intro item hi
  rw [List.mem_singleton.mp hi]
  exact rooted_normalize _ _

theorem rooted_initRequest {cmd : String} {n : Nat} {name : Str} {params : Block}
    (h : ∀ key ∈ params.map Prod.fst, key ∉ nameKeys) : ∀ item ∈
      (initRequest n cmd ((lit "name", .scalar (.text (normalize name))) :: params)).2,
      Rooted item := by
  intro item hi
  rcases List.mem_cons.mp hi with rfl | hi
  · exact rooted_of_key (by decide)
  · rcases List.mem_cons.mp hi with rfl | hi
    · exact rooted_normalize _ _
    · exact rooted_of_key (h item.1 (List.mem_map_of_mem hi))

theorem rooted_request (call : Call) (n : Nat) : ∀ item ∈ (call.request n).2, Rooted item := by
  have hupload : ∀ key ∈ [lit "cid", lit "cpw", lit "size", lit "overwrite", lit "resume"],
      key ∉ nameKeys := by decide
  have hdownload : ∀ key ∈ [lit "cid", lit "cpw", lit "seekpos"], key ∉ nameKeys := by decide
  cases call with
  | upload data name cid channelPassword overwrite resume => exact rooted_initRequest hupload
  | download name cid channelPassword => exact rooted_initRequest hdownload
  | uploadIcon data => exact rooted_initRequest hupload
  | downloadIcon iconId => exact rooted_initRequest hdownload
  | deleteIcon iconId => exact rooted_plainRequest rooted_singleton
  | fileList cid path channelPassword =>
    refine rooted_plainRequest fun item hi => ?_
    rw [List.mem_singleton.mp hi]
    exact rooted_of_key (by decide)
  | fileInfo name cid channelPassword => exact rooted_plainRequest rooted_singleton
  | deleteFile name cid channelPassword => exact rooted_plainRequest rooted_singleton
  | createDirectory dirname cid channelPassword => exact rooted_plainRequest rooted_singleton
  | renameFile oldname newname cid channelPassword =>
    refine rooted_plainRequest fun item hi => ?_
    rcases List.mem_pair.mp hi with rfl | rfl
    · exact rooted_normalize _ _
    · exact rooted_normalize _ _

/-! ## one call after the other -/

/-- the calls, each with what the server and the network do in it -/
def runCalls (ft : FileTransfer) (calls : List (Peer × Call)) : FileTransfer :=
  calls.foldl (fun ft x => final (x.2.run x.1 ft)) ft

/-- the commands of the calls: the ids of the transfers count up -/
def numbered (n : Nat) : List Call → List (Str × Block)
  | [] => []
  | call :: calls => call.request n :: numbered (if call.transfers then n + 1 else n) calls

/-- the data channel that the server offers, or the override in its place: there is one with a key
only -/
def offered (ft : FileTransfer) (x : Peer × Call) : Option (Str × Int) :=
  if x.2.transfers then
    (firstRow x.1).bind fun row =>
      if getItem row (lit "ftkey") = none then none
      else (portOf ft row).map fun port => (ft.host, port)
  else none

theorem ftfidOf_numbered (n : Nat) (calls : List Call) : (numbered n calls).filterMap ftfidOf
    = (List.range' n (calls.countP Call.transfers)).map fun i : Nat => intText i := by
  induction calls generalizing n with
  | nil => rfl
  | cons call calls ih =>
    rw [numbered, List.filterMap_cons, ftfidOf_request, ih, List.countP_cons]
    cases call.transfers with
    | false => rfl
    | true =>
      simp only [if_true]
      rw [List.range'_succ, List.map_cons]

theorem pathOf_numbered (n : Nat) (calls : List Call) :
    (numbered n calls).filterMap pathOf = calls.filterMap Call.listed := by
  induction calls generalizing n with
  | nil => rfl
  | cons call calls ih =>
    rw [numbered, List.filterMap_cons, List.filterMap_cons, pathOf_request, ih]

theorem port_of_offered {ft : FileTransfer} {x : Peer × Call} {channel : Str × Int} {port : Int}
    (h : offered ft x = some channel) (hport : ft.override = some port) : channel.2 = port := by
  unfold offered portOf at h
  rw [hport] at h
  split at h
  · obtain ⟨row, _, h⟩ := Option.bind_eq_some_iff.mp h
    split at h <;> cases h
    rfl
  · cases h

theorem rooted_numbered {n : Nat} {calls : List Call} {request : Str × Block}
    (h : request ∈ numbered n calls) : ∀ item ∈ request.2, Rooted item := by
  induction calls generalizing n with
  | nil => cases h
  | cons call calls ih =>
    rcases List.mem_cons.mp h with rfl | h
    · exact rooted_request call n
    · exact ih h

structure MadeAll (calls : List (Peer × Call)) (ft ft' : FileTransfer) : Prop where
  host : ft'.host = ft.host
  portOverride : ft'.portOverride = ft.portOverride
  requests : ft'.requests = ft.requests ++ numbered ft.ftfid (calls.map Prod.snd)
  opened : ∃ channels, ft'.opened = ft.opened ++ channels ∧
    channels.Sublist (calls.filterMap (offered ft))
  released : Released ft.channel ft'

theorem offered_congr {ft ft' : FileTransfer} (hhost : ft'.host = ft.host)
    (hport : ft'.portOverride = ft.portOverride) : offered ft' = offered ft := by
  unfold offered portOf override
  rw [hhost, hport]

theorem Released.trans {c : DataChannel} {ft ft' : FileTransfer} (h : Released c ft)
    (h' : Released ft.channel ft') : Released c ft' := by
  rcases h' with h' | h'
  · rcases h with h | h
    · exact Or.inl (h'.trans h)
    · exact Or.inr (h' ▸ h)
  · exact Or.inr h'

theorem madeAll_runCalls (calls : List (Peer × Call)) (ft : FileTransfer) :
    MadeAll calls ft (runCalls ft calls) := by
  induction calls generalizing ft with
  | nil =>
    exact ⟨rfl, rfl, (List.append_nil _).symm, ⟨[], (List.append_nil _).symm, .slnil⟩, Or.inl rfl⟩
  | cons x calls ih =>
    have hfirst := made_run x.1 x.2 ft
    have hrest := ih (final (x.2.run x.1 ft))
    have hoffered := offered_congr hfirst.host hfirst.portOverride
    show MadeAll _ _ (runCalls (final (x.2.run x.1 ft)) calls)
    generalize final (x.2.run x.1 ft) = ft₁ at hfirst hrest hoffered ⊢
    obtain ⟨channels, hopened, hsub⟩ := hrest.opened
    rw [hoffered] at hsub
    refine ⟨hrest.host.trans hfirst.host, hrest.portOverride.trans hfirst.portOverride, ?_, ?_,
      hfirst.released.trans hrest.released⟩
    · rw [hrest.requests, hfirst.requests, hfirst.ftfid, List.append_assoc, List.map_cons,
        numbered]
      cases x.2.transfers <;> rfl
    · rcases hfirst.opened with hnone | ⟨htransfers, row, port, hrow, hkey, hport, hone⟩
      · refine ⟨channels, by rw [hopened, hnone], hsub.trans ?_⟩
        exact (List.sublist_cons_self x calls).filterMap _
      · refine ⟨(ft.host, port) :: channels, by rw [hopened, hone, List.append_assoc]; rfl, ?_⟩
        have hoffer : offered ft x = some (ft.host, port) := by
          unfold offered
          rw [if_pos htransfers, hrow, Option.bind_some, if_neg hkey, hport]
          rfl
        rw [List.filterMap_cons_some hoffer]
        exact hsub.cons_cons _

/-- **Every call makes its own command**, in the order of the calls: the ids of the transfers are
`1`, `2`, `3` and so on even when they fail, the names of files begin with a slash but the directory
of a listing is sent as it was given, only the data channels are opened that the server offers, to
another port if there is an override, and none is left open. -/
theorem calls_in_order (host : Str) (portOverride : Option Int) (calls : List (Peer × Call)) :
    let ft : FileTransfer := { host, portOverride, channel := { closed := true } }
    let ft' := runCalls ft calls
    ft'.requests = numbered 1 (calls.map Prod.snd) ∧
    ft'.requests.filterMap ftfidOf
      = (List.range' 1 (calls.countP (·.2.transfers))).map (fun i : Nat => intText i) ∧
    (∀ request ∈ ft'.requests, ∀ item ∈ request.2, Rooted item) ∧
    ft'.requests.filterMap pathOf = calls.filterMap (Call.listed ∘ Prod.snd) ∧
    ft'.opened.Sublist (calls.filterMap (offered ft)) ∧
    (∀ port, ft.override = some port → ∀ channel ∈ ft'.opened, channel.2 = port) ∧
    ft'.channel.closed = true := by
  intro ft ft'
  have hall : MadeAll calls ft ft' := madeAll_runCalls calls ft
  have hrequests : ft'.requests = numbered 1 (calls.map Prod.snd) := hall.requests
  obtain ⟨channels, hopened, hsub⟩ := hall.opened
  have hclosed : ft'.channel.closed = true := by
    rcases hall.released with hsame | hclosed
    · rw [hsame]
    · exact hclosed
  have hopened : ft'.opened = channels := hopened
  refine ⟨hrequests, ?_, fun request hr => ?_, ?_, ?_, fun port hport channel hc => ?_, hclosed⟩
  · rw [hrequests, ftfidOf_numbered, List.countP_map]
    rfl
  · rw [hrequests] at hr
    exact rooted_numbered hr
  · rw [hrequests, pathOf_numbered, List.filterMap_map]
  · rw [hopened]
    exact hsub
  · rw [hopened] at hc
    obtain ⟨x, _, hx⟩ := List.mem_filterMap.mp (hsub.subset hc)
    exact port_of_offered hx hport

def transferCalls : List (Peer × Call) :=
  [({ answer := .rows [[(lit "ftkey", lit "k"), (lit "port", lit "30033")]] },
    .uploadIcon (ascii "123456789")),
   ({ answer := .queryError
        { errorId := emptyResultSet, msg := [], extra := [], flood := false } },
    .fileList (.text (lit "7")) (lit "docs") []),
   ({ answer := .rows [[(lit "status", lit "2051")]] }, .download (lit "a") serverFiles [])]

theorem calls_in_order_icon :
    let ft : FileTransfer := { host := lit "h", channel := { closed := true } }
    let ft' := runCalls ft transferCalls
    ft'.requests.map Prod.fst = [lit "ftinitupload", lit "ftgetfilelist", lit "ftinitdownload"] ∧
    ft'.requests.filterMap ftfidOf = [lit "1", lit "2"] ∧
    ft'.requests.filterMap pathOf = [lit "docs"] ∧
    ft'.opened = [(lit "h", 30033)] ∧ ft'.channel.closed = true := by
  obtain ⟨hrequests, hids, _, hpaths, _, _, hclosed⟩ :=
    calls_in_order (lit "h") none transferCalls
  refine ⟨?_, hids.trans (by decide +kernel), hpaths, by decide +kernel, hclosed⟩
  rw [hrequests]
  rfl

end FileTransfer
end Atsq
