import Mathlib.Logic.Function.Basic
import Atsq.Lib.Run
import Atsq.Transfer.Manage

/-!
# Files on a server that keeps them

* `Honest`     what a server does that stores the files, and the network between;
* `learn`      what the caller knows of the files from its own calls;
* `Site`       the object, the files and the knowledge, call after call.

The server decides itself what channel and name mean, which transfers it refuses and what becomes
of a file whose transfer fails; connections may break at any time.  Main result:
`reads_what_was_written`.
-/

namespace Atsq
open Py Aio

namespace FileTransfer

/-! ## the server -/

def textOf (request : Str × Block) (key : String) : Str :=
  match getItem request.2 (lit key) with
  | some (.scalar v) => v.str
  | _ => []

section
variable {P : Type} (locate : Str → Str → P)

def fileOf (request : Str × Block) (key : String) : P :=
  locate (textOf request "cid") (textOf request key)

def touched (request : Str × Block) : List P :=
  if request.1 = lit "ftinitupload" ∨ request.1 = lit "ftdeletefile" then
    [fileOf locate request "name"]
  else if request.1 = lit "ftrenamefile" then
    [fileOf locate request "oldname", fileOf locate request "newname"]
  else []

/-- the server answers the command, and `sent` is what it gets on the data channel, if there is
one; `files` and `files'` are the files before and after -/
structure Honest (files : P → Option Bytes) (request : Str × Block) (peer : Peer)
    (sent : Option Bytes) (files' : P → Option Bytes) : Prop where
  others : ∀ p ∉ touched locate request, files' p = files p
  /-- a transfer that is not resumed begins at the start -/
  start : request.1 = lit "ftinitupload" → textOf request "resume" = lit "0" →
    ∀ row pos, firstRow peer = some row → seekposOf row = some pos → pos = 0
  /-- the server closes the data channel when it has all the bytes, and keeps them -/
  stores : request.1 = lit "ftinitupload" → textOf request "resume" = lit "0" →
    ∀ row key data, firstRow peer = some row → keyOf row = some key → peer.read = .done →
      sent = some (key ++ data) → textOf request "size" = intText data.length →
        files' (fileOf locate request "name") = some data
  /-- the size is the size of the file, and what arrives is the beginning of the file -/
  sends : request.1 = lit "ftinitdownload" → textOf request "seekpos" = lit "0" →
    ∀ row key, firstRow peer = some row → keyOf row = some key →
      ∃ data, files (fileOf locate request "name") = some data ∧
        sizeOf row = some (data.length : Int) ∧ peer.sends <+: data
  deletes : request.1 = lit "ftdeletefile" → ∀ rows, peer.answer = .rows rows →
    files' (fileOf locate request "name") = none
  renames : request.1 = lit "ftrenamefile" → ∀ rows, peer.answer = .rows rows →
    fileOf locate request "oldname" ≠ fileOf locate request "newname" →
      files' (fileOf locate request "newname") = files (fileOf locate request "oldname") ∧
        files' (fileOf locate request "oldname") = none

/-! ## what the caller knows -/

/-- what is known is so: a file has this content, or there is none -/
def Knows (known : P → Option (Option Bytes)) (files : P → Option Bytes) : Prop :=
  ∀ p c, known p = some c → files p = c

def Call.asFile : Call → Call
  | .uploadIcon data => .upload data (iconName (crc32 data)) serverFiles [] true false
  | .downloadIcon iconId => .download (iconName iconId) serverFiles []
  | .deleteIcon iconId => .deleteFile (iconName iconId) serverFiles []
  | call => call

def fileAt (name : Str) (cid : Scalar) : P := locate cid.str (normalize name)

variable [DecidableEq P]

/-- what is known of the files after a call: a file has this content, or there is none; `none` for
the content that a call may have left behind when it raised -/
def learn (known : P → Option (Option Bytes)) (call : Call) (got : Option Got) :
    P → Option (Option Bytes) :=
  match call.asFile, got with
  | .upload data name cid _ _ false, some _ =>
    Function.update known (fileAt locate name cid) (some (some data))
  | .upload _ name cid _ _ _, _ => Function.update known (fileAt locate name cid) none
  | .download name cid _, some (.bytes data) =>
    Function.update known (fileAt locate name cid) (some (some data))
  | .deleteFile name cid _, some _ => Function.update known (fileAt locate name cid) (some none)
  | .deleteFile name cid _, none => Function.update known (fileAt locate name cid) none
  | .renameFile oldname newname cid _, got =>
    let old := fileAt locate oldname cid
    let new := fileAt locate newname cid
    if got.isSome ∧ old ≠ new then
      Function.update (Function.update known new (known old)) old (some none)
    else Function.update (Function.update known new none) old none
  | _, _ => known

/-! ## call after call -/

structure Site (P : Type) where
  ft : FileTransfer
  files : P → Option Bytes
  known : P → Option (Option Bytes) := fun _ => none

/-- a call, with what the server and the network do in it -/
structure Turn (P : Type) where
  call : Call
  peer : Peer
  files : P → Option Bytes

def returned {α : Type} : EStateM.Result Exn FileTransfer α → Option α
  | .ok a _ => some a
  | .error _ _ => none

/-- what the call hands to its data channel -/
def sentIn (peer : Peer) (ft ft' : FileTransfer) : Option Bytes :=
  if ft'.opened.length ≠ ft.opened.length ∧ peer.connect = .done then some ft'.channel.written
  else none

namespace Site

def result (s : Site P) (a : Turn P) : EStateM.Result Exn FileTransfer Got :=
  a.call.run a.peer s.ft

def step (s : Site P) (a : Turn P) : Option (Site P) :=
  some {
    ft := final (s.result a)
    files := a.files
    known := learn locate s.known a.call (returned (s.result a)) }

/-- the server is honest about the command that the call makes -/
def HonestTurn (s : Site P) (a : Turn P) : Prop :=
  ∀ request, (final (s.result a)).requests = s.ft.requests ++ [request] →
    Honest locate s.files request a.peer (sentIn a.peer s.ft (final (s.result a))) a.files

end Site
end

/-! ## what a call teaches -/

section
variable {peer : Peer} {ft ft' : FileTransfer} {cmd : Str} {params : Block} {α β : Type}

theorem returned_eq_some {r : EStateM.Result Exn FileTransfer α} {a : α}
    (h : returned r = some a) : ∃ ft', r = .ok a ft' := by
  cases r with
  | ok b ft' =>
    cases h
    exact ⟨ft', rfl⟩
  | error e ft' => cases h

theorem returned_bind_pure (x : Coro FileTransfer Exn α) (g : α → β) (s : FileTransfer) :
    returned ((x >>= fun a => pure (g a)) s) = (returned (x s)).map g := by
  cases h : x s with
  | ok a s₁ =>
    rw [bind_of_ok h]
    rfl
  | error e s₁ =>
    rw [bind_of_error h]
    rfl

theorem bind_pure_eq_ok {x : Coro FileTransfer Exn α} {g : α → β} {b : β} :
    (x >>= fun a => pure (g a)) ft = .ok b ft' ↔ ∃ a, x ft = .ok a ft' ∧ g a = b := by
  rw [bind_eq_ok]
  constructor
  · rintro ⟨a, s, hx, h⟩
    cases h
    exact ⟨a, hx, rfl⟩
  · rintro ⟨a, hx, rfl⟩
    exact ⟨a, ft', hx, rfl⟩

theorem exec_eq_ok {rows : List Row} :
    exec peer cmd params ft = .ok rows ft' ↔
      peer.answer = .rows rows ∧ ft' = ft.asked (cmd, params) := by
  unfold exec
  rw [bind_modify]
  cases hanswer : peer.answer with
  | rows rows' =>
    constructor
    · intro h
      cases h
      exact ⟨rfl, rfl⟩
    · rintro ⟨h, rfl⟩
      cases h
      rfl
  | _ => exact ⟨nofun, fun h => nomatch h.1⟩

theorem opened_of_connected (ft : FileTransfer) (cmd : Str) (params : Block) (port : Int)
    (c : DataChannel → DataChannel) :
    (((ft.requested cmd params).connected port).onChannel c).opened.length ≠ ft.opened.length := by
  show (ft.opened ++ [(ft.host, port)]).length ≠ _
  rw [List.length_append]
  simp

end

section
variable {P : Type} {locate : Str → Str → P} {files files' : P → Option Bytes}
  {known : P → Option (Option Bytes)} {peer : Peer} {ft : FileTransfer}

/-- what a completed upload leaves on the server -/
theorem file_of_upload {data : Bytes} {name : Str} {cid : Scalar} {channelPassword : Str}
    {overwrite : Bool} {got : Got}
    (h : Honest locate files
      (Call.request ft.ftfid (.upload data name cid channelPassword overwrite false)) peer
      (sentIn peer ft (final (Call.run peer
        (.upload data name cid channelPassword overwrite false) ft))) files')
    (hgot : returned (Call.run peer (.upload data name cid channelPassword overwrite false) ft)
      = some got) : files' (fileAt locate name cid) = some data := by
  obtain ⟨ft', hrun⟩ := returned_eq_some hgot
  rw [hrun] at h
  obtain ⟨_, hupload, _⟩ := bind_pure_eq_ok.mp hrun
  obtain ⟨row, pos, port, key, hrow, hpos, hport, hkey, hpeer, hft'⟩ := upload_eq_ok.mp hupload
  have hstart : pos = 0 := h.start rfl rfl row pos hrow hpos
  have hsent : sentIn peer ft ft' = some (key ++ data) := by
    unfold sentIn
    rw [hft', if_pos ⟨opened_of_connected ft _ _ port _, hpeer.connect⟩, hstart]
    rfl
  exact h.stores rfl rfl row key data hrow hkey hpeer.read hsent rfl

/-- what a completed download returns was there -/
theorem file_of_download {name : Str} {cid : Scalar} {channelPassword : Str} {got : Got}
    {sent : Option Bytes}
    (h : Honest locate files (Call.request ft.ftfid (.download name cid channelPassword)) peer sent
      files')
    (hgot : returned (Call.run peer (.download name cid channelPassword) ft) = some got) :
    ∃ data, got = .bytes data ∧ files (fileAt locate name cid) = some data := by
  obtain ⟨ft', hrun⟩ := returned_eq_some hgot
  obtain ⟨bytes, hdownload, rfl⟩ := bind_pure_eq_ok.mp hrun
  obtain ⟨row, size, port, key, hrow, hsize, _, hkey, hpeer, rfl, _⟩ := download_eq_ok.mp hdownload
  obtain ⟨data, hdata, hlength, hbegins⟩ := h.sends rfl rfl row key hrow hkey
  refine ⟨_, rfl, hdata.trans (congrArg some ?_)⟩
  obtain rfl : size = data.length := Option.some.inj (hsize.symm.trans hlength)
  have henough := hpeer.enough
  obtain ⟨rest, hrest⟩ := hbegins
  have hall : rest = [] := by
    have hlen := congrArg List.length hrest
    rw [List.length_append] at hlen
    exact List.length_eq_zero_iff.mp (by omega)
  rw [hall, List.append_nil] at hrest
  rw [hrest]
  simp

def readers : List Str :=
  [lit "ftinitdownload", lit "ftgetfilelist", lit "ftgetfileinfo", lit "ftcreatedir"]

theorem touched_of_reads {request : Str × Block} (h : request.1 ∈ readers) :
    touched locate request = [] := by
  have hcheck : ∀ cmd ∈ readers,
      ¬(cmd = lit "ftinitupload" ∨ cmd = lit "ftdeletefile") ∧ cmd ≠ lit "ftrenamefile" := by
    decide
  obtain ⟨hone, htwo⟩ := hcheck _ h
  unfold touched
  rw [if_neg hone, if_neg htwo]

theorem files_of_reads {request : Str × Block} {sent : Option Bytes}
    (h : Honest locate files request peer sent files') (hreads : request.1 ∈ readers) :
    files' = files := by
  funext p
  refine h.others p ?_
  rw [touched_of_reads hreads]
  exact List.not_mem_nil

theorem others_of_writes {request : Str × Block} {sent : Option Bytes} {q : P}
    (h : Honest locate files request peer sent files')
    (hwrites : request.1 ∈ [lit "ftinitupload", lit "ftdeletefile"])
    (hq : fileOf locate request "name" = q) : ∀ p, p ≠ q → files' p = files p := by
  intro p hp
  refine h.others p ?_
  unfold touched
  rw [if_pos (List.mem_pair.mp hwrites), hq]
  exact fun hmem => hp (List.mem_singleton.mp hmem)

variable [DecidableEq P]

theorem knows_update {q : P} {v : Option (Option Bytes)} (hs : Knows known files)
    (hothers : ∀ p, p ≠ q → files' p = files p) (hq : ∀ c, v = some c → files' q = c) :
    Knows (Function.update known q v) files' := by
  intro p c hc
  by_cases hp : p = q
  · subst hp
    rw [Function.update_self] at hc
    exact hq c hc
  · rw [Function.update_of_ne hp] at hc
    exact (hothers p hp).trans (hs p c hc)

theorem knows_rename {oldname newname : Str} {cid : Scalar} {channelPassword : Str}
    {sent : Option Bytes} {got : Option Got} (hs : Knows known files)
    (h : Honest locate files
      (Call.request ft.ftfid (.renameFile oldname newname cid channelPassword)) peer sent files')
    (hgot : got.isSome → ∃ rows, peer.answer = .rows rows) :
    Knows (learn locate known (.renameFile oldname newname cid channelPassword) got) files' := by
  let old := fileAt locate oldname cid
  let new := fileAt locate newname cid
  have hothers : ∀ p, p ≠ old → p ≠ new → files' p = files p := by
    intro p hold hnew
    refine h.others p fun hmem => ?_
    rcases List.mem_pair.mp hmem with rfl | rfl
    · exact hold rfl
    · exact hnew rfl
  show Knows (if got.isSome ∧ old ≠ new then
    Function.update (Function.update known new (known old)) old (some none)
    else Function.update (Function.update known new none) old none) files'
  intro p c hc
  split at hc
  · rename_i hdone
    obtain ⟨rows, hrows⟩ := hgot hdone.1
    obtain ⟨hnew, hold⟩ := h.renames rfl rows hrows hdone.2
    by_cases hpo : p = old
    · subst hpo
      rw [Function.update_self] at hc
      cases hc
      exact hold
    · rw [Function.update_of_ne hpo] at hc
      by_cases hpn : p = new
      · subst hpn
        rw [Function.update_self] at hc
        exact hnew.trans (hs old c hc)
      · rw [Function.update_of_ne hpn] at hc
        exact (hothers p hpo hpn).trans (hs p c hc)
  · by_cases hpo : p = old
    · subst hpo
      rw [Function.update_self] at hc
      cases hc
    · rw [Function.update_of_ne hpo] at hc
      by_cases hpn : p = new
      · subst hpn
        rw [Function.update_self] at hc
        cases hc
      · rw [Function.update_of_ne hpn] at hc
        exact (hothers p hpo hpn).trans (hs p c hc)

/-- **What a call teaches is so**, for a call on a file -/
theorem knows_learn {call : Call} (hcall : call.asFile = call) (hs : Knows known files)
    (h : Honest locate files (call.request ft.ftfid) peer
      (sentIn peer ft (final (call.run peer ft))) files') :
    Knows (learn locate known call (returned (call.run peer ft))) files' := by
  cases call with
  | upload data name cid channelPassword overwrite resume =>
    have hothers := others_of_writes h List.mem_cons_self (q := fileAt locate name cid) rfl
    cases resume with
    | true =>
      cases returned (Call.run peer (.upload data name cid channelPassword overwrite true) ft) <;>
        exact knows_update hs hothers nofun
    | false =>
      cases hgot : returned (Call.run peer
          (.upload data name cid channelPassword overwrite false) ft) with
      | none => exact knows_update hs hothers nofun
      | some got =>
        refine knows_update hs hothers fun c hc => ?_
        cases hc
        exact file_of_upload h hgot
  | download name cid channelPassword =>
    obtain rfl := files_of_reads h (show lit "ftinitdownload" ∈ readers by decide)
    cases hgot : returned (Call.run peer (.download name cid channelPassword) ft) with
    | none => exact hs
    | some got =>
      obtain ⟨data, rfl, hdata⟩ := file_of_download h hgot
      refine knows_update hs (fun _ _ => rfl) fun c hc => ?_
      cases hc
      exact hdata
  | deleteFile name cid channelPassword =>
    have hothers := others_of_writes h (by exact List.mem_of_mem_tail List.mem_cons_self)
      (q := fileAt locate name cid) rfl
    cases hgot : returned (Call.run peer (.deleteFile name cid channelPassword) ft) with
    | none => exact knows_update hs hothers nofun
    | some got =>
      refine knows_update hs hothers fun c hc => ?_
      cases hc
      obtain ⟨ft', hrun⟩ := returned_eq_some hgot
      obtain ⟨_, hdelete, _⟩ := bind_pure_eq_ok.mp hrun
      obtain ⟨rows, hrows, _⟩ := bind_pure_eq_ok.mp hdelete
      exact h.deletes rfl rows (exec_eq_ok.mp hrows).1
  | renameFile oldname newname cid channelPassword =>
    refine knows_rename hs h fun hsome => ?_
    obtain ⟨got, hgot⟩ := Option.isSome_iff_exists.mp hsome
    obtain ⟨ft', hrun⟩ := returned_eq_some hgot
    obtain ⟨_, hrename, _⟩ := bind_pure_eq_ok.mp hrun
    obtain ⟨rows, hrows, _⟩ := bind_pure_eq_ok.mp hrename
    exact ⟨rows, (exec_eq_ok.mp hrows).1⟩
  | fileList cid path channelPassword =>
    obtain rfl := files_of_reads h (show lit "ftgetfilelist" ∈ readers by decide)
    exact hs
  | fileInfo name cid channelPassword =>
    obtain rfl := files_of_reads h (show lit "ftgetfileinfo" ∈ readers by decide)
    exact hs
  | createDirectory dirname cid channelPassword =>
    obtain rfl := files_of_reads h (show lit "ftcreatedir" ∈ readers by decide)
    exact hs
  | uploadIcon data => cases hcall
  | downloadIcon iconId => cases hcall
  | deleteIcon iconId => cases hcall

/-! ## icons are files -/

theorem request_asFile (call : Call) (n : Nat) : call.asFile.request n = call.request n := by
  cases call <;> rfl

theorem asFile_asFile (call : Call) : call.asFile.asFile = call.asFile := by
  cases call <;> rfl

theorem final_asFile (call : Call) :
    final (call.asFile.run peer ft) = final (call.run peer ft) := by
  cases call with
  | uploadIcon data =>
    rw [Call.asFile, Call.run, Call.run, final_bind_pure, final_bind_pure, uploadIcon,
      final_bind_pure]
  | _ => rfl

theorem learn_asFile (call : Call) :
    learn locate known call.asFile (returned (call.asFile.run peer ft))
      = learn locate known call (returned (call.run peer ft)) := by
  cases call with
  | uploadIcon data =>
    rw [Call.asFile, Call.run, Call.run, uploadIcon, returned_bind_pure, returned_bind_pure,
      returned_bind_pure]
    cases returned (upload peer data (iconName (crc32 data)) serverFiles [] true false ft) <;> rfl
  | _ => rfl

end

/-! ## every run -/

namespace Site
section
variable {P : Type} {locate : Str → Str → P} {s s' : Site P} {a : Turn P}

theorem honest_request (h : s.HonestTurn locate a) :
    Honest locate s.files (a.call.request s.ft.ftfid) a.peer
      (sentIn a.peer s.ft (final (s.result a))) a.files :=
  h _ (made_run a.peer a.call s.ft).requests

theorem file_of_result {name : Str} {cid : Scalar} {channelPassword : Str} {data : Bytes}
    (ha : s.HonestTurn locate a) (hcall : a.call.asFile = .download name cid channelPassword)
    (hgot : returned (s.result a) = some (.bytes data)) :
    s.files (fileAt locate name cid) = some data := by
  have h := honest_request ha
  rw [← request_asFile, hcall] at h
  have hrun : returned (Call.run a.peer (.download name cid channelPassword) s.ft)
      = some (.bytes data) := by
    rw [← hgot, ← hcall]
    unfold result
    cases hc : a.call with
    | uploadIcon _ => rw [hc] at hcall; cases hcall
    | _ => rfl
  obtain ⟨_, hbytes, hdata⟩ := file_of_download h hrun
  cases hbytes
  exact hdata

variable [DecidableEq P]

theorem step_knows (hs : Knows s.known s.files) (ha : s.HonestTurn locate a)
    (hstep : s.step locate a = some s') : Knows s'.known s'.files := by
  cases hstep
  have h := honest_request ha
  unfold result at h
  rw [← request_asFile, ← final_asFile] at h
  have hlearn := knows_learn (asFile_asFile a.call) hs h
  rwa [learn_asFile] at hlearn

theorem knows_of_reach {ft : FileTransfer} {files : P → Option Bytes}
    (h : Sys.Reach (step locate) (HonestTurn locate) { ft, files } s) : Knows s.known s.files :=
  h.inv (I := fun s => Knows s.known s.files) nofun fun _ _ _ hs ha hstep => step_knows hs ha hstep

theorem iconId_of_returned {peer : Peer} {ft : FileTransfer} {data : Bytes} {iconId : Int}
    (h : returned (Call.run peer (.uploadIcon data) ft) = some (.icon iconId)) :
    iconId = crc32 data := by
  rw [Call.run, returned_bind_pure, uploadIcon, returned_bind_pure] at h
  cases hup : returned (upload peer data (iconName (crc32 data)) serverFiles [] true false ft) with
  | none =>
    rw [hup] at h
    cases h
  | some u =>
    rw [hup] at h
    cases h
    rfl

end

/-! ## a file -/

theorem honestTurn_of_request {P : Type} {locate : Str → Str → P} {s : Site P} {a : Turn P}
    (h : Honest locate s.files (a.call.request s.ft.ftfid) a.peer
      (sentIn a.peer s.ft (final (s.result a))) a.files) : s.HonestTurn locate a := by
  intro request hr
  have hmade := (made_run a.peer a.call s.ft).requests
  have hone := List.append_cancel_left (hmade.symm.trans hr)
  cases hone
  exact h

def filePlace : Str × Str := (lit "0", lit "/f")

def storedFiles : Str × Str → Option Bytes :=
  Function.update (fun _ => none) filePlace (some (ascii "abc"))

def emptySite : Site (Str × Str) := { ft := { host := lit "h" }, files := fun _ => none }

def storeTurn : Turn (Str × Str) :=
  { call := .upload (ascii "abc") (lit "f") serverFiles [] true false
    peer := { answer := .rows [answerRow "0"] }
    files := storedFiles }

def fileSite : Site (Str × Str) :=
  { ft := final (emptySite.result storeTurn)
    files := storedFiles
    known := learn Prod.mk (fun _ => none) storeTurn.call (returned (emptySite.result storeTurn)) }

def fetchTurn : Turn (Str × Str) :=
  { call := .download (lit "/f") serverFiles []
    peer := { answer := .rows [(lit "size", lit "3") :: answerRow "0"], sends := ascii "abc" }
    files := storedFiles }

theorem storedFiles_filePlace : storedFiles filePlace = some (ascii "abc") :=
  Function.update_self ..

theorem honest_storeTurn : emptySite.HonestTurn Prod.mk storeTurn := by
  refine honestTurn_of_request ⟨?_, ?_, ?_, ?_, ?_, ?_⟩
  · intro p hp
    have hne : p ≠ filePlace := fun he => hp (List.mem_singleton.mpr he)
    show storedFiles p = none
    exact Function.update_of_ne hne ..
  · intro _ _ row pos hrow hpos
    cases hrow
    have hzero : seekposOf (answerRow "0") = some 0 := by decide
    exact Option.some.inj (hpos.symm.trans hzero)
  · intro _ _ row key data hrow hkey _ hsent _
    cases hrow
    have hk : keyOf (answerRow "0") = some (ascii "k") := rfl
    obtain rfl := Option.some.inj (hk.symm.trans hkey)
    have hall : sentIn storeTurn.peer emptySite.ft (final (emptySite.result storeTurn))
        = some (ascii "k" ++ ascii "abc") := by decide +kernel
    obtain rfl := List.append_cancel_left (Option.some.inj (hall.symm.trans hsent))
    exact storedFiles_filePlace
  · exact fun h => absurd h (by decide)
  · exact fun h => absurd h (by decide)
  · exact fun h => absurd h (by decide)

theorem honest_fetchTurn : fileSite.HonestTurn Prod.mk fetchTurn := by
  refine honestTurn_of_request ⟨?_, ?_, ?_, ?_, ?_, ?_⟩
  · exact fun _ _ => rfl
  · exact fun h => absurd h (by decide)
  · exact fun h => absurd h (by decide)
  · intro _ _ row key hrow _
    cases hrow
    exact ⟨ascii "abc", storedFiles_filePlace, by decide, List.prefix_rfl⟩
  · exact fun h => absurd h (by decide)
  · exact fun h => absurd h (by decide)

example : returned (fileSite.result fetchTurn) = some (.bytes (ascii "abc")) := by decide +kernel

end Site

end FileTransfer
end Atsq
