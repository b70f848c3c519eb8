import Atsq.Transfer.State

/-!
# What `upload` sends

* `upload_eq_ok`   when `upload` returns, and what it has done then;
* `Accounts`       what an upload promises: every byte of the data is accounted for;
* `Harmless`       the answers of the server for which it keeps this.

Main results: `upload_accounts_iff`, and `upload_loses_data`, two answers for which it does not.
-/

namespace Atsq
open Py Aio

namespace FileTransfer

/-! ## when the parts return -/

section
variable {α : Type} {peer : Peer} {row : Row} {cmd : Str} {params : Block} {ft ft' : FileTransfer}

theorem orRaise_eq_ok {e : Exn} {o : Option α} {a : α} :
    orRaise e o ft = .ok a ft' ↔ o = some a ∧ ft' = ft := by
  cases o with
  | none => exact ⟨nofun, nofun⟩
  | some b =>
    constructor
    · intro h
      cases h
      exact ⟨rfl, rfl⟩
    · rintro ⟨h, rfl⟩
      cases h
      rfl

theorem await_eq_ok {w : Await} {u : Unit} :
    await w ft = .ok u ft' ↔ w = .done ∧ ft' = ft := by
  cases w with
  | raises e => exact ⟨nofun, nofun⟩
  | done =>
    constructor
    · intro h
      cases h
      exact ⟨rfl, rfl⟩
    · rintro ⟨_, rfl⟩
      rfl

def requested (ft : FileTransfer) (cmd : Str) (params : Block) : FileTransfer :=
  { ft with
    ftfid := ft.ftfid + 1
    requests := ft.requests
      ++ [(cmd, (lit "clientftfid", .scalar (.text (intText ft.ftfid))) :: params)] }

def firstRow (peer : Peer) : Option Row :=
  match peer.answer with
  | .rows rows => some (rows.headD [])
  | _ => none

def initError (cmd : Str) (row : Row) : Exn :=
  match int ((getItem row (lit "status")).getD (lit "-1")) with
  | some status => .queryError
    { errorId := status
      msg := (getItem row (lit "msg")).getD (cmd ++ lit " failed")
      extra := row
      flood := false }
  | none => .valueError

theorem init_of_row (h : firstRow peer = some row) : init peer cmd params ft =
    if getItem row (lit "ftkey") = none then .error (initError cmd row) (ft.requested cmd params)
    else .ok row (ft.requested cmd params) := by
  unfold firstRow at h
  split at h
  · rename_i rows hanswer
    cases h
    have hexec : ∀ p s, exec peer cmd p s
        = .ok rows { s with requests := s.requests ++ [(cmd, p)] } := by
      intro p s
      unfold exec
      rw [hanswer]
      rfl
    unfold init
    show (exec peer cmd _ >>= _) _ = _
    rw [bind_of_ok (hexec _ _)]
    simp only []
    split
    · unfold initError getInt
      cases int ((getItem (rows.headD []) (lit "status")).getD (lit "-1")) <;> rfl
    · rfl
  · cases h

theorem init_of_no_row (h : firstRow peer = none) :
    ∃ e, init peer cmd params ft = .error e (ft.requested cmd params) := by
  unfold firstRow at h
  split at h
  · cases h
  · rename_i hanswer
    unfold init exec
    cases ha : peer.answer with
    | rows rows => exact absurd ha (hanswer rows)
    | _ => exact ⟨_, rfl⟩

/-- `row["ftkey"].encode("ascii")` -/
def keyOf (row : Row) : Option Bytes := (getItem row (lit "ftkey")).bind encodeAscii

theorem ftkey_of_keyOf {key : Bytes} (h : keyOf row = some key) :
    getItem row (lit "ftkey") ≠ none := by
  intro hnone
  unfold keyOf at h
  rw [hnone] at h
  cases h

def portOf (ft : FileTransfer) (row : Row) : Option Int :=
  ft.override.or ((getItem row (lit "port")).bind int)

/-- `int(row.get("seekpos", "0"))` -/
def seekposOf (row : Row) : Option Int := int ((getItem row (lit "seekpos")).getD (lit "0"))

/-- nothing goes wrong on the data channel -/
structure Accepts (peer : Peer) : Prop where
  connect : peer.connect = .done
  drain : peer.drain = .done
  writeEof : peer.canWriteEof = true → peer.writeEof = .done
  read : peer.read = .done
  waitClosed : peer.waitClosed = .done

/-- a new data channel to the port -/
def connected (ft : FileTransfer) (port : Int) : FileTransfer :=
  { ft with opened := ft.opened ++ [(ft.host, port)], channel := {} }

theorem init_eq_ok : init peer cmd params ft = .ok row ft' ↔
    firstRow peer = some row ∧ getItem row (lit "ftkey") ≠ none ∧
      ft' = ft.requested cmd params := by
  cases hrow : firstRow peer with
  | none =>
    obtain ⟨e, he⟩ : ∃ e, init peer cmd params ft = .error e (ft.requested cmd params) :=
      init_of_no_row hrow
    rw [he]
    constructor
    · intro h
      cases h
    · rintro ⟨h, _⟩
      cases h
  | some r =>
    rw [init_of_row hrow]
    split
    · rename_i hkey
      constructor
      · intro h
        cases h
      · rintro ⟨h, hne, _⟩
        cases h
        exact absurd hkey hne
    · rename_i hkey
      constructor
      · intro h
        cases h
        exact ⟨rfl, hkey, rfl⟩
      · rintro ⟨h, _, rfl⟩
        cases h
        rfl

theorem dataPort_eq_ok {port : Int} :
    dataPort row ft = .ok port ft' ↔ portOf ft row = some port ∧ ft' = ft := by
  unfold dataPort portOf
  rw [bind_get]
  cases ft.override with
  | some p => exact orRaise_eq_ok (e := .valueError) (o := some p)
  | none =>
    simp only [bind_eq_ok, item, orRaise_eq_ok, Option.none_or, Option.bind_eq_some_iff]
    constructor
    · rintro ⟨text, s, ⟨h1, rfl⟩, h2, h3⟩
      exact ⟨⟨text, h1, h2⟩, h3⟩
    · rintro ⟨⟨text, h1, h2⟩, h3⟩
      exact ⟨text, ft, ⟨h1, rfl⟩, h2, h3⟩

theorem openDataChannel_eq_ok {u : Unit} : openDataChannel peer row ft = .ok u ft' ↔
    ∃ port, portOf ft row = some port ∧ peer.connect = .done ∧ ft' = ft.connected port := by
  unfold openDataChannel
  rw [bind_eq_ok]
  constructor
  · rintro ⟨port, s, hport, h⟩
    obtain ⟨hport, rfl⟩ := dataPort_eq_ok.mp hport
    rw [bind_modify, bind_eq_ok] at h
    obtain ⟨_, s₁, hawait, h⟩ := h
    obtain ⟨hconnect, rfl⟩ := await_eq_ok.mp hawait
    cases h
    exact ⟨port, hport, hconnect, rfl⟩
  · rintro ⟨port, hport, hconnect, rfl⟩
    refine ⟨port, ft, dataPort_eq_ok.mpr ⟨hport, rfl⟩, ?_⟩
    rw [bind_modify, bind_of_ok (await_eq_ok (u := ()) |>.mpr ⟨hconnect, rfl⟩)]
    rfl

theorem closeWriter_eq_ok {u : Unit} : closeWriter peer ft = .ok u ft' ↔
    peer.waitClosed = .done ∧ ft' = ft.onChannel fun c => { c with closed := true } := by
  unfold closeWriter
  rw [bind_modify]
  exact await_eq_ok

theorem writeEof_eq_ok {u : Unit} : writeEof peer ft = .ok u ft' ↔
    (peer.canWriteEof = true → peer.writeEof = .done) ∧
      ft' = ft.onChannel fun c => { c with eof := c.eof || peer.canWriteEof } := by
  unfold writeEof
  cases peer.canWriteEof with
  | true =>
    rw [if_pos rfl, bind_modify, await_eq_ok]
    simp
  | false =>
    have hsame : (ft.onChannel fun c => { c with eof := c.eof || false }) = ft := by
      simp [onChannel]
    rw [if_neg (by decide), hsame]
    constructor
    · intro h
      cases h
      exact ⟨nofun, rfl⟩
    · rintro ⟨_, rfl⟩
      rfl

theorem item_bind_eq_ok {β : Type} {key : Str} {e : Exn} {g : Str → Option α}
    {f : α → Coro FileTransfer Exn β} {b : β} :
    (item row key >>= fun text => orRaise e (g text) >>= f) ft = .ok b ft' ↔
      ∃ a, (getItem row key).bind g = some a ∧ f a ft = .ok b ft' := by
  simp only [bind_eq_ok, item, orRaise_eq_ok, Option.bind_eq_some_iff]
  constructor
  · rintro ⟨text, s, ⟨h1, rfl⟩, a, s', ⟨h2, rfl⟩, h3⟩
    exact ⟨a, ⟨text, h1, h2⟩, h3⟩
  · rintro ⟨a, ⟨text, h1, h2⟩, h3⟩
    exact ⟨text, ft, ⟨h1, rfl⟩, a, ft, ⟨h2, rfl⟩, h3⟩

theorem sendFile_eq_ok {payload : Bytes} {u : Unit} : sendFile peer row payload ft = .ok u ft' ↔
    ∃ key, keyOf row = some key ∧ peer.drain = .done ∧
      (peer.canWriteEof = true → peer.writeEof = .done) ∧ peer.read = .done ∧
      ft' = ft.onChannel fun c => { c with
        written := c.written ++ key ++ payload
        eof := c.eof || peer.canWriteEof } := by
  unfold sendFile
  rw [item_bind_eq_ok]
  unfold keyOf
  refine exists_congr fun key => and_congr_right fun _ => ?_
  unfold write
  rw [bind_modify, bind_modify]
  simp only [bind_eq_ok, await_eq_ok, writeEof_eq_ok]
  constructor
  · rintro ⟨_, _, ⟨hdrain, rfl⟩, _, _, ⟨heof, rfl⟩, hread, rfl⟩
    exact ⟨hdrain, heof, hread, rfl⟩
  · rintro ⟨hdrain, heof, hread, rfl⟩
    exact ⟨(), _, ⟨hdrain, rfl⟩, (), _, ⟨heof, rfl⟩, hread, rfl⟩

end

/-! ## `upload` -/

section
variable {peer : Peer} {data : Bytes} {name : Str} {cid : Scalar} {channelPassword : Str}
  {overwrite resume : Bool} {ft ft' : FileTransfer}

/-- what is on the data channel when `upload` returns -/
def uploaded (peer : Peer) (key payload : Bytes) : DataChannel :=
  { written := key ++ payload, eof := peer.canWriteEof, closed := true }

/-- **When `upload` returns, and what it has done then.** -/
theorem upload_eq_ok {u : Unit} :
    upload peer data name cid channelPassword overwrite resume ft = .ok u ft' ↔
      ∃ row seekpos port key, firstRow peer = some row ∧ seekposOf row = some seekpos ∧
        portOf ft row = some port ∧ keyOf row = some key ∧ Accepts peer ∧
        ft' = ((ft.requested (lit "ftinitupload")
          (uploadParams data name cid channelPassword overwrite resume)).connected port).onChannel
            fun _ => uploaded peer key (sliceFrom data seekpos) := by
  unfold upload
  simp only [bind_eq_ok, init_eq_ok, getInt, orRaise_eq_ok, underTimeout, mapError_eq_ok,
    openDataChannel_eq_ok, tryFinally_eq_ok, sendFile_eq_ok, closeWriter_eq_ok]
  constructor
  · rintro ⟨row, _, ⟨hrow, _, rfl⟩, pos, _, ⟨hpos, rfl⟩, _, _, ⟨port, hport, hconnect, rfl⟩, _, _,
      ⟨key, hkey, hdrain, heof, hread, rfl⟩, hclosed, rfl⟩
    exact ⟨row, pos, port, key, hrow, hpos, hport, hkey,
      ⟨hconnect, hdrain, heof, hread, hclosed⟩, rfl⟩
  · rintro ⟨row, pos, port, key, hrow, hpos, hport, hkey, hpeer, rfl⟩
    exact ⟨row, _, ⟨hrow, ftkey_of_keyOf hkey, rfl⟩, pos, _, ⟨hpos, rfl⟩, (), _,
      ⟨port, hport, hpeer.connect, rfl⟩, (), _,
      ⟨key, hkey, hpeer.drain, hpeer.writeEof, hpeer.read, rfl⟩, hpeer.waitClosed, rfl⟩

theorem upload_of_no_key {row : Row} (hrow : firstRow peer = some row)
    (hkey : getItem row (lit "ftkey") = none) :
    upload peer data name cid channelPassword overwrite resume ft =
      .error (initError (lit "ftinitupload") row) (ft.requested (lit "ftinitupload")
        (uploadParams data name cid channelPassword overwrite resume)) := by
  unfold upload
  refine bind_of_error ?_
  rw [init_of_row hrow, if_pos hkey]

end

/-! ## every byte -/

/-- the integer in a field of the row, or the default -/
def IntField (row : Row) (key : Str) (default i : Int) : Prop :=
  match getItem row key with
  | none => i = default
  | some text => integer text = some i

/-- the last command announces this size -/
def Announced (ft : FileTransfer) (size : Int) : Prop :=
  ∃ params, ft.requests.getLast? = some (lit "ftinitupload", params) ∧
    getItem params (lit "size") = some (.scalar (.text (intText size)))

structure Accounts (ft : FileTransfer) (peer : Peer) (data : Bytes)
    (r : EStateM.Result Exn FileTransfer Unit) : Prop where
  /-- a row without a key: no data channel, and the status is raised -/
  refused : ∀ row, firstRow peer = some row → getItem row (lit "ftkey") = none →
    (final r).opened = ft.opened ∧ ∀ status, IntField row (lit "status") (-1) status →
      ∃ e ft', r = .error (.queryError e) ft' ∧ e.errorId = status
  /-- the key, and what is missing after the first `seekpos` bytes of the data -/
  written : ∀ row seekpos ft', firstRow peer = some row →
    IntField row (lit "seekpos") 0 seekpos → r = .ok () ft' →
      ∃ key payload, keyOf row = some key ∧ ft'.channel.written = key ++ payload ∧
        payload = data.drop seekpos.toNat ∧ data.take seekpos.toNat ++ payload = data ∧
        Announced ft' (seekpos + payload.length)
  impossible : ∀ row seekpos, firstRow peer = some row →
    IntField row (lit "seekpos") 0 seekpos → seekpos < 0 ∨ (data.length : Int) < seekpos →
      ∀ ft', r ≠ .ok () ft'

/-- nothing but its `seekpos` stands in the way of the transfer -/
structure Unhindered (ft : FileTransfer) (peer : Peer) (row : Row) : Prop where
  seekpos : (seekposOf row).isSome
  port : (portOf ft row).isSome
  key : (keyOf row).isSome
  accepts : Accepts peer

structure Harmless (ft : FileTransfer) (peer : Peer) (data : Bytes) : Prop where
  /-- `int` accepts the status of a row without a key -/
  status : ∀ row text, firstRow peer = some row → getItem row (lit "ftkey") = none →
    getItem row (lit "status") = some text → (integer text).isSome → (int text).isSome
  seekpos : ∀ row seekpos, firstRow peer = some row → Unhindered ft peer row →
    IntField row (lit "seekpos") 0 seekpos → 0 ≤ seekpos ∧ seekpos ≤ data.length

section
variable {ft : FileTransfer} {peer : Peer} {row : Row} {data : Bytes}

theorem intField_of_getInt {key default : Str} {d i j : Int} (hd : integer default = some d)
    (h : int ((getItem row key).getD default) = some i) (hj : IntField row key d j) : j = i := by
  unfold IntField at hj
  cases hkey : getItem row key with
  | none =>
    rw [hkey] at h hj
    have hi := hd.symm.trans (integer_of_int h)
    exact hj.trans (Option.some.inj hi)
  | some text =>
    rw [hkey] at h hj
    exact Option.some.inj (hj.symm.trans (integer_of_int h))

theorem intField_seekpos {i j : Int} (h : seekposOf row = some i)
    (hj : IntField row (lit "seekpos") 0 j) : j = i :=
  intField_of_getInt (by decide) h hj

variable {name : Str} {cid : Scalar} {channelPassword : Str} {overwrite resume : Bool}

/-- `upload` returns whenever nothing stands in its way -/
theorem upload_of_unhindered (hrow : firstRow peer = some row) (h : Unhindered ft peer row) :
    ∃ ft', upload peer data name cid channelPassword overwrite resume ft = .ok () ft' := by
  obtain ⟨seekpos, hseekpos⟩ := Option.isSome_iff_exists.mp h.seekpos
  obtain ⟨port, hport⟩ := Option.isSome_iff_exists.mp h.port
  obtain ⟨key, hkey⟩ := Option.isSome_iff_exists.mp h.key
  exact ⟨_, upload_eq_ok.mpr ⟨row, seekpos, port, key, hrow, hseekpos, hport, hkey, h.accepts, rfl⟩⟩

theorem unhindered_of_upload {ft' : FileTransfer} (hrow : firstRow peer = some row)
    (h : upload peer data name cid channelPassword overwrite resume ft = .ok () ft') :
    Unhindered ft peer row := by
  obtain ⟨r, seekpos, port, key, hr, hseekpos, hport, hkey, hpeer, _⟩ := upload_eq_ok.mp h
  obtain rfl := Option.some.inj (hrow.symm.trans hr)
  exact ⟨Option.isSome_of_eq_some hseekpos, Option.isSome_of_eq_some hport,
    Option.isSome_of_eq_some hkey, hpeer⟩

/-- the row is refused with its status when `int` accepts it -/
theorem initError_eq {status : Int} (hs : IntField row (lit "status") (-1) status)
    (hint : ∀ text, getItem row (lit "status") = some text → (int text).isSome) :
    ∃ e, initError (lit "ftinitupload") row = .queryError e ∧ e.errorId = status := by
  have hsome : (int ((getItem row (lit "status")).getD (lit "-1"))).isSome := by
    cases hkey : getItem row (lit "status") with
    | none => decide
    | some text => exact hint text hkey
  obtain ⟨i, hi⟩ := Option.isSome_iff_exists.mp hsome
  have he := intField_of_getInt (by decide) hi hs
  refine ⟨_, by unfold initError; rw [hi], ?_⟩
  exact he.symm

/-- an upload without a key raises the status only if `int` accepts it -/
theorem status_of_refused {text : Str} {e : QueryError} {ft' : FileTransfer}
    (hrow : firstRow peer = some row) (hkey : getItem row (lit "ftkey") = none)
    (htext : getItem row (lit "status") = some text)
    (h : upload peer data name cid channelPassword overwrite resume ft
      = .error (.queryError e) ft') : (int text).isSome := by
  rw [upload_of_no_key hrow hkey] at h
  unfold initError at h
  rw [htext, Option.getD_some] at h
  cases hint : int text with
  | some i => rfl
  | none =>
    rw [hint] at h
    cases h

theorem harmless_of_accounts (h : Accounts ft peer data
    (upload peer data name cid channelPassword overwrite resume ft)) : Harmless ft peer data where
  status row text hrow hkey htext hinteger := by
    obtain ⟨status, hstatus⟩ := Option.isSome_iff_exists.mp hinteger
    have hs : IntField row (lit "status") (-1) status := by
      unfold IntField
      rw [htext]
      exact hstatus
    obtain ⟨e, ft', he, _⟩ := (h.refused row hrow hkey).2 status hs
    exact status_of_refused hrow hkey htext he
  seekpos row seekpos hrow hgoes hs := by
    obtain ⟨ft', hft'⟩ : ∃ ft', upload peer data name cid channelPassword overwrite resume ft
        = .ok () ft' := upload_of_unhindered hrow hgoes
    by_contra hout
    exact h.impossible row seekpos hrow hs (by omega) ft' hft'

/-- an upload that returns has sent what is missing after the first `seekpos` bytes -/
theorem written_of_harmless {seekpos : Int} {ft' : FileTransfer} (h : Harmless ft peer data)
    (hrow : firstRow peer = some row) (hs : IntField row (lit "seekpos") 0 seekpos)
    (hok : upload peer data name cid channelPassword overwrite resume ft = .ok () ft') :
    ∃ key payload, keyOf row = some key ∧ ft'.channel.written = key ++ payload ∧
      payload = data.drop seekpos.toNat ∧ data.take seekpos.toNat ++ payload = data ∧
      Announced ft' (seekpos + payload.length) := by
  obtain ⟨hnonneg, hle⟩ := h.seekpos row seekpos hrow (unhindered_of_upload hrow hok) hs
  obtain ⟨r, pos, port, key, hr, hpos, _, hkey, _, rfl⟩ := upload_eq_ok.mp hok
  obtain rfl := Option.some.inj (hrow.symm.trans hr)
  obtain rfl := intField_seekpos hpos hs
  rw [sliceFrom_of_nonneg data hnonneg]
  refine ⟨key, data.drop seekpos.toNat, hkey, rfl, rfl, List.take_append_drop _ _, _,
    List.getLast?_concat, ?_⟩
  have hsize : seekpos + ((data.drop seekpos.toNat).length : Int) = data.length := by
    rw [List.length_drop]
    omega
  rw [hsize]
  rfl

theorem accounts_of_harmless (h : Harmless ft peer data) : Accounts ft peer data
    (upload peer data name cid channelPassword overwrite resume ft) where
  refused row hrow hkey := by
    rw [upload_of_no_key hrow hkey]
    refine ⟨rfl, fun status hs => ?_⟩
    have hint : ∀ text, getItem row (lit "status") = some text → (int text).isSome := by
      intro text htext
      unfold IntField at hs
      rw [htext] at hs
      exact h.status row text hrow hkey htext (Option.isSome_of_eq_some hs)
    obtain ⟨e, he, hid⟩ := initError_eq hs hint
    exact ⟨e, _, by rw [he], hid⟩
  written _ _ _ hrow hs hok := written_of_harmless h hrow hs hok
  impossible row seekpos hrow hs hout ft' hok := by
    have := h.seekpos row seekpos hrow (unhindered_of_upload hrow hok) hs
    omega

/-- **An upload accounts for every byte** exactly when the answer of the server is harmless. -/
theorem upload_accounts_iff (ft : FileTransfer) (peer : Peer) (data : Bytes) (name : Str)
    (cid : Scalar) (channelPassword : Str) (overwrite resume : Bool) :
    Accounts ft peer data (upload peer data name cid channelPassword overwrite resume ft) ↔
      Harmless ft peer data :=
  ⟨harmless_of_accounts, accounts_of_harmless⟩

end

def answerRow (seekpos : String) : Row :=
  [(lit "clientftfid", lit "1"), (lit "ftkey", lit "k"), (lit "port", lit "30033"),
    (lit "seekpos", lit seekpos)]

def uploadAfter (seekpos : String) : EStateM.Result Exn FileTransfer Unit :=
  upload { answer := .rows [answerRow seekpos] } (ascii "abc") (lit "f") (.text (lit "0")) []
    true false { host := lit "h" }

theorem uploadAfter_eq {seekpos : String} {pos : Int}
    (h : seekposOf (answerRow seekpos) = some pos) : ∃ ft', uploadAfter seekpos = .ok () ft' ∧
      ft'.channel.written = ascii "k" ++ sliceFrom (ascii "abc") pos := by
  have hkey : keyOf (answerRow seekpos) = some (ascii "k") := rfl
  have hport : portOf { host := lit "h" } (answerRow seekpos) = some 30033 := by
    show int (lit "30033") = some 30033
    decide
  exact ⟨_, upload_eq_ok.mpr ⟨answerRow seekpos, pos, 30033, ascii "k", rfl, h, hport, hkey,
    ⟨rfl, rfl, fun _ => rfl, rfl, rfl⟩, rfl⟩, rfl⟩

/-- **An upload can lose bytes** and return: with a negative `seekpos`, and with one past the end -/
theorem upload_loses_data :
    (∃ ft', uploadAfter "-1" = .ok () ft' ∧ ft'.channel.written = ascii "kc") ∧
    (∃ ft', uploadAfter "7" = .ok () ft' ∧ ft'.channel.written = ascii "k") ∧
    ∀ seekpos ∈ ["-1", "7"], ¬ Accounts { host := lit "h" } { answer := .rows [answerRow seekpos] }
      (ascii "abc") (uploadAfter seekpos) := by
  have hbefore : seekposOf (answerRow "-1") = some (-1) := by decide
  have hpast : seekposOf (answerRow "7") = some 7 := by decide
  obtain ⟨ft₁, hok₁, hwritten₁⟩ := uploadAfter_eq hbefore
  obtain ⟨ft₂, hok₂, hwritten₂⟩ := uploadAfter_eq hpast
  refine ⟨⟨ft₁, hok₁, hwritten₁⟩, ⟨ft₂, hok₂, hwritten₂⟩, fun seekpos hmem h => ?_⟩
  rcases List.mem_cons.mp hmem with rfl | hmem
  · have hfield : IntField (answerRow "-1") (lit "seekpos") 0 (-1) := by
      show integer (lit "-1") = some (-1)
      decide
    exact h.impossible _ (-1) rfl hfield (Or.inl (by decide)) ft₁ hok₁
  · obtain rfl := List.mem_singleton.mp hmem
    have hfield : IntField (answerRow "7") (lit "seekpos") 0 7 := by
      show integer (lit "7") = some 7
      decide
    exact h.impossible _ 7 rfl hfield (Or.inr (by decide)) ft₂ hok₂

end FileTransfer
end Atsq
