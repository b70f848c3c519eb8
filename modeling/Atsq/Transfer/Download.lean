import Atsq.Transfer.Upload

/-!
# What `download` returns, and the end of the data channel

`download` counts the bytes that it returns.  In both methods the data channel that was opened is
closed at the end, whatever happens on it.
-/

namespace Atsq
open Py Aio

namespace FileTransfer

/-! ## `download` -/

section
variable {peer : Peer} {row : Row} {name : Str} {cid : Scalar} {channelPassword : Str}
  {bytes : Bytes} {ft ft' : FileTransfer}

/-- nothing goes wrong on the data channel until the announced bytes are there -/
structure Delivers (peer : Peer) (size : Int) : Prop where
  connect : peer.connect = .done
  drain : peer.drain = .done
  read : peer.read = .done
  nonneg : 0 ≤ size
  enough : size ≤ peer.sends.length
  waitClosed : peer.waitClosed = .done

theorem readExactly_eq_ok {size : Int} : readExactly peer size ft = .ok bytes ft' ↔
    0 ≤ size ∧ peer.read = .done ∧ size ≤ peer.sends.length ∧
      bytes = peer.sends.take size.toNat ∧ ft' = ft := by
  unfold readExactly
  by_cases hneg : size < 0
  · rw [if_pos hneg]
    refine ⟨nofun, ?_⟩
    rintro ⟨hnonneg, _⟩
    omega
  · rw [if_neg hneg]
    show (await peer.read >>= _) ft = _ ↔ _
    rw [bind_eq_ok]
    constructor
    · rintro ⟨_, s, hawait, h⟩
      obtain ⟨hread, rfl⟩ := await_eq_ok.mp hawait
      split at h
      · rename_i hsize
        cases h
        exact ⟨by omega, hread, hsize, rfl, rfl⟩
      · cases h
    · rintro ⟨_, hread, hsize, rfl, rfl⟩
      refine ⟨(), _, await_eq_ok.mpr ⟨hread, rfl⟩, ?_⟩
      rw [if_pos hsize]
      rfl

theorem receiveFile_eq_ok {size : Int} : receiveFile peer row size ft = .ok bytes ft' ↔
    ∃ key, keyOf row = some key ∧ peer.drain = .done ∧ 0 ≤ size ∧ peer.read = .done ∧
      size ≤ peer.sends.length ∧ bytes = peer.sends.take size.toNat ∧
      ft' = ft.onChannel fun c => { c with written := c.written ++ key } := by
  unfold receiveFile
  rw [item_bind_eq_ok]
  unfold keyOf write
  refine exists_congr fun key => and_congr_right fun _ => ?_
  rw [bind_modify, bind_eq_ok]
  constructor
  · rintro ⟨_, _, hawait, h⟩
    obtain ⟨hdrain, rfl⟩ := await_eq_ok.mp hawait
    exact ⟨hdrain, readExactly_eq_ok.mp h⟩
  · rintro ⟨hdrain, h⟩
    exact ⟨(), _, await_eq_ok.mpr ⟨hdrain, rfl⟩, readExactly_eq_ok.mpr h⟩

def sizeOf (row : Row) : Option Int := (getItem row (lit "size")).bind int

/-- **When `download` returns, and what it returns then.** -/
theorem download_eq_ok : download peer name cid channelPassword ft = .ok bytes ft' ↔
    ∃ row size port key, firstRow peer = some row ∧ sizeOf row = some size ∧
      portOf ft row = some port ∧ keyOf row = some key ∧ Delivers peer size ∧
      bytes = peer.sends.take size.toNat ∧
      ft' = ((ft.requested (lit "ftinitdownload")
        (downloadParams name cid channelPassword)).connected port).onChannel
          fun _ => { written := key, closed := true } := by
  unfold download
  rw [bind_eq_ok]
  simp only [init_eq_ok, item_bind_eq_ok, underTimeout, mapError_eq_ok]
  simp only [bind_eq_ok, openDataChannel_eq_ok, tryFinally_eq_ok, receiveFile_eq_ok,
    closeWriter_eq_ok]
  constructor
  · rintro ⟨row, _, ⟨hrow, _, rfl⟩, size, hsize, _, _, ⟨port, hport, hconnect, rfl⟩, _, _,
      ⟨key, hkey, hdrain, hnonneg, hread, henough, rfl, rfl⟩, hclosed, rfl⟩
    exact ⟨row, size, port, key, hrow, hsize, hport, hkey,
      ⟨hconnect, hdrain, hread, hnonneg, henough, hclosed⟩, rfl, rfl⟩
  · rintro ⟨row, size, port, key, hrow, hsize, hport, hkey, hpeer, rfl, rfl⟩
    exact ⟨row, _, ⟨hrow, ftkey_of_keyOf hkey, rfl⟩, size, hsize, (), _,
      ⟨port, hport, hpeer.connect, rfl⟩, (), _,
      ⟨key, hkey, hpeer.drain, hpeer.nonneg, hpeer.read, hpeer.enough, rfl, rfl⟩,
      hpeer.waitClosed, rfl⟩

/-- **A download has the announced size.** -/
theorem download_length (h : download peer name cid channelPassword ft = .ok bytes ft') :
    ∃ row, firstRow peer = some row ∧ sizeOf row = some (bytes.length : Int) := by
  obtain ⟨row, size, _, _, hrow, hsize, _, _, hpeer, rfl, _⟩ := download_eq_ok.mp h
  refine ⟨row, hrow, ?_⟩
  have hlength : ((peer.sends.take size.toNat).length : Int) = size := by
    have h0 := hpeer.nonneg
    have h1 := hpeer.enough
    rw [List.length_take]
    omega
  rw [hlength, hsize]

end

/-! ## the end of the data channel -/

section
variable {α : Type} {peer : Peer} {row : Row}

/-- the data channel is the one from before, or it is closed -/
def Released (channel : DataChannel) (ft : FileTransfer) : Prop :=
  ft.channel = channel ∨ ft.channel.closed = true

variable {channel : DataChannel} {ft : FileTransfer}

theorem final_orRaise {e : Exn} {o : Option α} : final (orRaise e o ft) = ft := by
  cases o <;> rfl

theorem final_dataPort : final (dataPort row ft) = ft := by
  unfold dataPort item
  rw [bind_get]
  cases ft.override with
  | some port => rfl
  | none => exact final_bind (I := (· = ft)) final_orRaise fun _ s h => final_orRaise.trans h

theorem final_init {cmd : Str} {params : Block} :
    final (init peer cmd params ft) = ft.requested cmd params := by
  cases hrow : firstRow peer with
  | none =>
    obtain ⟨e, he⟩ : ∃ e, init peer cmd params ft = .error e (ft.requested cmd params) :=
      init_of_no_row hrow
    rw [he]
    rfl
  | some r =>
    rw [init_of_row hrow]
    split <;> rfl

theorem released_closeWriter : Released channel (final (closeWriter peer ft)) := by
  unfold closeWriter
  rw [bind_modify]
  right
  cases peer.waitClosed <;> rfl

theorem released_openDataChannel {e : Exn} {ft' : FileTransfer} (h : Released channel ft)
    (herror : openDataChannel peer row ft = .error e ft') : Released channel ft' := by
  have hport : final (dataPort row ft) = ft := final_dataPort
  unfold openDataChannel at herror
  cases hdata : dataPort row ft with
  | error e s =>
    rw [hdata] at hport
    rw [bind_of_error hdata] at herror
    cases herror
    cases hport
    exact h
  | ok port s =>
    rw [hdata] at hport
    rw [bind_of_ok hdata, bind_modify] at herror
    cases hport
    cases hconnect : peer.connect with
    | done =>
      rw [hconnect] at herror
      cases herror
    | raises e =>
      rw [hconnect] at herror
      cases herror
      exact h

/-- **What both methods do with the data channel**, whatever they do on it -/
theorem released_channel {x : Coro FileTransfer Exn α} (h : Released channel ft) :
    Released channel (final (underTimeout (openDataChannel peer row >>= fun _ =>
      tryFinally x (closeWriter peer)) ft)) := by
  unfold underTimeout
  rw [final_mapError]
  cases hopen : openDataChannel peer row ft with
  | ok u s =>
    rw [bind_of_ok hopen, final_tryFinally]
    exact released_closeWriter
  | error e s =>
    rw [bind_of_error hopen]
    exact released_openDataChannel h hopen

theorem released_upload {data : Bytes} {name : Str} {cid : Scalar} {channelPassword : Str}
    {overwrite resume : Bool} : Released ft.channel
      (final (upload peer data name cid channelPassword overwrite resume ft)) := by
  unfold upload
  refine final_bind ?_ fun row s h => final_bind ?_ fun _ s h => released_channel h
  · rw [final_init]
    exact Or.inl rfl
  · unfold getInt
    rw [final_orRaise]
    exact h

theorem released_download {name : Str} {cid : Scalar} {channelPassword : Str} :
    Released ft.channel (final (download peer name cid channelPassword ft)) := by
  unfold download item
  refine final_bind ?_ fun row s h => final_bind ?_ fun _ s h => final_bind ?_ fun _ s h =>
    released_channel h
  · rw [final_init]
    exact Or.inl rfl
  · rw [final_orRaise]
    exact h
  · rw [final_orRaise]
    exact h

end

end FileTransfer
end Atsq
