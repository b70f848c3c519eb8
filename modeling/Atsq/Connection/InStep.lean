import Atsq.Connection.Turns

/-!
# Runs in which requests and answers stay in step

The lines take turns, and the peer answers each line it gets, in order (`Served`).

* `InStep`   every line was sent between two answers, as many as lines before it.

Main results: `Move.inStep`, and `InStep.answer`, which finds the answer to a line by its index.
-/

namespace Atsq
open Py

namespace Session

/-- the peer answers the lines it got, one well-formed answer each, and says nothing else but
notifications -/
def Served (v : Session) (line : Bytes) : Prop :=
  isErrorLine line = true ∨ isDataLine line = true →
    (demux v.received).answers.length < v.wire.length ∧
      (isErrorLine line = true → wellFormed line = true)

/-- every line was sent between two answers, as many as lines before it, and at most one line is
unanswered -/
structure InStep (v : Session) : Prop where
  index : v.sent.map Sent.index = List.range v.sent.length
  between : ∀ x ∈ v.sent, (demux (v.received.take x.mark)).answers.length = x.index ∧
    (demux (v.received.take x.mark)).data = []
  order : (demux v.received).answers.length ≤ v.sent.length
  openData : (demux v.received).data ≠ [] →
    (demux v.received).answers.length < v.sent.length
  ahead : v.sent.length ≤ (demux v.received).answers.length + 1

theorem InStep.congr {v w : Session} (h : InStep v) (hw : SameWire v w) : InStep w := by
  refine ⟨by rw [hw.sent]; exact h.index, ?_, ?_, ?_, ?_⟩
  · rw [hw.sent, hw.received]; exact h.between
  · rw [hw.sent, hw.received]; exact h.order
  · rw [hw.sent, hw.received]; exact h.openData
  · rw [hw.sent, hw.received]; exact h.ahead

theorem InStep.index_getLast {v : Session} (h : InStep v) {x : Sent}
    (hx : v.sent.getLast? = some x) : x.index + 1 = v.sent.length := by
  obtain ⟨init, hinit⟩ := List.getLast?_eq_some_iff.mp hx
  have hindex := h.index
  rw [hinit, List.map_append, List.length_append, List.length_singleton, List.range_succ] at hindex
  have := (List.append_inj' hindex rfl).2
  rw [hinit, List.length_append, List.length_singleton]
  simpa using this

/-- if the last line has its terminator, nothing is unanswered -/
theorem InStep.length_answers {v : Session} (h : InStep v)
    (hheard : ∀ x, v.sent.getLast? = some x → v.Heard x) :
    (demux v.received).answers.length = v.sent.length := by
  refine le_antisymm h.order ?_
  cases hx : v.sent.getLast? with
  | none =>
    rw [List.getLast?_eq_none_iff.mp hx]
    exact Nat.zero_le _
  | some x =>
    obtain ⟨l, hmem, hl⟩ := hheard x hx
    have hlt := length_answers_lt hmem hl
    have hindex := h.index_getLast hx
    rw [(h.between x (List.mem_of_getLast? hx)).1] at hlt
    omega

theorem InStep.handOver {v : Session} (h : InStep v) (c : Caller)
    (hheard : ∀ x, v.sent.getLast? = some x → v.Heard x) : InStep (v.handOver c) := by
  have heq := h.length_answers hheard
  have hdata : (demux v.received).data = [] := by
    by_contra hne
    have := h.openData hne
    omega
  have hlen : (v.handOver c).sent.length = v.sent.length + 1 := List.length_append
  have hreceived : (v.handOver c).received = v.received := rfl
  refine ⟨?_, fun x hx => ?_, ?_, ?_, ?_⟩
  · rw [hlen, List.range_succ, ← h.index]
    exact List.map_append
  · rcases List.mem_append.mp hx with hx | hx
    · exact h.between x hx
    · rw [List.mem_singleton.mp hx]
      show (demux (v.received.take v.received.length)).answers.length = v.sent.length ∧
        (demux (v.received.take v.received.length)).data = []
      rw [List.take_length]
      exact ⟨heq, hdata⟩
  · rw [hlen, hreceived, heq]
    exact Nat.le_succ _
  · rw [hreceived]
    exact fun hne => absurd hdata hne
  · rw [hlen, hreceived, heq]

theorem InStep.recv {v : Session} (h : InStep v) (hsingle : v.Single) (line : Bytes)
    (hs : Served v line) (hmarks : ∀ x ∈ v.sent, x.mark ≤ v.received.length) :
    InStep (v.recv line) := by
  suffices hline : InStep { v with received := v.received ++ [line] } from
    hline.congr (sameWire_recv v line).1
  have hbetween : ∀ x ∈ v.sent,
      (demux ((v.received ++ [line]).take x.mark)).answers.length = x.index ∧
        (demux ((v.received ++ [line]).take x.mark)).data = [] := fun x hx => by
    rw [List.take_append_of_le_length (hmarks x hx)]
    exact h.between x hx
  have horder := h.order
  have hahead := h.ahead
  unfold Served at hs
  rw [length_wire hsingle] at hs
  cases hl : isErrorLine line with
  | true =>
    have hlt := (hs (Or.inl hl)).1
    have hd : demux (v.received ++ [line])
        = { answers := (demux v.received).answers ++ [⟨(demux v.received).data, line⟩],
            data := [] } := by
      rw [demux_concat, Demux.take_error _ hl]
    have hcount : (demux (v.received ++ [line])).answers.length
        = (demux v.received).answers.length + 1 := by
      rw [hd]
      exact List.length_append
    refine ⟨h.index, hbetween, ?_, fun hne => absurd (by rw [hd]) hne, ?_⟩
    · exact hcount.le.trans hlt
    · exact (hahead.trans hcount.ge).trans (Nat.le_succ _)
  | false =>
    cases hdl : isDataLine line with
    | true =>
      have hlt := (hs (Or.inr hdl)).1
      have hd : (demux (v.received ++ [line])).answers = (demux v.received).answers := by
        rw [demux_concat, Demux.take_data _ hdl]
      have hcount := congrArg List.length hd
      exact ⟨h.index, hbetween, hcount.le.trans horder, fun _ => lt_of_le_of_lt hcount.le hlt,
        hahead.trans (Nat.succ_le_succ hcount.ge)⟩
    | false =>
      have hd : demux (v.received ++ [line]) = demux v.received := by
        rw [demux_concat, Demux.take_neutral _ hl hdl]
      refine ⟨h.index, hbetween, ?_, ?_, ?_⟩
      · show (demux (v.received ++ [line])).answers.length ≤ _
        rw [hd]; exact horder
      · show (demux (v.received ++ [line])).data ≠ [] →
          (demux (v.received ++ [line])).answers.length < _
        rw [hd]; exact h.openData
      · show _ ≤ (demux (v.received ++ [line])).answers.length + 1
        rw [hd]; exact hahead

/-- **Every move that the policy allows keeps the stream in step.** -/
theorem Move.inStep {cancel : Session → Caller → Prop} {v v' : Session}
    (hm : Move (turnPolicy Served cancel) v v') (hi : Inv v) (hsingle : v.Single) (ht : InTurn v)
    (h : InStep v) : InStep v' := by
  cases hm with
  | handOver c _ _ hclosed hlost hlock _ _ =>
    exact h.handOver c fun x hx => ht.heard_of_free hclosed hlost hlock hx
  | recv line _ hs => exact h.recv hsingle line hs hi.marks
  | shutdown _ => exact h.congr (sameWire_shutdown v).1
  | _ => exact ⟨h.index, h.between, h.order, h.openData, h.ahead⟩

theorem InStep.getElem? {v : Session} (h : InStep v) {x : Sent} (hx : x ∈ v.sent) :
    v.sent[x.index]? = some x := by
  obtain ⟨j, hj⟩ := List.mem_iff_getElem?.mp hx
  have hindex : (v.sent.map Sent.index)[j]? = some x.index := by
    rw [List.getElem?_map, hj]
    rfl
  rw [h.index, List.getElem?_range (List.getElem?_eq_some_iff.mp hj).1] at hindex
  rw [← Option.some.inj hindex]
  exact hj

/-- **The answer to a line** is the one with its index. -/
theorem InStep.answer {v : Session} (h : InStep v) {x : Sent} (hx : x ∈ v.sent)
    {data : List Bytes} {error : ErrorLine} (ha : Answered v.received x.mark data error) :
    ∃ line, (demux v.received).answers[x.index]? = some ⟨data, line⟩ ∧
      parseErrorLine line = .ok error := by
  obtain ⟨hindex, hdata⟩ := h.between x hx
  rw [← hindex]
  exact ha.answer hdata

end Session
end Atsq
