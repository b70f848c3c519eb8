import Atsq.Protocol.Parse

/-!
# The answers in a stream of received lines

What a server says, with notifications and blank lines left out: answers, each of them data lines
and the terminator that closes them, and the data lines of an answer that is still open.

* `demux received`    the answers so far and the open data lines;
* `Answered received mark data error`   the first terminator at or after position `mark` carries
                      `error`, and `data` are the data lines since the terminator before it.

Main result: `Answered.answer`, when the stream is between two answers at `mark`, `data` and the
terminator are the next answer.
-/

namespace Atsq
open Py

structure Answer where
  data : List Bytes
  terminator : Bytes
deriving DecidableEq

structure Demux where
  answers : List Answer := []
  data : List Bytes := []
deriving DecidableEq

def Demux.take (d : Demux) (line : Bytes) : Demux :=
  if isErrorLine line then { answers := d.answers ++ [⟨d.data, line⟩], data := [] }
  else if isDataLine line then { d with data := d.data ++ [line] }
  else d

def Demux.takeAll (d : Demux) (lines : List Bytes) : Demux := lines.foldl Demux.take d

def demux (received : List Bytes) : Demux := Demux.takeAll {} received

theorem Demux.takeAll_cons (d : Demux) (l : Bytes) (ls : List Bytes) :
    d.takeAll (l :: ls) = (d.take l).takeAll ls := rfl
theorem Demux.takeAll_append (d : Demux) (a b : List Bytes) :
    d.takeAll (a ++ b) = (d.takeAll a).takeAll b := List.foldl_append
theorem demux_append (a b : List Bytes) : demux (a ++ b) = (demux a).takeAll b :=
  Demux.takeAll_append {} a b
theorem demux_concat (a : List Bytes) (l : Bytes) : demux (a ++ [l]) = (demux a).take l :=
  demux_append a [l]

/-! ## one line -/

theorem Demux.take_error (d : Demux) {line : Bytes} (h : isErrorLine line = true) :
    d.take line = { answers := d.answers ++ [⟨d.data, line⟩], data := [] } := if_pos h

theorem isErrorLine_of_isDataLine {line : Bytes} (h : isDataLine line = true) :
    isErrorLine line = false := by
  unfold isDataLine at h
  rw [Bool.and_eq_true, Bool.not_eq_true'] at h
  exact h.2

theorem Demux.take_data (d : Demux) {line : Bytes} (h : isDataLine line = true) :
    d.take line = { d with data := d.data ++ [line] } := by
  unfold Demux.take
  rw [isErrorLine_of_isDataLine h, if_neg (by decide), if_pos h]

theorem Demux.take_neutral (d : Demux) {line : Bytes} (h : isErrorLine line = false)
    (h' : isDataLine line = false) : d.take line = d := by
  unfold Demux.take
  rw [h, h', if_neg (by decide), if_neg (by decide)]

/-! ## an answer in the making -/

theorem Demux.takeAll_fresh (d : Demux) (fresh : List Bytes)
    (h : ∀ l ∈ fresh, isErrorLine l = false) :
    d.takeAll fresh = { d with data := d.data ++ fresh.filter isDataLine } := by
  induction fresh generalizing d with
  | nil => show d = { d with data := d.data ++ [] }; rw [List.append_nil]
  | cons l ls ih =>
    have hl := h l List.mem_cons_self
    rw [Demux.takeAll_cons, ih _ fun x hx => h x (List.mem_cons_of_mem _ hx)]
    cases hd : isDataLine l with
    | true => rw [Demux.take_data d hd, List.filter_cons_of_pos hd]; simp
    | false => rw [Demux.take_neutral d hl hd, List.filter_cons_of_neg (by rw [hd]; decide)]

theorem Demux.answers_takeAll (d : Demux) (lines : List Bytes) :
    d.answers <+: (d.takeAll lines).answers := by
  induction lines generalizing d with
  | nil => exact List.prefix_rfl
  | cons l ls ih =>
    refine List.IsPrefix.trans ?_ (ih (d.take l))
    unfold Demux.take
    split
    · exact List.prefix_append _ _
    · split <;> exact List.prefix_rfl

theorem Demux.conserved (d : Demux) (lines : List Bytes) :
    (d.takeAll lines).answers.flatMap Answer.data ++ (d.takeAll lines).data
      = d.answers.flatMap Answer.data ++ d.data ++ lines.filter isDataLine := by
  induction lines generalizing d with
  | nil => exact (List.append_nil _).symm
  | cons l ls ih =>
    rw [Demux.takeAll_cons, ih]
    cases hl : isErrorLine l with
    | true =>
      have hd : isDataLine l = false := by
        cases hd : isDataLine l with
        | false => rfl
        | true => rw [isErrorLine_of_isDataLine hd] at hl; cases hl
      rw [Demux.take_error d hl, List.filter_cons_of_neg (by rw [hd]; decide)]
      simp [List.flatMap_append]
    | false =>
      cases hd : isDataLine l with
      | true => rw [Demux.take_data d hd, List.filter_cons_of_pos hd]; simp
      | false => rw [Demux.take_neutral d hl hd, List.filter_cons_of_neg (by rw [hd]; decide)]

theorem Demux.length_answers (d : Demux) (lines : List Bytes) :
    (d.takeAll lines).answers.length = d.answers.length + lines.countP isErrorLine := by
  induction lines generalizing d with
  | nil => rfl
  | cons l ls ih =>
    rw [Demux.takeAll_cons, ih]
    cases hl : isErrorLine l with
    | true =>
      rw [Demux.take_error d hl, List.countP_cons_of_pos hl, List.length_append,
        List.length_singleton]
      omega
    | false =>
      have hlen : (d.take l).answers.length = d.answers.length := by
        unfold Demux.take
        rw [hl, if_neg (by decide)]
        split <;> rfl
      rw [List.countP_cons_of_neg (by rw [hl]; decide), hlen]

/-- a data line, the lines up to the next terminator, and that terminator -/
theorem Demux.answer_of_data (d : Demux) (a : List Bytes) (l : Bytes) (fresh : List Bytes)
    (line : Bytes) (rest : List Bytes) (hl : isDataLine l = true)
    (hf : ∀ x ∈ fresh, isErrorLine x = false) (he : isErrorLine line = true) :
    (d.takeAll (a ++ l :: (fresh ++ line :: rest))).answers[(d.takeAll a).answers.length]?
      = some ⟨(d.takeAll a).data ++ l :: fresh.filter isDataLine, line⟩ := by
  have hsplit : d.takeAll (a ++ l :: (fresh ++ line :: rest))
      = ((((d.takeAll a).take l).takeAll fresh).take line).takeAll rest := by
    rw [Demux.takeAll_append, Demux.takeAll_cons, Demux.takeAll_append, Demux.takeAll_cons]
  rw [Demux.take_data _ hl, Demux.takeAll_fresh _ _ hf, Demux.take_error _ he,
    List.append_assoc, List.singleton_append] at hsplit
  obtain ⟨more, hmore⟩ := Demux.answers_takeAll _ rest
  rw [hsplit, ← hmore, List.append_assoc, List.getElem?_append_right (Nat.le_refl _), Nat.sub_self]
  rfl

/-- the first terminator at or after `mark` is well formed and carries `error`; `data` are the data
lines before it, back to the terminator before -/
def Answered (received : List Bytes) (mark : Nat) (data : List Bytes) (error : ErrorLine) : Prop :=
  ∃ fresh line rest, received.drop mark = fresh ++ line :: rest ∧
    (∀ l ∈ fresh, isErrorLine l = false) ∧ isErrorLine line = true ∧
    parseErrorLine line = .ok error ∧
    data = (demux (received.take mark)).data ++ fresh.filter isDataLine

/-- no terminator at or after `mark` -/
def Unanswered (received : List Bytes) (mark : Nat) : Prop :=
  ∀ l ∈ received.drop mark, isErrorLine l = false

theorem Answered.append {received : List Bytes} {mark : Nat} {data : List Bytes}
    {error : ErrorLine} (h : Answered received mark data error) (hm : mark ≤ received.length)
    (more : List Bytes) : Answered (received ++ more) mark data error := by
  obtain ⟨fresh, line, rest, hd, hf, hl, hp, hdata⟩ := h
  refine ⟨fresh, line, rest ++ more, ?_, hf, hl, hp, ?_⟩
  · rw [List.drop_append_of_le_length hm, hd, List.append_assoc, List.cons_append]
  · rw [List.take_append_of_le_length hm]
    exact hdata

theorem Unanswered.append {received : List Bytes} {mark : Nat} (h : Unanswered received mark)
    (hm : mark ≤ received.length) {line : Bytes} (hl : isErrorLine line = false) :
    Unanswered (received ++ [line]) mark := by
  intro l hmem
  rw [List.drop_append_of_le_length hm, List.mem_append, List.mem_singleton] at hmem
  rcases hmem with hmem | rfl
  · exact h l hmem
  · exact hl

theorem Unanswered.new (received : List Bytes) : Unanswered received received.length := by
  intro l hmem
  rw [List.drop_length] at hmem
  cases hmem

theorem Unanswered.data {received : List Bytes} {mark : Nat} (h : Unanswered received mark) :
    (demux received).data
      = (demux (received.take mark)).data ++ (received.drop mark).filter isDataLine := by
  conv_lhs => rw [← List.take_append_drop mark received, demux_append, Demux.takeAll_fresh _ _ h]

theorem Unanswered.answered {received : List Bytes} {mark : Nat} (h : Unanswered received mark)
    (hm : mark ≤ received.length) {line : Bytes} (hl : isErrorLine line = true)
    {error : ErrorLine} (hp : parseErrorLine line = .ok error) :
    Answered (received ++ [line]) mark (demux received).data error := by
  refine ⟨received.drop mark, line, [], ?_, h, hl, hp, ?_⟩
  · rw [List.drop_append_of_le_length hm]
  · rw [List.take_append_of_le_length hm]
    exact h.data

/-- **The answer at `mark`**: if the stream is between two answers there, the next answer is what
`Answered` says. -/
theorem Answered.answer {received : List Bytes} {mark : Nat} {data : List Bytes}
    {error : ErrorLine} (h : Answered received mark data error)
    (hd : (demux (received.take mark)).data = []) :
    ∃ line, (demux received).answers[(demux (received.take mark)).answers.length]?
        = some ⟨data, line⟩ ∧ parseErrorLine line = .ok error := by
  obtain ⟨fresh, line, rest, hdrop, hf, hl, hp, hdata⟩ := h
  refine ⟨line, ?_, hp⟩
  have hsplit : demux received
      = Demux.takeAll ((demux (received.take mark)).takeAll fresh |>.take line) rest := by
    conv_lhs => rw [← List.take_append_drop mark received, hdrop, demux_append,
      Demux.takeAll_append, Demux.takeAll_cons]
  rw [hd, List.nil_append] at hdata
  rw [Demux.takeAll_fresh _ _ hf, Demux.take_error _ hl, hd, List.nil_append, ← hdata] at hsplit
  obtain ⟨more, hmore⟩ := Demux.answers_takeAll _ rest
  rw [hsplit, ← hmore, List.append_assoc, List.getElem?_append_right (Nat.le_refl _),
    Nat.sub_self]
  rfl

/-- a terminator since `mark` is one more answer -/
theorem length_answers_lt {received : List Bytes} {mark : Nat} {line : Bytes}
    (h : line ∈ received.drop mark) (hl : isErrorLine line = true) :
    (demux (received.take mark)).answers.length < (demux received).answers.length := by
  obtain ⟨a, b, hdrop⟩ := List.append_of_mem h
  have hsplit : demux received
      = (((demux (received.take mark)).takeAll a).take line).takeAll b := by
    conv_lhs => rw [← List.take_append_drop mark received, hdrop, demux_append,
      Demux.takeAll_append, Demux.takeAll_cons]
  have ha := (Demux.answers_takeAll (demux (received.take mark)) a).length_le
  have hb := (Demux.answers_takeAll
    (((demux (received.take mark)).takeAll a).take line) b).length_le
  rw [← hsplit, Demux.take_error _ hl, List.length_append, List.length_singleton] at hb
  omega

/-- and without one there is none -/
theorem Unanswered.answers {received : List Bytes} {mark : Nat}
    (h : Unanswered received mark) :
    (demux received).answers = (demux (received.take mark)).answers := by
  conv_lhs => rw [← List.take_append_drop mark received, demux_append, Demux.takeAll_fresh _ _ h]

theorem Answered.mem_drop {received : List Bytes} {mark : Nat} {data : List Bytes}
    {error : ErrorLine} (h : Answered received mark data error) :
    ∃ line ∈ received.drop mark, isErrorLine line = true := by
  obtain ⟨fresh, line, rest, hdrop, _, hl, _, _⟩ := h
  exact ⟨line, by rw [hdrop]; exact List.mem_append_right _ List.mem_cons_self, hl⟩

end Atsq
