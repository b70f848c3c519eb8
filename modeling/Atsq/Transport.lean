import Atsq.Lib.Text

/-!
# `atsq.transport`: lines over an SSH byte stream

* `SshTransport`   the read buffer, what was written to `stdin`, the closed flag, and whether the
                   SSH connection's own `close()` was called;
* `readLine`       one `read_line` call, against a list of what successive `stdout.read` calls do;
                   the end of the list is the end of file;
* `sendLine`, `close`   the other two methods.

`Reading S t rs` says that the buffer and the chunks to come make up the rest `S` of the stream.
One call takes one line off `S` or finds none (`readLine_spec`), and so the calls return the lines
of `S` one after the other, however `S` was cut (`readCalls_lines`).
-/

namespace Atsq
open Py

/-- `\n` and `\r` -/
def LF : UInt8 := 10
def CR : UInt8 := 13

/-- `LINE_TERMINATOR`, newline first -/
def lineTerminator : Bytes := [LF, CR]

structure SshTransport where
  buffer : Bytes := []
  written : Bytes := []
  closed : Bool := false
  connClosed : Bool := false
deriving DecidableEq

/-- what one `await stdout.read(n)` does -/
inductive Read where
  | chunk (b : Bytes)
  /-- `ConnectionLost` -/
  | lost
  /-- any other `Exception` -/
  | error
  | cancel
deriving DecidableEq

/-- how a `read_line` call ends; `error` is the exception of `stdout.read` -/
inductive ReadResult where
  | line (b : Bytes)
  | connectionClosed
  | error
  | cancelled
deriving DecidableEq

namespace SshTransport

/-- the first complete line of the buffer, and the buffer without it -/
def takeLine (buffer : Bytes) : Option (Bytes × Bytes) :=
  match partition LF buffer with
  | (line, true, rest) => some (strip CR line, rest)
  | (_, false, _) => none

def readLine (t : SshTransport) (reads : List Read) : ReadResult × SshTransport × List Read :=
  match takeLine t.buffer with
  | some (line, rest) => (.line line, { t with buffer := rest }, reads)
  | none =>
    if t.closed then (.connectionClosed, t, reads)
    else
      match reads with
      | [] => (.connectionClosed, { t with closed := true }, [])
      | .lost :: reads => (.connectionClosed, { t with closed := true }, reads)
      | .error :: reads => (.error, t, reads)
      | .cancel :: reads => (.cancelled, t, reads)
      | .chunk b :: reads =>
        if b = [] then (.connectionClosed, { t with closed := true }, reads)
        else readLine { t with buffer := t.buffer ++ b } reads

def readCalls : Nat → SshTransport → List Read → List ReadResult
  | 0, _, _ => []
  | k + 1, t, reads =>
    let (r, t', reads') := t.readLine reads
    r :: readCalls k t' reads'

/-- `send_line`: nothing when it raises; a write or a drain that fails with one of the errors that
it catches marks the transport closed, see `sendFailed` -/
def sendLine (t : SshTransport) (data : Bytes) : Option SshTransport :=
  if t.closed then none else some { t with written := t.written ++ (data ++ lineTerminator) }

def sendFailed (t : SshTransport) : SshTransport := { t with closed := true }

/-- `close` up to `await wait_closed()`, whose errors are suppressed -/
def close (t : SshTransport) : SshTransport :=
  if t.closed then t else { t with closed := true, connClosed := true }

/-! ## the lines of a stream -/

/-- the pieces of the stream that end with a newline, without it and without the CRs around them -/
def linesOf (S : Bytes) : List Bytes := (S.splitOn LF).dropLast.map (strip CR)

theorem splitOn_cons_sep (S : Bytes) (line rest : Bytes) (h : LF ∉ line)
    (hS : S = line ++ LF :: rest) : S.splitOn LF = line :: rest.splitOn LF := by
  rw [hS, List.splitOn_append_cons_self, List.splitOn_eq_singleton h]
  rfl

theorem linesOf_append_LF (S rest : Bytes) :
    linesOf (S ++ LF :: rest) = (S.splitOn LF).map (strip CR) ++ linesOf rest := by
  unfold linesOf
  rw [List.splitOn_append_cons_self,
    List.dropLast_append_of_ne_nil (List.splitOn_ne_nil LF rest), List.map_append]

theorem linesOf_append (line rest : Bytes) (h : LF ∉ line) :
    linesOf (line ++ LF :: rest) = strip CR line :: linesOf rest := by
  rw [linesOf_append_LF, List.splitOn_eq_singleton h]
  rfl

theorem linesOf_of_notMem (S : Bytes) (h : LF ∉ S) : linesOf S = [] := by
  unfold linesOf
  rw [List.splitOn_eq_singleton h]
  rfl

theorem linesOf_ne_nil {S : Bytes} (h : LF ∈ S) : linesOf S ≠ [] := by
  obtain ⟨line, rest, rfl, hn⟩ := List.eq_append_cons_of_mem h
  rw [linesOf_append line rest hn]
  exact List.cons_ne_nil _ _

/-- the CR of a terminator stands before the next line, and is stripped there -/
theorem linesOf_cons_CR (S : Bytes) : linesOf (CR :: S) = linesOf S := by
  by_cases h : LF ∈ S
  · obtain ⟨line, rest, rfl, hn⟩ := List.eq_append_cons_of_mem h
    have hn' : LF ∉ CR :: line := List.not_mem_cons_of_ne_of_not_mem (by decide) hn
    rw [← List.cons_append, linesOf_append _ _ hn', linesOf_append _ _ hn, strip_cons_self]
  · have h' : LF ∉ CR :: S := List.not_mem_cons_of_ne_of_not_mem (by decide) h
    rw [linesOf_of_notMem S h, linesOf_of_notMem _ h']

theorem partition_cases (b : Bytes) :
    (∃ line rest, LF ∉ line ∧ b = line ++ LF :: rest ∧ partition LF b = (line, true, rest)) ∨
    (LF ∉ b ∧ partition LF b = (b, false, [])) := by
  by_cases h : LF ∈ b
  · left
    obtain ⟨line, rest, hb, hn⟩ := List.eq_append_cons_of_mem h
    exact ⟨line, rest, hn, hb, by rw [hb, partition_append _ _ _ hn]⟩
  · exact Or.inr ⟨h, partition_of_notMem _ _ h⟩

theorem takeLine_cases (b : Bytes) :
    (∃ line rest, LF ∉ line ∧ b = line ++ LF :: rest ∧ takeLine b = some (strip CR line, rest)) ∨
    (LF ∉ b ∧ takeLine b = none) := by
  rcases partition_cases b with ⟨line, rest, hn, hb, hp⟩ | ⟨hn, hp⟩
  · exact Or.inl ⟨line, rest, hn, hb, by unfold takeLine; rw [hp]⟩
  · exact Or.inr ⟨hn, by unfold takeLine; rw [hp]⟩

/-! ## reading -/

def bytesOf (reads : List Read) : Bytes :=
  reads.flatMap fun
    | .chunk b => b
    | _ => []

def cancels (reads : List Read) : Nat := reads.count .cancel

/-- a stream cut into non-empty chunks, with cancellations in between -/
def Cut (reads : List Read) : Prop := ∀ r ∈ reads, r ≠ .lost ∧ r ≠ .error ∧ r ≠ .chunk []

theorem Cut.tail {r : Read} {reads : List Read} (h : Cut (r :: reads)) : Cut reads :=
  fun x hx => h x (List.mem_cons_of_mem _ hx)

theorem cut_chunks {chunks : List Bytes} (h : ∀ c ∈ chunks, c ≠ []) :
    Cut (chunks.map Read.chunk) := by
  intro r hr
  obtain ⟨c, hc, rfl⟩ := List.mem_map.mp hr
  exact ⟨by simp, by simp, fun e => h c hc (Read.chunk.inj e)⟩

/-- the buffer and the reads to come make up the rest of the stream; a closed transport has no
reads to come -/
structure Reading (S : Bytes) (t : SshTransport) (reads : List Read) : Prop where
  cut : Cut reads
  stream : t.buffer ++ bytesOf reads = S
  closed : t.closed = true → reads = []

/-- one call: it returns the first line of the stream and leaves the rest, or raises because there
is no line left, or is cancelled and leaves the stream as it was -/
theorem readLine_spec (reads : List Read) (S : Bytes) (t : SshTransport) (h : Reading S t reads) :
    ∃ r t' reads', t.readLine reads = (r, t', reads') ∧
      ((∃ line rest, r = .line (strip CR line) ∧ LF ∉ line ∧ S = line ++ LF :: rest ∧
          Reading rest t' reads' ∧ cancels reads' = cancels reads) ∨
        (r = .connectionClosed ∧ LF ∉ S ∧ Reading S t' reads' ∧ cancels reads' = cancels reads) ∨
        (r = .cancelled ∧ Reading S t' reads' ∧ cancels reads = cancels reads' + 1)) := by
  induction reads generalizing t with
  | nil =>
    have hS : t.buffer = S := by simpa [bytesOf] using h.stream
    rcases takeLine_cases t.buffer with ⟨line, rest, hn, hb, hp⟩ | ⟨hn, hp⟩
    · refine ⟨_, _, _, by rw [readLine, hp], Or.inl ⟨line, rest, rfl, hn, hS ▸ hb, ?_, rfl⟩⟩
      exact ⟨h.cut, by simp [bytesOf], fun _ => rfl⟩
    · by_cases hc : t.closed = true
      · have hread : t.readLine [] = (.connectionClosed, t, []) := by
          rw [readLine, hp]
          exact if_pos hc
        exact ⟨_, _, _, hread, Or.inr (Or.inl ⟨rfl, hS ▸ hn, h, rfl⟩)⟩
      · have hread : t.readLine [] = (.connectionClosed, { t with closed := true }, []) := by
          rw [readLine, hp]
          exact if_neg hc
        refine ⟨_, _, _, hread, Or.inr (Or.inl ⟨rfl, hS ▸ hn, ?_, rfl⟩)⟩
        exact ⟨h.cut, h.stream, fun _ => rfl⟩
  | cons r reads ih =>
    rcases takeLine_cases t.buffer with ⟨line, rest, hn, hb, hp⟩ | ⟨hn, hp⟩
    · refine ⟨.line (strip CR line), { t with buffer := rest }, r :: reads,
        by rw [readLine.eq_def, hp], Or.inl ⟨line, rest ++ bytesOf (r :: reads), rfl, hn, ?_,
          ⟨h.cut, rfl, h.closed⟩, rfl⟩⟩
      rw [← h.stream, hb, List.append_assoc, List.cons_append]
    · have hc : ¬ t.closed = true := fun hc => List.cons_ne_nil _ _ (h.closed hc)
      have hr := h.cut r List.mem_cons_self
      cases r with
      | lost => exact absurd rfl hr.1
      | error => exact absurd rfl hr.2.1
      | cancel =>
        refine ⟨_, _, _, by rw [readLine, hp]; exact if_neg hc,
          Or.inr (Or.inr ⟨rfl, ⟨h.cut.tail, ?_, fun e => absurd e hc⟩, ?_⟩)⟩
        · rw [← h.stream]
          rfl
        · exact List.count_cons_self
      | chunk b =>
        have hne : b ≠ [] := fun e => hr.2.2 (by rw [e])
        have hstep : t.readLine (.chunk b :: reads)
            = readLine { t with buffer := t.buffer ++ b } reads := by
          rw [readLine, hp]
          show (if _ then _ else if _ then _ else _) = _
          rw [if_neg hc, if_neg hne]
        have hcount : cancels (.chunk b :: reads) = cancels reads :=
          List.count_cons_of_ne (by simp)
        rw [hstep, hcount]
        refine ih _ ⟨h.cut.tail, ?_, fun e => absurd e hc⟩
        rw [← h.stream, List.append_assoc]
        rfl

def answered (rs : List ReadResult) : List ReadResult := rs.filter (· ≠ .cancelled)

theorem length_readCalls (k : Nat) (t : SshTransport) (reads : List Read) :
    (readCalls k t reads).length = k := by
  induction k generalizing t reads with
  | zero => rfl
  | succ k ih => rw [readCalls, List.length_cons, ih]

/-- **The calls that are not cancelled return the lines of the stream in order and raise from then
on**, and a cancellation cancels one call. -/
theorem readCalls_lines (k : Nat) (S : Bytes) (t : SshTransport) (reads : List Read)
    (h : Reading S t reads) :
    answered (readCalls k t reads) <+: (linesOf S).map .line ++ List.replicate k .connectionClosed ∧
      k ≤ (answered (readCalls k t reads)).length + cancels reads := by
  induction k generalizing S t reads with
  | zero => exact ⟨List.nil_prefix, Nat.zero_le _⟩
  | succ k ih =>
    have grow : ∀ l : List ReadResult, l ++ List.replicate k .connectionClosed
        <+: l ++ List.replicate (k + 1) .connectionClosed := fun l => by
      rw [List.replicate_succ', ← List.append_assoc]
      exact List.prefix_append _ _
    obtain ⟨r, t', reads', hstep, hr⟩ := readLine_spec reads S t h
    have hcalls : readCalls (k + 1) t reads = r :: readCalls k t' reads' := by
      rw [readCalls, hstep]
    rw [hcalls]
    rcases hr with ⟨line, rest, rfl, hn, rfl, h', hk⟩ | ⟨rfl, hn, h', hk⟩ | ⟨rfl, h', hk⟩
    · obtain ⟨h1, h2⟩ := ih rest t' reads' h'
      rw [linesOf_append line rest hn]
      refine ⟨?_, ?_⟩
      · exact (List.prefix_cons_inj _).mpr (h1.trans (grow _))
      · show k + 1 ≤ (answered (readCalls k t' reads')).length + 1 + cancels reads
        omega
    · obtain ⟨h1, h2⟩ := ih S t' reads' h'
      rw [linesOf_of_notMem S hn] at h1 ⊢
      refine ⟨?_, ?_⟩
      · show _ <+: List.replicate (k + 1) _
        rw [List.replicate_succ]
        exact (List.prefix_cons_inj _).mpr h1
      · show k + 1 ≤ (answered (readCalls k t' reads')).length + 1 + cancels reads
        omega
    · obtain ⟨h1, h2⟩ := ih S t' reads' h'
      refine ⟨h1.trans (grow _), ?_⟩
      show k + 1 ≤ (answered (readCalls k t' reads')).length + cancels reads
      omega

/-! ## what `send_line` writes -/

def sendLines (t : SshTransport) (lines : List Bytes) : Option SshTransport :=
  lines.foldlM sendLine t

theorem sendLines_written (t : SshTransport) (lines : List Bytes) (h : t.closed = false) :
    sendLines t lines = some { t with
      written := t.written ++ lines.flatMap fun l => l ++ lineTerminator } := by
  induction lines generalizing t with
  | nil => simp [sendLines]
  | cons l lines ih =>
    have hs : t.sendLine l = some { t with written := t.written ++ (l ++ lineTerminator) } := by
      unfold sendLine
      rw [h]
      rfl
    show (t.sendLine l).bind (fun t => sendLines t lines) = _
    rw [hs, Option.bind_some]
    refine (ih { t with written := t.written ++ (l ++ lineTerminator) } h).trans ?_
    rw [List.flatMap_cons, List.append_assoc]

/-- a line that the framing does not touch -/
def PlainLine (l : Bytes) : Prop := LF ∉ l ∧ l.head? ≠ some CR ∧ l.getLast? ≠ some CR

theorem linesOf_terminated_append (data rest : Bytes) :
    linesOf (data ++ lineTerminator ++ rest)
      = linesOf (data ++ lineTerminator) ++ linesOf rest := by
  have hsplit : data ++ lineTerminator ++ rest = data ++ LF :: CR :: rest := by
    simp [lineTerminator]
  rw [hsplit, show data ++ lineTerminator = data ++ LF :: [CR] from rfl, linesOf_append_LF,
    linesOf_append_LF, linesOf_cons_CR, linesOf_cons_CR, List.append_assoc]
  rfl

/-- **A peer reads the lines of each call of `send_line`**, one call after the other. -/
theorem linesOf_sent (sent : List Bytes) :
    linesOf (sent.flatMap fun data => data ++ lineTerminator)
      = sent.flatMap fun data => linesOf (data ++ lineTerminator) := by
  induction sent with
  | nil => rfl
  | cons data sent ih =>
    rw [List.flatMap_cons, List.flatMap_cons, linesOf_terminated_append, ih]

theorem PlainLine.linesOf {l : Bytes} (h : PlainLine l) :
    linesOf (l ++ lineTerminator) = [l] := by
  rw [show l ++ lineTerminator = l ++ LF :: [CR] from rfl, linesOf_append _ _ h.1,
    strip_of_ends CR l h.2.1 h.2.2]
  rfl

theorem linesOf_sent_plain (lines : List Bytes) (h : ∀ l ∈ lines, PlainLine l) :
    linesOf (lines.flatMap fun l => l ++ lineTerminator) = lines := by
  rw [linesOf_sent]
  induction lines with
  | nil => rfl
  | cons l lines ih =>
    rw [List.flatMap_cons, (h l List.mem_cons_self).linesOf,
      ih fun l hl => h l (List.mem_cons_of_mem _ hl)]
    rfl

/-- **Framing does not depend on chunking.**  However a stream is cut, and wherever calls are
cancelled, the other calls return its lines in order and then raise; without cancellations that is
what every call does; and lines sent by `send_line` are read back. -/
theorem framing_chunk_independent :
    (∀ (reads : List Read) (k : Nat), Cut reads →
      let rs := answered (readCalls k {} reads)
      rs <+: (linesOf (bytesOf reads)).map ReadResult.line
          ++ List.replicate k ReadResult.connectionClosed ∧
        k ≤ rs.length + cancels reads) ∧
    (∀ (chunks : List Bytes) (k : Nat), (∀ c ∈ chunks, c ≠ []) →
      readCalls k {} (chunks.map Read.chunk)
        = ((linesOf chunks.flatten).map ReadResult.line
            ++ List.replicate k ReadResult.connectionClosed).take k) ∧
    (∀ (lines chunks : List Bytes) (t : SshTransport) (k : Nat),
      (∀ l ∈ lines, PlainLine l) → sendLines {} lines = some t → (∀ c ∈ chunks, c ≠ []) →
      chunks.flatten = t.written →
      readCalls k {} (chunks.map Read.chunk)
        = (lines.map ReadResult.line ++ List.replicate k ReadResult.connectionClosed).take k) := by
  have first : ∀ (reads : List Read) (k : Nat), Cut reads →
      answered (readCalls k {} reads)
          <+: (linesOf (bytesOf reads)).map ReadResult.line
            ++ List.replicate k ReadResult.connectionClosed ∧
        k ≤ (answered (readCalls k {} reads)).length + cancels reads := fun reads k h =>
    readCalls_lines k (bytesOf reads) {} reads ⟨h, rfl, fun e => by cases e⟩
  have second : ∀ (chunks : List Bytes) (k : Nat), (∀ c ∈ chunks, c ≠ []) →
      readCalls k {} (chunks.map Read.chunk)
        = ((linesOf chunks.flatten).map ReadResult.line
            ++ List.replicate k ReadResult.connectionClosed).take k := by
    intro chunks k h
    have hbytes : bytesOf (chunks.map Read.chunk) = chunks.flatten := by
      unfold bytesOf
      rw [List.flatMap_map, List.flatMap_id']
    have hcancels : cancels (chunks.map Read.chunk) = 0 :=
      List.count_eq_zero.mpr (by simp)
    obtain ⟨h1, h2⟩ := first (chunks.map Read.chunk) k (cut_chunks h)
    rw [hcancels, Nat.add_zero] at h2
    -- no call was cancelled, so that every result is an answer
    have hall : answered (readCalls k {} (chunks.map Read.chunk))
        = readCalls k {} (chunks.map Read.chunk) :=
      List.filter_sublist.eq_of_length_le (by rw [length_readCalls]; exact h2)
    rw [hall, hbytes] at h1
    rw [List.prefix_iff_eq_take.mp h1, length_readCalls]
  refine ⟨first, second, fun lines chunks t k hl ht hc hw => ?_⟩
  rw [sendLines_written {} lines rfl] at ht
  cases ht
  rw [second chunks k hc, hw]
  rw [List.nil_append, linesOf_sent_plain lines hl]

/-- two lines, cut between the newline and the CR of a terminator; then with a cancelled call too -/
theorem framing_chunk_independent_cut :
    (readCalls 3 {} [.chunk (ascii "a=1\n"), .chunk (ascii "\rb=2\n"), .chunk [CR]]
      = [.line (ascii "a=1"), .line (ascii "b=2"), .connectionClosed]) ∧
    (answered (readCalls 3 {}
        [.chunk (ascii "a=1\n"), .cancel, .chunk (ascii "\rb=2\n"), .chunk [CR]])
      <+: [.line (ascii "a=1"), .line (ascii "b=2"), .connectionClosed, .connectionClosed,
        .connectionClosed]) := by
  obtain ⟨hcancelled, _, hsent⟩ := framing_chunk_independent
  refine ⟨?_, ?_⟩
  · have hplain : ∀ l ∈ [ascii "a=1", ascii "b=2"], PlainLine l := by
      simp only [List.forall_mem_cons, PlainLine]
      decide
    exact hsent [ascii "a=1", ascii "b=2"] [ascii "a=1\n", ascii "\rb=2\n", [CR]] _ 3 hplain rfl
      (by decide) (by decide)
  · have hcut : Cut [.chunk (ascii "a=1\n"), .cancel, .chunk (ascii "\rb=2\n"), .chunk [CR]] := by
      unfold Cut
      decide
    have hlines : linesOf (bytesOf
        [.chunk (ascii "a=1\n"), .cancel, .chunk (ascii "\rb=2\n"), .chunk [CR]])
        = [ascii "a=1", ascii "b=2"] := by decide +kernel
    have hprefix := (hcancelled _ 3 hcut).1
    rw [hlines] at hprefix
    exact hprefix

end SshTransport
end Atsq
