import Atsq.Connection.Frame

/-!
# Demultiplexing is projection

The receive loop reads its lines one by one, and between two of them the rest of the program may do
anything but publish events and touch the data buffer.

* `Pair`              the data lines and the terminator that the loop puts together at a terminator,
                      and whether a pending command takes them or they are dropped;
* `Received s ls ps t`  from `s` the loop has read the lines `ls` and put together `ps`, and the
                      connection is `t` now.

`Received.answers`: what it has put together is what `demux` finds in the lines, whatever the rest
of the program did.  The projections of `projection` are read off from there, and
`exists_received`: every run of a connection is such a reading of its lines.
-/

namespace Atsq
open Py

/-- what the receive loop puts together at a terminator -/
structure Pair where
  data : List Bytes
  error : ErrorLine
  completed : Bool

def Pair.content (p : Pair) : List Bytes × ErrorLine := (p.data, p.error)

def isResponseLine (line : Bytes) : Bool := !line.isEmpty && !isEventLine line

/-- every terminator among the lines carries an integer id, or none -/
def IntIds (lines : List Bytes) : Prop :=
  ∀ l ∈ lines, isErrorLine l = true → wellFormed l = true

namespace Conn

def completes (s : Conn) : Bool :=
  match s.pending with
  | some c => (s.execs c).future == .pending
  | none => false

def paired (s : Conn) (line : Bytes) : List Pair :=
  if isErrorLine line then
    match parseErrorLine line with
    | .ok error => [⟨s.dataBuffer, error, s.completes⟩]
    | .error _ => []
  else []

/-- the rest of the program ran between two lines -/
structure Between (s s' : Conn) : Prop where
  dataBuffer : s'.dataBuffer = s.dataBuffer
  published : s'.published = s.published

inductive Received (s : Conn) : List Bytes → List Pair → Conn → Prop where
  | start : Received s [] [] s
  | other {lines : List Bytes} {pairs : List Pair} {t t' : Conn} :
      Received s lines pairs t → Between t t' → Received s lines pairs t'
  | line {lines : List Bytes} {pairs : List Pair} {t : Conn} (l : Bytes) :
      Received s lines pairs t → Received s (lines ++ [l]) (pairs ++ t.paired l) (t.recvLine l)

/-! ## one line -/

theorem isErrorLine_cases {line : Bytes} (h : isErrorLine line = true → wellFormed line = true) :
    (isErrorLine line = false) ∨
      (isErrorLine line = true ∧ ∃ error, parseErrorLine line = .ok error) := by
  cases he : isErrorLine line with
  | false => exact Or.inl rfl
  | true =>
    have hw := h he
    unfold wellFormed at hw
    cases hp : parseErrorLine line with
    | ok error => exact Or.inr ⟨rfl, error, rfl⟩
    | error e => rw [hp] at hw; cases hw

theorem paired_of_error {s : Conn} {line : Bytes} {error : ErrorLine}
    (h : isErrorLine line = true) (hp : parseErrorLine line = .ok error) :
    s.paired line = [⟨s.dataBuffer, error, s.completes⟩] := by
  unfold paired
  rw [if_pos h, hp]

theorem paired_of_not_error {s : Conn} {line : Bytes} (h : isErrorLine line = false) :
    s.paired line = [] := by
  unfold paired
  rw [h]
  rfl

theorem recvLine_dataBuffer (s : Conn) {line : Bytes}
    (h : isErrorLine line = true → wellFormed line = true) :
    (s.recvLine line).dataBuffer = (Demux.take ⟨[], s.dataBuffer⟩ line).data := by
  have hsession := congrArg Session.dataBuffer (session_recvLine (s := s) line h)
  refine hsession.trans ?_
  unfold Session.recv
  rcases isErrorLine_cases h with herr | ⟨herr, error, hp⟩
  · cases hd : isDataLine line with
    | true =>
      rw [Demux.take_data _ hd, if_neg (by rw [herr]; decide), if_pos rfl]
      rfl
    | false =>
      rw [Demux.take_neutral _ herr hd, if_neg (by rw [herr]; decide), if_neg (by decide)]
      rfl
  · rw [Demux.take_error _ herr, if_pos herr, hp]
    rcases Session.settle_cases
      { s.session with received := s.session.received ++ [line], dataBuffer := [] }
      with ⟨c, _, _, hset⟩ | ⟨_, hset⟩
    · exact congrArg Session.dataBuffer (hset _)
    · exact congrArg Session.dataBuffer (hset _)

theorem published_shutdown (s : Conn) : s.shutdown.published = s.published := by
  cases hc : s.closed with
  | true =>
    unfold shutdown
    rw [if_pos hc]
  | false =>
    have h := congrArg Feed.published (s.shutdown_of_open hc).feed
    refine h.trans ?_
    show s.toFeed.shutdown.published = s.published
    unfold Feed.shutdown
    rw [if_neg (by rw [hc]; decide)]
    rfl

theorem recvLine_published (s : Conn) (line : Bytes) :
    (s.recvLine line).published
      = s.published ++ ([line].filter isEventLine).map Event.fromLine := by
  cases hev : isEventLine line with
  | true =>
    have hne : line ≠ [] := by
      rintro rfl
      cases hev
    unfold recvLine
    simp only [if_neg hne, hev, if_true]
    rw [List.filter_cons_of_pos hev]
    rfl
  | false =>
    rw [List.filter_cons_of_neg (by rw [hev]; decide), List.filter_nil, List.map_nil,
      List.append_nil]
    unfold recvLine
    simp only []
    split
    · rfl
    · rw [hev, if_neg (by decide)]
      split
      · split
        · exact congrArg Feed.published (calm_settle _ _).feed
        · exact published_shutdown { s with received := s.received ++ [line], dataBuffer := [] }
      · rfl

/-! ## what the loop has put together -/

/-- the answers in the lines, the buffer at the start being open -/
def demuxFrom (s : Conn) (lines : List Bytes) : Demux := Demux.takeAll ⟨[], s.dataBuffer⟩ lines

/-- an answer in the stream and the pair of it -/
def PairOf (a : Answer) (p : Pair) : Prop :=
  p.data = a.data ∧ isErrorLine a.terminator = true ∧ parseErrorLine a.terminator = .ok p.error

theorem pairOf_content {as : List Answer} {ps qs : List Pair} (hp : List.Forall₂ PairOf as ps)
    (hq : List.Forall₂ PairOf as qs) : ps.map Pair.content = qs.map Pair.content := by
  induction hp generalizing qs with
  | nil => cases hq; rfl
  | @cons a p as ps h _ ih =>
    cases hq with
    | @cons _ q _ qs h' hq =>
      have herror : p.error = q.error := Except.ok.inj (h.2.2.symm.trans h'.2.2)
      have hcontent : p.content = q.content := Prod.ext (h.1.trans h'.1.symm) herror
      rw [List.map_cons, List.map_cons, hcontent, ih hq]

theorem pairOf_getElem? {as : List Answer} {ps : List Pair} (hp : List.Forall₂ PairOf as ps)
    {i : Nat} {a : Answer} (ha : as[i]? = some a) : ∃ p, ps[i]? = some p ∧ PairOf a p := by
  induction hp generalizing i with
  | nil => cases ha
  | @cons b p as ps h _ ih =>
    cases i with
    | zero =>
      cases ha
      exact ⟨p, rfl, h⟩
    | succ i => exact ih ha

theorem pairOf_data {as : List Answer} {ps : List Pair} (hp : List.Forall₂ PairOf as ps) :
    ps.flatMap Pair.data = as.flatMap Answer.data := by
  induction hp with
  | nil => rfl
  | cons h _ ih => rw [List.flatMap_cons, List.flatMap_cons, h.1, ih]

section
variable {s t : Conn} {lines : List Bytes} {pairs : List Pair}

theorem IntIds.left {a b : List Bytes} (h : IntIds (a ++ b)) : IntIds a :=
  fun l hl => h l (List.mem_append_left _ hl)

/-- **What the loop puts together is what `demux` finds in the lines**, whatever the rest of the
program did between them. -/
theorem Received.answers (h : Received s lines pairs t) (hids : IntIds lines) :
    List.Forall₂ PairOf (s.demuxFrom lines).answers pairs ∧
      t.dataBuffer = (s.demuxFrom lines).data := by
  induction h with
  | start => exact ⟨.nil, rfl⟩
  | other _ hb ih =>
    obtain ⟨h1, h2⟩ := ih hids
    exact ⟨h1, hb.dataBuffer.trans h2⟩
  | @line lines pairs t l _ ih =>
    obtain ⟨h1, h2⟩ := ih (IntIds.left hids)
    have hl : isErrorLine l = true → wellFormed l = true :=
      hids l (List.mem_append_right _ (List.mem_singleton.mpr rfl))
    have htake : s.demuxFrom (lines ++ [l]) = (s.demuxFrom lines).take l :=
      Demux.takeAll_append _ lines [l]
    rw [htake, recvLine_dataBuffer t hl, h2]
    rcases isErrorLine_cases hl with herr | ⟨herr, error, hp⟩
    · rw [paired_of_not_error herr, List.append_nil]
      cases hd : isDataLine l with
      | true =>
        rw [Demux.take_data _ hd, Demux.take_data _ hd]
        exact ⟨h1, rfl⟩
      | false =>
        rw [Demux.take_neutral _ herr hd, Demux.take_neutral _ herr hd]
        exact ⟨h1, rfl⟩
    · rw [paired_of_error herr hp, Demux.take_error _ herr, Demux.take_error _ herr]
      exact ⟨List.rel_append h1 (.cons ⟨h2, herr, hp⟩ .nil), rfl⟩

theorem Received.published (h : Received s lines pairs t) :
    t.published = s.published ++ (lines.filter isEventLine).map Event.fromLine := by
  induction h with
  | start => exact (List.append_nil _).symm
  | other _ hb ih => exact hb.published.trans ih
  | line l _ ih =>
    rw [recvLine_published, ih, List.filter_append, List.map_append, List.append_assoc]

/-! ## blank lines and notifications count for nothing -/

theorem neutral_of_not_response {line : Bytes} (h : isResponseLine line = false) :
    isErrorLine line = false ∧ isDataLine line = false := by
  unfold isResponseLine at h
  cases hev : isEventLine line with
  | true =>
    refine ⟨isErrorLine_of_isEventLine line hev, ?_⟩
    unfold isDataLine
    rw [hev, Bool.not_true, Bool.and_false, Bool.false_and]
  | false =>
    rw [hev, Bool.not_false, Bool.and_true, Bool.not_eq_false', List.isEmpty_iff] at h
    rw [h]
    exact ⟨rfl, rfl⟩

theorem demuxFrom_filter (s : Conn) (lines : List Bytes) :
    s.demuxFrom (lines.filter isResponseLine) = s.demuxFrom lines := by
  have all : ∀ d : Demux, d.takeAll (lines.filter isResponseLine) = d.takeAll lines := by
    induction lines with
    | nil => exact fun _ => rfl
    | cons l ls ih =>
      intro d
      cases h : isResponseLine l with
      | true =>
        rw [List.filter_cons_of_pos h, Demux.takeAll_cons, Demux.takeAll_cons, ih]
      | false =>
        obtain ⟨h1, h2⟩ := neutral_of_not_response h
        rw [List.filter_cons_of_neg (by rw [h]; decide), Demux.takeAll_cons,
          Demux.take_neutral d h1 h2, ih]
  exact all _

theorem Received.filter (h : Received s lines pairs t) (hids : IntIds lines) :
    ∃ t', Received s (lines.filter isResponseLine) pairs t' ∧ t'.dataBuffer = t.dataBuffer := by
  induction h with
  | start => exact ⟨s, .start, rfl⟩
  | other _ hb ih =>
    obtain ⟨t', h1, h2⟩ := ih hids
    exact ⟨t', h1, h2.trans hb.dataBuffer.symm⟩
  | @line lines pairs t l _ ih =>
    obtain ⟨t', h1, h2⟩ := ih (IntIds.left hids)
    have hl : isErrorLine l = true → wellFormed l = true :=
      hids l (List.mem_append_right _ (List.mem_singleton.mpr rfl))
    cases hr : isResponseLine l with
    | false =>
      obtain ⟨herr, hd⟩ := neutral_of_not_response hr
      rw [List.filter_append, List.filter_cons_of_neg (by rw [hr]; decide), List.filter_nil,
        List.append_nil, paired_of_not_error herr, List.append_nil, recvLine_dataBuffer t hl,
        Demux.take_neutral _ herr hd]
      exact ⟨t', h1, h2⟩
    | true =>
      -- the same command is pending in both
      let u : Conn := { t' with pending := t.pending, execs := t.execs }
      have hu : Received s (lines.filter isResponseLine) pairs u := .other h1 ⟨rfl, rfl⟩
      have hbuffer : u.dataBuffer = t.dataBuffer := h2
      have hcompletes : u.completes = t.completes := rfl
      have hpair : u.paired l = t.paired l := by
        unfold paired
        rw [hbuffer, hcompletes]
      refine ⟨u.recvLine l, ?_, ?_⟩
      · rw [List.filter_append, List.filter_cons_of_pos hr, List.filter_nil, ← hpair]
        exact .line l hu
      · rw [recvLine_dataBuffer u hl, recvLine_dataBuffer t hl, hbuffer]

/-! ## data lines -/

theorem Received.conserved (h : Received s lines pairs t) (hids : IntIds lines) :
    pairs.flatMap Pair.data ++ t.dataBuffer = s.dataBuffer ++ lines.filter isDataLine := by
  obtain ⟨h1, h2⟩ := h.answers hids
  rw [pairOf_data h1, h2]
  exact Demux.conserved ⟨[], s.dataBuffer⟩ lines

theorem Received.paired_with (h : Received s lines pairs t) (hids : IntIds lines)
    {a fresh rest : List Bytes} {l line : Bytes}
    (hlines : lines = a ++ l :: (fresh ++ line :: rest))
    (hl : isDataLine l = true) (hf : ∀ x ∈ fresh, isErrorLine x = false)
    (he : isErrorLine line = true) :
    ∃ p before, pairs[a.countP isErrorLine]? = some p ∧
      p.data = before ++ l :: fresh.filter isDataLine ∧ parseErrorLine line = .ok p.error := by
  obtain ⟨h1, _⟩ := h.answers hids
  have hanswer := Demux.answer_of_data ⟨[], s.dataBuffer⟩ a l fresh line rest hl hf he
  rw [Demux.length_answers, List.length_nil, Nat.zero_add, ← hlines] at hanswer
  obtain ⟨p, hp, hdata, _, herror⟩ := pairOf_getElem? h1 hanswer
  exact ⟨p, _, hp, hdata, herror⟩

theorem Received.remains (h : Received s lines pairs t) (hids : IntIds lines)
    {a b : List Bytes} {l : Bytes} (hlines : lines = a ++ l :: b) (hl : isDataLine l = true)
    (hb : ∀ x ∈ b, isErrorLine x = false) :
    ∃ before, t.dataBuffer = before ++ l :: b.filter isDataLine := by
  obtain ⟨_, h2⟩ := h.answers hids
  rw [h2, hlines]
  unfold demuxFrom
  rw [Demux.takeAll_append, Demux.takeAll_cons, Demux.take_data _ hl, Demux.takeAll_fresh _ _ hb,
    List.append_assoc]
  exact ⟨_, rfl⟩

end

/-! ## what becomes of a pair -/

/-- the pair completes the pending command, or it is dropped and no call changes -/
theorem paired_spec {s : Conn} {line : Bytes} {p : Pair} (hp : p ∈ s.paired line) :
    (p.completed = true → ∃ c, s.pending = some c ∧ (s.execs c).future = .pending ∧
      ((s.recvLine line).execs c).future = .result p.data p.error) ∧
    (p.completed = false → (s.recvLine line).execs = s.execs) := by
  unfold paired at hp
  split at hp
  · rename_i herr
    split at hp
    · rename_i error hparse
      rw [List.mem_singleton.mp hp]
      rw [recvLine_error herr hparse]
      unfold completes settle
      cases hpend : s.pending with
      | none => exact ⟨nofun, fun _ => rfl⟩
      | some c =>
        simp only []
        cases hfut : (s.execs c).future with
        | pending =>
          refine ⟨fun _ => ⟨c, rfl, hfut, ?_⟩, nofun⟩
          rw [setExec_self]
        | _ => exact ⟨nofun, fun _ => rfl⟩
    · exact absurd hp List.not_mem_nil
  · exact absurd hp List.not_mem_nil

/-! ## every run is a reading of its lines -/

theorem settle_stream (v : Session) (f : Future) :
    (v.settle f).received = v.received ∧ (v.settle f).dataBuffer = v.dataBuffer := by
  rcases v.settle_cases with ⟨c, _, _, h⟩ | ⟨_, h⟩ <;> rw [h] <;> exact ⟨rfl, rfl⟩

theorem move_stream {P : Policy} (hP : ∀ v l, ¬ P.recv v l) {v v' : Session}
    (hm : Session.Move P v v') : v'.received = v.received ∧ v'.dataBuffer = v.dataBuffer := by
  cases hm with
  | recv line _ h => exact absurd h (hP v line)
  | shutdown _ => exact settle_stream { v with closed := true } .exception
  | _ => exact ⟨rfl, rfl⟩

theorem moves_stream {P : Policy} (hP : ∀ v l, ¬ P.recv v l) {v v' : Session}
    (hm : Session.Moves P v v') : v'.received = v.received ∧ v'.dataBuffer = v.dataBuffer := by
  induction hm with
  | refl => exact ⟨rfl, rfl⟩
  | tail _ hm ih =>
    obtain ⟨h1, h2⟩ := move_stream hP hm
    exact ⟨h1.trans ih.1, h2.trans ih.2⟩

theorem Closing.published {k : Nat} {s s' : Conn} (h : Closing k s s') :
    s'.published = s.published := by
  refine (congrArg Feed.published h.feed).trans ?_
  unfold Feed.shutdown
  rw [if_neg (by rw [h.opened]; decide)]
  rfl

theorem Calm.published {s s' : Conn} (h : Calm s s') : s'.published = s.published :=
  congrArg Feed.published h.feed

theorem published_takeItem (f : Feed) (n : Nat) (x : Item) :
    (f.takeItem n x).published = f.published := by
  cases x with
  | event e => rfl
  | queueClosed =>
    unfold Feed.takeItem
    simp only []
    split <;> rfl

theorem published_get (f : Feed) (n : Nat) (deadline : Option ℚ) :
    (f.get n deadline).published = f.published := by
  unfold Feed.get
  split
  · rfl
  · exact published_takeItem _ n _

theorem published_feed {f f' : Feed} {fa : Feed.Act} (hs : f.step fa = some f')
    (hp : ∀ e, fa ≠ .publish e) (hshut : fa ≠ .shutdown) : f'.published = f.published := by
  cases Feed.step_cases hs with
  | publish e _ => exact absurd rfl (hp e)
  | shutdown _ => exact absurd rfl hshut
  | waitClosed _ _ _ => rfl
  | waitGet _ => exact published_get f _ _
  | giveUp _ _ _ => rfl
  | wake _ _ _ => exact published_get _ _ _
  | expire _ _ => rfl
  | cancel _ => rfl

theorem feedAct_ne_publish {s : Conn} {a : Action} {fa : Feed.Act} (h : s.feedAct a = some fa)
    (e : Event) : fa ≠ .publish e := by
  rintro rfl
  cases a <;> cases h

theorem published_of_not_recv {cfg : Config} {s s' : Conn} {a : Action}
    (hs : s.step cfg a = some s') (ha : ∀ l, a ≠ .recv l) : s'.published = s.published := by
  cases step_cases hs with
  | exec _ => exact (calm_startExec cfg s _ _).published
  | @acquire c drain _ _ _ => exact (calm_execLine cfg s c drain).published
  | resume hr =>
    rcases frame_resume hr with h | ⟨k, _, h⟩
    · exact h.published
    · exact h.published
  | expire _ => rfl
  | expireQuit _ => rfl
  | cancel => rfl
  | feed hfa hf => exact published_feed hf (feedAct_ne_publish hfa) (feedAct_ne_shutdown hfa)
  | @close n io _ =>
    refine (congrArg Feed.published (closerAfter_frame _ n _).1).trans ?_
    rcases (s.setCloser n {}).calm_or_closing_close none io with h | ⟨k, _, h⟩
    · exact h.published
    · exact h.published
  | @resumeClose n io pc r _ hr =>
    exact (congrArg Feed.published (closerAfter_frame r.1 n r.2).1).trans
      (calm_resumeClose hr).published
  | expireClose => rfl
  | cancelClose => rfl
  | keepalive hk => exact congrArg Feed.published (frame_keepalive hk).1
  | @recv line _ => exact absurd rfl (ha line)
  | eof _ => exact published_shutdown s.sendFailed
  | readError _ => exact published_shutdown s
  | recvStop _ => rfl
  | tick _ => rfl

def silentPolicy : Policy := { anyPolicy with recv := fun _ _ => False }

theorem step_between {cfg : Config} {s s' : Conn} {a : Action} (hb : Base s)
    (hs : s.step cfg a = some s') (ha : ∀ l, a ≠ .recv l) :
    s'.received = s.received ∧ Between s s' := by
  have hallowed : Allowed silentPolicy s a :=
    { allowed_any s a with recv := fun l h => (ha l h).elim }
  obtain ⟨h1, h2⟩ := moves_stream (P := silentPolicy) (fun _ _ h => h)
    (step_moves hb.session hb.tasks hallowed hs)
  exact ⟨h1, h2, published_of_not_recv hs ha⟩

theorem recvLine_received (s : Conn) (line : Bytes) :
    (s.recvLine line).received = s.received ++ [line] := by
  have hsettle : ∀ (r : Conn) (f : Future), (r.settle f).received = r.received := fun r f =>
    (congrArg Session.received (session_settle r f)).trans (settle_stream r.session f).1
  have hshut : ∀ r : Conn, r.shutdown.received = r.received := fun r =>
    (moves_stream (P := silentPolicy) (fun _ _ h => h)
      (moves_shutdown (fun _ _ => trivial) r)).1
  unfold recvLine
  simp only []
  split
  · rfl
  · split
    · rfl
    · split
      · split
        · exact hsettle { s with received := s.received ++ [line], dataBuffer := [] } _
        · exact hshut { s with received := s.received ++ [line], dataBuffer := [] }
      · rfl

/-- **Every run of a connection is a reading of the lines it received.** -/
theorem exists_received {cfg : Config} {C : Conn → Action → Prop} {greeting : List Bytes}
    {s : Conn} (h : Sys.Reach (step cfg) C (started cfg greeting) s) :
    ∃ pairs, Received (started cfg greeting) s.received pairs s := by
  induction h with
  | init => exact ⟨[], .start⟩
  | @step s s' a hreach _ hs ih =>
    obtain ⟨pairs, hr⟩ := ih
    by_cases ha : ∃ l, a = .recv l
    · obtain ⟨l, rfl⟩ := ha
      cases step_cases hs with
      | feed hfa _ => cases hfa
      | recv _ =>
        rw [recvLine_received]
        exact ⟨_, .line l hr⟩
    · obtain ⟨h1, h2⟩ := step_between (reach_base hreach) hs (fun l e => ha ⟨l, e⟩)
      rw [h1]
      exact ⟨pairs, .other hr h2⟩

/-- **Demultiplexing is projection.**  Whatever the rest of the program does between the lines, the
loop publishes the notifications in order; its pairs are those of the lines without blank ones and
notifications, under any choices, and can be those under the same choices; no data line is lost; and
each data line is paired with the first terminator after it, or is still in the buffer.  A pair
completes the pending command or changes no call. -/
theorem demultiplexing_is_projection (s t : Conn) (lines : List Bytes) (pairs : List Pair)
    (h : Received s lines pairs t) (hids : IntIds lines) :
    t.published = s.published ++ (lines.filter isEventLine).map Event.fromLine ∧
    (∀ s' t' pairs', s'.dataBuffer = s.dataBuffer →
      Received s' (lines.filter isResponseLine) pairs' t' →
      pairs'.map Pair.content = pairs.map Pair.content ∧ t'.dataBuffer = t.dataBuffer) ∧
    (∃ t', Received s (lines.filter isResponseLine) pairs t') ∧
    pairs.flatMap Pair.data ++ t.dataBuffer = s.dataBuffer ++ lines.filter isDataLine ∧
    (∀ a l b, lines = a ++ l :: b → isDataLine l = true →
      (∀ fresh line rest, b = fresh ++ line :: rest → (∀ x ∈ fresh, isErrorLine x = false) →
        isErrorLine line = true → ∃ p before, pairs[a.countP isErrorLine]? = some p ∧
          p.data = before ++ l :: fresh.filter isDataLine ∧ parseErrorLine line = .ok p.error) ∧
      ((∀ x ∈ b, isErrorLine x = false) →
        ∃ before, t.dataBuffer = before ++ l :: b.filter isDataLine)) ∧
    (∀ u l p, p ∈ paired u l →
      (p.completed = true → ∃ c, u.pending = some c ∧ (u.execs c).future = .pending ∧
        ((u.recvLine l).execs c).future = .result p.data p.error) ∧
      (p.completed = false → (u.recvLine l).execs = u.execs)) := by
  refine ⟨h.published, fun s' t' pairs' hbuffer h' => ?_, ?_, h.conserved hids,
    fun a l b hlines hl => ⟨?_, fun hb => h.remains hids hlines hl hb⟩, fun _ _ _ => paired_spec⟩
  · have hids' : IntIds (lines.filter isResponseLine) := fun l hl =>
      hids l (List.mem_of_mem_filter hl)
    obtain ⟨h1, h2⟩ := h.answers hids
    obtain ⟨h3, h4⟩ := h'.answers hids'
    have hdemux : s'.demuxFrom (lines.filter isResponseLine) = s.demuxFrom lines := by
      rw [← s.demuxFrom_filter lines]
      unfold demuxFrom
      rw [hbuffer]
    rw [hdemux] at h3 h4
    exact ⟨pairOf_content h3 h1, h4.trans h2.symm⟩
  · obtain ⟨t', ht', _⟩ := h.filter hids
    exact ⟨t', ht'⟩
  · rintro fresh line rest rfl hf he
    exact h.paired_with hids hlines hl hf he

/-- a notification between the data and the terminator of an answer that nobody waits for -/
theorem demultiplexing_is_projection_event :
    ∃ pairs t, Received (started {} []) [ascii "clid=1", ascii "notifyx", ascii "error id=0 msg=ok"]
        pairs t ∧
      t.published = [Event.fromLine (ascii "notifyx")] ∧
      pairs.map Pair.content = [([ascii "clid=1"], ⟨0, lit "ok", []⟩)] ∧ t.dataBuffer = [] := by
  have h : Received (started {} []) [ascii "clid=1", ascii "notifyx", ascii "error id=0 msg=ok"]
      _ _ := .line _ (.line _ (.line _ .start))
  have hshort : Received (started {} []) [ascii "clid=1", ascii "error id=0 msg=ok"] _ _ :=
    .line _ (.line _ .start)
  obtain ⟨h1, h2, _⟩ := demultiplexing_is_projection _ _ _ _ h (by
    unfold IntIds
    decide +kernel)
  obtain ⟨h3, h4⟩ := h2 (started {} []) _ _ rfl hshort
  refine ⟨_, _, h, h1, h3.symm.trans (by decide +kernel), h4.symm.trans (by decide +kernel)⟩

end Conn
end Atsq
