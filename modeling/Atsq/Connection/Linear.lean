import Atsq.Client.Setup
import Atsq.Connection.Cancellation
import Atsq.Connection.Output
import Atsq.Connection.Projection
import Atsq.Protocol.Rows
import Atsq.Protocol.Terminator

/-!
# A call of `exec` is a call of the server

The other end of the connection as a machine of its own, that makes a reply of one command line
after the other.

* `Server σ`, `replies`   the machine, and its replies to a list of lines;
* `Reply.Written`         a way to write a reply: data lines and a terminator;
* `Serves srv`            the connection receives nothing but notifications and these replies;
* `Reply.Gives`           what a call of `exec` makes of a reply;
* `Linearized`            the lines of a call are sent between its start and its end, the server
                          refused all but the last of them as floods, and the call returns what the
                          server replied to the last one.

Main result: `exec_linearizable`.
-/

namespace Atsq
open Py

/-! ## the server -/

/-- rows, and the fields of the terminator -/
structure Reply where
  rows : List Row := []
  id : Int := 0
  msg : Str := []
  extra : Row := []

/-- a state, and what the server makes of a command line in it -/
structure Server (σ : Type) where
  init : σ
  serve : σ → Bytes → Reply × σ

section
variable {σ : Type} (srv : Server σ)

def Server.repliesFrom (q : σ) : List Bytes → List Reply
  | [] => []
  | line :: lines => (srv.serve q line).1 :: Server.repliesFrom (srv.serve q line).2 lines

/-- the replies to the lines, in order -/
def Server.replies (lines : List Bytes) : List Reply := srv.repliesFrom srv.init lines

theorem Server.repliesFrom_append (q : σ) (as bs : List Bytes) :
    ∃ q', srv.repliesFrom q (as ++ bs) = srv.repliesFrom q as ++ srv.repliesFrom q' bs := by
  induction as generalizing q with
  | nil => exact ⟨q, rfl⟩
  | cons a as ih =>
    obtain ⟨q', h⟩ := ih (srv.serve q a).2
    exact ⟨q', congrArg (List.cons _) h⟩

theorem Server.replies_prefix {as bs : List Bytes} (h : as <+: bs) :
    srv.replies as <+: srv.replies bs := by
  obtain ⟨more, rfl⟩ := h
  obtain ⟨q', h⟩ := srv.repliesFrom_append srv.init as more
  exact ⟨_, h.symm⟩

end

/-! ## its replies on the wire -/

/-- rows and extra fields as a server sends them, and an id that `int` reads -/
structure Reply.Sound (r : Reply) : Prop where
  rows : ∀ row ∈ r.rows, ServerRow row
  extra : ExtraKeys r.extra
  id : r.id.natAbs < 10 ^ maxStrDigits

def Server.Sound {σ : Type} (srv : Server σ) : Prop := ∀ q line, (srv.serve q line).1.Sound

/-- the rows cut over any number of data lines, and a terminator -/
structure Reply.Written (r : Reply) (a : Answer) : Prop where
  data : ∃ cuts, cuts.flatten = r.rows ∧ List.Forall₂ RowsLine cuts a.data
  terminator : TerminatorLine r.id r.msg r.extra a.terminator

/-- what a call makes of a reply; the extra fields come in the order in which they were sent -/
inductive Reply.Gives (r : Reply) : Outcome → Prop where
  | rows : r.id = 0 → Reply.Gives r (.rows r.rows)
  | queryError {e : QueryError} : r.id ≠ 0 → e.errorId = r.id → e.msg = r.msg →
      e.extra.Perm r.extra → Reply.Gives r (.queryError e)

theorem Server.sound_of_mem {σ : Type} {srv : Server σ} (h : srv.Sound) {lines : List Bytes}
    {r : Reply} (hr : r ∈ srv.replies lines) : r.Sound := by
  have hfrom : ∀ (lines : List Bytes) q, r ∈ srv.repliesFrom q lines → r.Sound := by
    intro lines
    induction lines with
    | nil => exact fun _ hr => absurd hr List.not_mem_nil
    | cons line lines ih =>
      intro q hr
      rcases List.mem_cons.mp hr with rfl | hr
      · exact h q line
      · exact ih _ hr
  exact hfrom lines srv.init hr

theorem Reply.Written.parse {r : Reply} {a : Answer} (h : r.Written a) (hr : r.Sound) :
    isErrorLine a.terminator = true ∧ parseDataBlock a.data = r.rows ∧
      ∃ extra', extra'.Perm r.extra ∧
        parseErrorLine a.terminator = .ok { id := r.id, msg := r.msg, extra := extra' } := by
  obtain ⟨cuts, hcuts, hlines⟩ := h.data
  obtain ⟨herror, _, hparse⟩ := parseErrorLine_terminator _ _ _ _ hr.extra h.terminator
  refine ⟨herror, ?_, hparse hr.id⟩
  rw [parseDataBlock_rowsLines hlines fun row hrow => hr.rows row (hcuts ▸ hrow), hcuts]

theorem Reply.Written.gives {r : Reply} {data : List Bytes} {line : Bytes} {error : ErrorLine}
    (h : r.Written ⟨data, line⟩) (hr : r.Sound) (hp : parseErrorLine line = .ok error) :
    error.id = r.id ∧ r.Gives (resultOf (data, error)) := by
  obtain ⟨_, hrows, extra, hperm, hparse⟩ := h.parse hr
  obtain rfl := Except.ok.inj (hp.symm.trans hparse)
  refine ⟨rfl, ?_⟩
  unfold resultOf
  split
  · rename_i hok
    have hid : r.id = 0 := beq_iff_eq.mp hok
    show r.Gives (.rows (parseDataBlock data))
    rw [hrows]
    exact .rows hid
  · rename_i hok
    refine .queryError (fun hid => hok ?_) rfl rfl hperm
    exact beq_iff_eq.mpr hid

namespace Conn
open Session

/-! ## a connection to it -/

def lines (s : Conn) : List Bytes := s.session.wire.map Prod.snd

section
variable {σ : Type}

/-- the peer writes notifications, and in order its replies to the lines it got -/
def Serves (srv : Server σ) (s : Conn) (a : Action) : Prop :=
  ∀ line, a = .recv line → isErrorLine line = true ∨ isDataLine line = true →
    (demux s.received).answers.length < s.lines.length ∧
      (isErrorLine line = true → ∃ r,
        (srv.replies s.lines)[(demux s.received).answers.length]? = some r ∧
          r.Written ⟨(demux s.received).data, line⟩)

/-- every answer received is a way to write the reply to its line -/
def Replied (replies : List Reply) (s : Conn) : Prop :=
  ∀ (k : Nat) (a : Answer), (demux s.received).answers[k]? = some a →
    ∃ r, replies[k]? = some r ∧ r.Written a

/-- one line of a call: sent since the state `s₀`, and a line of its own for the server -/
structure SentSince (s₀ s : Conn) (c : Caller) (x : Sent) : Prop where
  mem : x ∈ s.sent
  caller : x.caller = c
  since : s₀.lines.length ≤ x.index
  line : s.lines[x.index]? = some (strip CR x.line)

/-- what a call that began in `s₀` did, given the replies to the lines sent: the lines `floods` were
refused, and one more at most was sent, whose reply decides the call -/
structure Effected (replies : List Reply) (s₀ s : Conn) (c : Caller)
    (text : Except RenderError Bytes) (floods rest : List Sent) : Prop where
  sent : s.session.sentBy c = s₀.session.sentBy c ++ (floods ++ rest)
  lines : ∀ x ∈ floods ++ rest, text = .ok x.line ∧ SentSince s₀ s c x
  once : rest.length ≤ 1
  refused : ∀ x ∈ floods, ∃ r, replies[x.index]? = some r ∧ r.id = floodErrorId
  result : ∀ o, (s.execs c).pc = .finished o → (∃ rows, o = .rows rows) ∨ (∃ e, o = .queryError e) →
    ∃ x r, rest = [x] ∧ replies[x.index]? = some r ∧ r.Gives o

def Linearized (srv : Server σ) (s₀ s : Conn) (c : Caller) (text : Except RenderError Bytes) :
    Prop := ∃ floods rest, Effected (srv.replies s.lines) s₀ s c text floods rest

/-! ## every step -/

variable {srv : Server σ} {cfg : Config} {s s' : Conn} {a : Action}

theorem answers_of_serves (hsrv : srv.Sound) (h : Serves srv s a) : Answers s a := by
  intro line ha hline
  obtain ⟨hlt, hwritten⟩ := h line ha hline
  rw [lines, List.length_map] at hlt
  refine ⟨hlt, fun herror => ?_⟩
  obtain ⟨r, hr, hw⟩ := hwritten herror
  obtain ⟨_, _, _, _, hparse⟩ := hw.parse (Server.sound_of_mem hsrv (List.mem_of_getElem? hr))
  unfold wellFormed
  rw [hparse]
  rfl

theorem sent_grows (hs : s.step cfg a = some s') : s.sent <+: s'.sent := by
  cases step_output hs with
  | mute hout =>
    have hsent : s'.sent = s.sent := congrArg Out.sent hout
    rw [hsent]
  | line x _ hout =>
    have hsent : s'.sent = s.sent ++ [x] := congrArg Out.sent hout
    rw [hsent]
    exact List.prefix_append _ _
  | quit hquit =>
    have hsent : s'.sent = s.sent := congrArg Out.sent hquit.out
    rw [hsent]

theorem sent_grows_of_reach {C : Conn → Action → Prop} (h : Sys.Reach (step cfg) C s s') :
    s.sent <+: s'.sent :=
  h.inv (I := fun t => s.sent <+: t.sent) List.prefix_rfl
    fun _ _ _ hi _ hs => hi.trans (sent_grows hs)

theorem lines_grow (hs : s.step cfg a = some s') : s.lines <+: s'.lines := by
  obtain ⟨more, hmore⟩ := sent_grows hs
  unfold lines
  rw [map_snd_wire, map_snd_wire]
  refine ⟨more.flatMap Sent.lines, ?_⟩
  rw [show s'.session.sent = s.session.sent ++ more from hmore.symm, List.flatMap_append]

theorem lines_grow_of_reach {C : Conn → Action → Prop} (h : Sys.Reach (step cfg) C s s') :
    s.lines <+: s'.lines :=
  h.inv (I := fun t => s.lines <+: t.lines) List.prefix_rfl
    fun _ _ _ hi _ hs => hi.trans (lines_grow hs)

theorem step_replied (hb : Base s) (h : Replied (srv.replies s.lines) s) (ha : Serves srv s a)
    (hs : s.step cfg a = some s') : Replied (srv.replies s'.lines) s' := by
  have hgrows : srv.replies s.lines <+: srv.replies s'.lines :=
    srv.replies_prefix (lines_grow hs)
  have later : ∀ (k : Nat) (r : Reply), (srv.replies s.lines)[k]? = some r →
      (srv.replies s'.lines)[k]? = some r := by
    intro k r hr
    obtain ⟨more, hmore⟩ := hgrows
    rw [← hmore, List.getElem?_append_left (List.getElem?_eq_some_iff.mp hr).1]
    exact hr
  have old : ∀ (k : Nat) (b : Answer), (demux s.received).answers[k]? = some b →
      ∃ r, (srv.replies s'.lines)[k]? = some r ∧ r.Written b := by
    intro k b hk
    obtain ⟨r, hr, hw⟩ := h k b hk
    exact ⟨r, later k r hr, hw⟩
  by_cases hrecv : ∃ l, a = .recv l
  · obtain ⟨l, rfl⟩ := hrecv
    have hreceived : s'.received = s.received ++ [l] := by
      cases step_cases hs with
      | feed hfa _ => cases hfa
      | recv _ => exact recvLine_received s l
    intro k b hk
    rw [hreceived, demux_concat] at hk
    cases hl : isErrorLine l with
    | true =>
      rw [Demux.take_error _ hl] at hk
      rcases Nat.lt_or_ge k (demux s.received).answers.length with hlt | hge
      · rw [List.getElem?_append_left hlt] at hk
        exact old k b hk
      · -- the answer that the terminator closes
        obtain ⟨r, hr, hw⟩ := (ha l rfl (Or.inl hl)).2 hl
        have hlen := (List.getElem?_eq_some_iff.mp hk).1
        rw [List.length_append, List.length_singleton] at hlen
        have hk' : k = (demux s.received).answers.length := by omega
        subst hk'
        rw [List.getElem?_concat_length] at hk
        obtain rfl := Option.some.inj hk
        exact ⟨r, later _ r hr, hw⟩
    | false =>
      have hsame : ((demux s.received).take l).answers = (demux s.received).answers := by
        unfold Demux.take
        rw [hl, if_neg (by decide)]
        split <;> rfl
      rw [hsame] at hk
      exact old k b hk
  · obtain ⟨hreceived, _⟩ := step_between hb hs fun l e => hrecv ⟨l, e⟩
    intro k b hk
    rw [hreceived] at hk
    exact old k b hk

/-! ## every call -/

theorem exists_of_forall₂ {α β : Type} {R : α → β → Prop} {xs : List α} {ys : List β}
    (h : List.Forall₂ R xs ys) {x : α} (hx : x ∈ xs) : ∃ y ∈ ys, R x y := by
  induction h with
  | nil => exact absurd hx List.not_mem_nil
  | cons hR _ ih =>
    rcases List.mem_cons.mp hx with rfl | hx
    · exact ⟨_, List.mem_cons_self, hR⟩
    · obtain ⟨y, hy, hR'⟩ := ih hx
      exact ⟨y, List.mem_cons_of_mem _ hy, hR'⟩

/-- the lines of a caller since a state are among the new ones -/
theorem sentSince_of_mem {s₀ : Conn} {c : Caller} {xs : List Sent} (hsingle : s.session.Single)
    (hi : s.session.InStep) (hgrows : s₀.sent <+: s.sent)
    (h : s.session.sentBy c = s₀.session.sentBy c ++ xs) :
    ∀ x ∈ xs, SentSince s₀ s c x := by
  obtain ⟨fresh, hfresh⟩ := hgrows
  have hxs : xs = fresh.filter fun x => x.caller == c := by
    have hsplit : s.session.sentBy c
        = s₀.session.sentBy c ++ fresh.filter fun x => x.caller == c := by
      show s.sent.filter _ = s₀.sent.filter _ ++ _
      rw [← hfresh, List.filter_append]
    exact List.append_cancel_left (h.symm.trans hsplit)
  intro x hx
  rw [hxs] at hx
  obtain ⟨hmem, hcaller⟩ := List.mem_filter.mp hx
  have hsent : s.session.sent = s₀.session.sent ++ fresh := hfresh.symm
  have hx : x ∈ s.session.sent := hsent ▸ List.mem_append_right _ hmem
  have hsingle₀ : s₀.session.Single := fun y hy =>
    hsingle y (hsent ▸ List.mem_append_left _ hy)
  refine ⟨hx, beq_iff_eq.mp hcaller, ?_, ?_⟩
  · obtain ⟨j, hj⟩ := List.mem_iff_getElem?.mp hmem
    -- its index is its position
    have hpos : s.sent[s₀.sent.length + j]? = some x := by
      rw [← hfresh, List.getElem?_append_right (Nat.le_add_right _ _), Nat.add_sub_cancel_left]
      exact hj
    have hindex : (s.sent.map Sent.index)[s₀.sent.length + j]? = some x.index := by
      rw [List.getElem?_map, hpos]
      rfl
    rw [show s.sent.map Sent.index = List.range s.sent.length from hi.index] at hindex
    rw [List.getElem?_range (List.getElem?_eq_some_iff.mp hpos).1] at hindex
    have hj := Option.some.inj hindex
    rw [lines, List.length_map, length_wire hsingle₀]
    show s₀.sent.length ≤ x.index
    omega
  · rw [lines, List.getElem?_map, getElem?_wire hsingle, hi.getElem? hx]
    rfl

theorem reply_of_answered {replies : List Reply} (hsound : ∀ r ∈ replies, r.Sound)
    (hi : s.session.InStep) (hr : Replied replies s) {x : Sent} {b : Ans} (hx : x ∈ s.sent)
    (h : Answered s.received x.mark b.1 b.2) :
    ∃ r, replies[x.index]? = some r ∧ b.2.id = r.id ∧ r.Gives (resultOf b) := by
  obtain ⟨line, hanswer, hparse⟩ := hi.answer hx h
  obtain ⟨r, hreply, hw⟩ := hr x.index _ hanswer
  exact ⟨r, hreply, hw.gives (hsound r (List.mem_of_getElem? hreply)) hparse⟩

theorem Attempts.effected {replies : List Reply} (hsound : ∀ r ∈ replies, r.Sound) {s₀ : Conn}
    {c : Caller} {line : Bytes} {ys zs : List Sent} {as : List Ans} (hsingle : s.session.Single)
    (hi : s.session.InStep) (hr : Replied replies s) (hgrows : s₀.sent <+: s.sent)
    (h : Attempts cfg s c line (s₀.session.sentBy c) ys zs as) :
    ∃ floods rest, Effected replies s₀ s c (.ok line) floods rest := by
  have hsince := sentSince_of_mem hsingle hi hgrows h.sent
  have hlines : ∀ x ∈ ys ++ zs, (Except.ok line : Except RenderError Bytes) = .ok x.line ∧
      SentSince s₀ s c x := fun x hx =>
    ⟨congrArg Except.ok (h.lines x hx).symm, hsince x hx⟩
  -- answers that are floods
  have refused : ∀ {xs : List Sent} {bs : List Ans}, (∀ x ∈ xs, x ∈ ys ++ zs) →
      List.Forall₂ (fun x b => Answered s.received x.mark b.1 b.2) xs bs →
      (∀ b ∈ bs, Flooded b) →
      ∀ x ∈ xs, ∃ r, replies[x.index]? = some r ∧ r.id = floodErrorId := by
    intro xs bs hxs hall hfl x hx
    obtain ⟨b, hb, hans⟩ := exists_of_forall₂ hall hx
    obtain ⟨r, hreply, hid, _⟩ := reply_of_answered hsound hi hr (hsince x (hxs x hx)).mem hans
    exact ⟨r, hreply, hid.symm.trans (hfl b hb)⟩
  have hleft : ∀ x ∈ ys, x ∈ ys ++ zs := fun x hx => List.mem_append_left _ hx
  have pending : zs.length ≤ 1 → (∀ b ∈ as, Flooded b) →
      (∀ o, (s.execs c).pc = .finished o → o.early = true) →
      ∃ floods rest, Effected replies s₀ s c (.ok line) floods rest := by
    intro hone hfl hearly
    refine ⟨ys, zs, h.sent, hlines, hone, refused hleft h.answered hfl, fun o ho hres => ?_⟩
    have := hearly o ho
    rcases hres with ⟨rows, rfl⟩ | ⟨e, rfl⟩ <;> cases this
  have hstage := h.stage
  generalize hpc : (s.execs c).pc = pc at hstage pending
  cases hstage with
  | locking _ hfl hrest _ => exact pending (by omega) hfl nofun
  | inside hc _ hfl hrest _ =>
    refine pending (by omega) hfl ?_
    rintro o rfl
    cases hc
  | sleeping _ _ hfl hrest _ => exact pending (by omega) hfl nofun
  | early ho hfl hrest _ _ => exact pending hrest hfl fun o he => by cases he; exact ho
  | result init b has _ hfl hrest _ _ =>
    have hanswered := h.answered
    rw [has] at hanswered
    have hfloods := List.forall₂_take_append ys init [b] hanswered
    have hlast := List.forall₂_drop_append ys init [b] hanswered
    have hys := (List.take_append_drop init.length ys).symm
    generalize ys.take init.length = floods at hfloods hys
    generalize ys.drop init.length = last at hlast hys
    obtain ⟨x, _, hx, hnil, rfl⟩ := List.forall₂_cons_right_iff.mp hlast
    obtain rfl := List.forall₂_nil_right_iff.mp hnil
    obtain rfl := List.length_eq_zero_iff.mp hrest
    have hmem : x ∈ ys ++ [] := by
      rw [List.append_nil, hys]
      exact List.mem_append_right _ List.mem_cons_self
    obtain ⟨r, hreply, _, hgives⟩ := reply_of_answered hsound hi hr (hsince x hmem).mem hx
    have hfl' : ∀ y ∈ floods, y ∈ ys ++ [] := fun y hy => by
      rw [List.append_nil, hys]
      exact List.mem_append_left _ hy
    refine ⟨floods, [x], ?_, ?_, Nat.le_refl 1, refused hfl' hfloods hfl, fun o ho _ => ?_⟩
    · rw [h.sent, List.append_nil, hys]
    · rw [← hys]
      exact fun y hy => hlines y (List.mem_append_left _ hy)
    · rw [hpc] at ho
      cases ho
      exact ⟨x, r, rfl, hreply, hgives⟩

theorem started_call {s₀ : Conn} {n : Nat} {cmd : Str} {options : List Str}
    {blocks : Option (List Block)} {params : Block}
    (hs : s₀.step cfg (.exec n cmd options blocks params) = some s) :
    (s.execs (.task n)).pc = .locking ∨
      ∃ o, (s.execs (.task n)).pc = .finished o ∧ o.unsent = true := by
  cases step_cases hs with
  | exec _ =>
    unfold startExec
    cases renderCommand cmd options blocks params with
    | error e =>
      right
      simp only []
      rw [setExec_self]
      exact ⟨_, rfl, rfl⟩
    | ok line =>
      simp only []
      unfold startAttempt
      split
      · left
        rw [setExec_self]
      · right
        exact ⟨_, finish_pc _, rfl⟩
  | feed hfa _ => cases hfa

theorem effected_of_unsent {s₀ s₁ : Conn} {c : Caller} {text : Except RenderError Bytes}
    {o : Outcome} (hb : Base s₁) (hsent : s₁.session.sentBy c = s₀.session.sentBy c)
    (hpc : (s₁.execs c).pc = .finished o) (ho : o.unsent = true)
    (h : Sys.Reach (step cfg) (sameCall c) s₁ s) (replies : List Reply) :
    ∃ floods rest, Effected replies s₀ s c text floods rest := by
  have hsame : Base s ∧ s.session.sentBy c = s₀.session.sentBy c ∧
      (s.execs c).pc = .finished o := by
    refine h.inv (I := fun s => Base s ∧ s.session.sentBy c = s₀.session.sentBy c ∧
      (s.execs c).pc = .finished o) ⟨hb, hsent, hpc⟩ ?_
    rintro r a r' ⟨hb, hsent, hpc⟩ ha hs
    obtain ⟨hst, hpc'⟩ := still_of_free hb hs ha (by rw [hpc]; rfl)
    exact ⟨step_base hb hs, hst.sent.trans hsent, hpc'.trans hpc⟩
  obtain ⟨_, hsent, hpc⟩ := hsame
  refine ⟨[], [], by rw [hsent]; simp, fun x hx => absurd hx List.not_mem_nil, Nat.zero_le _,
    fun x hx => absurd hx List.not_mem_nil, fun o' ho' hres => ?_⟩
  rw [hpc] at ho'
  cases ho'
  rcases hres with ⟨rows, rfl⟩ | ⟨e, rfl⟩ <;> cases ho

/-- what a call did, given the replies to the lines sent -/
theorem effected_of_call {replies : List Reply} (hsound : ∀ r ∈ replies, r.Sound) {s₀ s₁ : Conn}
    {n : Nat} {cmd : Str} {options : List Str} {blocks : Option (List Block)} {params : Block}
    (hb : Base s₀) (hcall : s₀.step cfg (.exec n cmd options blocks params) = some s₁)
    (h : Sys.Reach (step cfg) (sameCall (.task n)) s₁ s) (hsingle : s.session.Single)
    (hi : s.session.InStep) (hr : Replied replies s) :
    ∃ floods rest, Effected replies s₀ s (.task n) (renderCommand cmd options blocks params)
      floods rest := by
  have hb₁ : Base s₁ := step_base hb hcall
  have hstarts : Starts (.task n) (.exec n cmd options blocks params) := rfl
  rcases started_call hcall with hpc | ⟨o, hpc, ho⟩
  · obtain ⟨hatt, htext⟩ := start_call hb hstarts hcall hpc
    obtain ⟨_, ys, zs, as, hatt⟩ := attempts_of_run hb₁ hatt h
    have htext : renderCommand cmd options blocks params = .ok _ := htext
    rw [htext]
    exact hatt.effected hsound hsingle hi hr ((sent_grows hcall).trans (sent_grows_of_reach h))
  · have hsent : s₁.session.sentBy (.task n) = s₀.session.sentBy (.task n) :=
      congrArg (List.filter _) (sent_of_start hb hcall hstarts)
    exact effected_of_unsent hb₁ hsent hpc ho h replies

end

/-- the server answers, each line that is handed over is a single one, and nobody leaves a line
unanswered -/
def Serving {σ : Type} (srv : Server σ) (s : Conn) (a : Action) : Prop :=
  PairSafe s a ∧ Serves srv s a

theorem reach_serving {σ : Type} {srv : Server σ} (hsrv : srv.Sound) {cfg : Config}
    {greeting : List Bytes} {s : Conn}
    (h : Sys.Reach (step cfg) (Serving srv) (started cfg greeting) s) :
    Turns s ∧ s.session.InStep ∧ Replied (srv.replies s.lines) s := by
  obtain ⟨ht, hi⟩ := reach_inStep (h.mono fun _ _ ha => ⟨ha.1, answers_of_serves hsrv ha.2⟩)
  have hr := h.inv (I := fun s => Base s ∧ Replied (srv.replies s.lines) s)
    ⟨base_started cfg greeting, fun k a hk => by cases hk⟩
    fun _ _ _ hi ha hs => ⟨step_base hi.1 hs, step_replied hi.1 hi.2 ha.2 hs⟩
  exact ⟨ht, hi, hr.2⟩

/-- **A call of `exec` is a call of the server**, in every run: its lines reach the server after it
was called and before it returns, in one order for all callers; the server refused all but the last
of them as floods; and the rows or the error that the call returns are the server's reply to the
last one, in the state in which the lines before have left the server. -/
theorem exec_linearizable {σ : Type} {srv : Server σ} (hsrv : srv.Sound) {cfg : Config}
    {greeting : List Bytes} {s₀ s₁ s : Conn} {n : Nat} {cmd : Str} {options : List Str}
    {blocks : Option (List Block)} {params : Block}
    (h₀ : Sys.Reach (step cfg) (Serving srv) (started cfg greeting) s₀)
    (hcall : s₀.step cfg (.exec n cmd options blocks params) = some s₁)
    (h : Sys.Reach (step cfg) (fun s a => Serving srv s a ∧ sameCall (.task n) s a) s₁ s) :
    Linearized srv s₀ s (.task n) (renderCommand cmd options blocks params) := by
  have hsafe : PairSafe s₀ (.exec n cmd options blocks params) := by
    refine ⟨nofun, fun v c he => ?_⟩
    cases he with
    | raises he => cases he
  have hserving : Serving srv s₀ (.exec n cmd options blocks params) := ⟨hsafe, nofun⟩
  have hfull : Sys.Reach (step cfg) (Serving srv) (started cfg greeting) s :=
    (h₀.step hserving hcall).trans (h.mono fun _ _ ha => ha.1)
  obtain ⟨ht, hi, hr⟩ := reach_serving hsrv hfull
  exact effected_of_call (fun r hr => Server.sound_of_mem hsrv hr) (reach_serving hsrv h₀).1.toBase
    hcall (h.mono fun _ _ ha => ha.2) ht.single hi hr

def versionReply : Reply := { rows := [[(lit "version", lit "3")]], msg := lit "ok" }

def versionServer : Server Unit := ⟨(), fun _ _ => (versionReply, ())⟩

def versionCheck (s : Conn) : Action → Bool
  | .recv line =>
    !(isErrorLine line || isDataLine line) ||
      (decide ((demux s.received).answers.length < s.lines.length) && (!isErrorLine line ||
        decide ((demux s.received).data = [ascii "version=3"] ∧
          line = ascii "error id=0 msg=ok")))
  | .exec n .. => n != 0
  | _ => true

theorem versionServer_sound : versionServer.Sound := by
  intro _ _
  refine ⟨fun row hrow => ?_, ⟨List.nodup_nil, nofun, nofun⟩, Nat.pow_pos (by decide)⟩
  rw [List.mem_singleton.mp hrow]
  exact ⟨by decide, by decide, by decide⟩

theorem versionServer_replies (lines : List Bytes) :
    versionServer.replies lines = lines.map fun _ => versionReply := by
  show versionServer.repliesFrom () lines = _
  induction lines with
  | nil => rfl
  | cons line lines ih => exact congrArg (List.cons versionReply) ih

theorem versionReply_written :
    versionReply.Written ⟨[ascii "version=3"], ascii "error id=0 msg=ok"⟩ := by
  have hrow : RowText [(lit "version", lit "3")] (lit "version=3") :=
    ⟨[lit "version=3"], .cons (.pair (lit "version") (lit "3")) .nil,
      .cons 0 _ _ [] (by decide) (by decide) (Or.inl rfl) (.nil 0)⟩
  have hrows : RowsText [[(lit "version", lit "3")]] (lit "version=3") :=
    ⟨[lit "version=3"], by simp, .row hrow .nil, List.intercalate_singleton.symm⟩
  exact ⟨⟨[[[(lit "version", lit "3")]]], rfl, .cons ⟨_, hrows, by decide⟩ .nil⟩,
    [idField 0, msgField (lit "ok")], _, .refl _, .cons 0 _ (.cons 0 _ .nil), by decide +kernel⟩

theorem serving_of_check (s : Conn) (a : Action)
    (h : (versionCheck s a && (singleCheck s a && heardCheck s a)) = true) :
    Serving versionServer s a ∧ sameCall (.task 0) s a := by
  rw [Bool.and_eq_true] at h
  obtain ⟨hcheck, hsafe⟩ := h
  refine ⟨⟨pairSafe_of_check a hsafe, ?_⟩, ?_⟩
  · rintro line rfl hline
    unfold versionCheck at hcheck
    rw [Bool.or_eq_true, Bool.not_eq_true', Bool.and_eq_true, decide_eq_true_iff,
      Bool.or_eq_true, Bool.not_eq_true', decide_eq_true_iff] at hcheck
    rcases hcheck with hneutral | ⟨hlt, hwritten⟩
    · rw [← Bool.or_eq_true, hneutral] at hline
      cases hline
    · refine ⟨hlt, fun herror => ⟨versionReply, ?_, ?_⟩⟩
      · rw [versionServer_replies, List.getElem?_map, List.getElem?_eq_getElem hlt]
        rfl
      · obtain ⟨hdata, rfl⟩ := hwritten.resolve_left (by rw [herror]; decide)
        rw [hdata]
        exact versionReply_written
  · cases a with
    | exec n cmd options blocks params =>
      intro he
      have hn : (n != 0) = true := hcheck
      rw [show n = 0 from he] at hn
      cases hn
    | _ => exact id

def versionRun : List Action :=
  [.exec 1 (lit "whoami") [] none [], .acquire (.task 0) .done, .recv (ascii "version=3"),
    .recv (ascii "notifyx"), .recv (ascii "error id=0 msg=ok"), .resume (.task 0) {},
    .acquire (.task 1) .done, .recv (ascii "version=3"), .recv (ascii "error id=0 msg=ok"),
    .resume (.task 1) {}]

theorem exec_linearizable_version :
    ∃ s₁ s, (started {} []).step {} (.exec 0 (lit "version") [] none []) = some s₁ ∧
      Sys.run (step {}) s₁ versionRun = some s ∧
      s.returned (.task 0) = some [[(lit "version", lit "3")]] ∧
      Linearized versionServer (started {} []) s (.task 0)
        (renderCommand (lit "version") [] none []) := by
  let s₁ := (started {} []).startExec {} (.task 0) (.ok (ascii "version"))
  have hrender : renderCommand (lit "version") [] none [] = .ok (ascii "version") := by
    decide +kernel
  have hs₁ : (started {} []).step {} (.exec 0 (lit "version") [] none []) = some s₁ := by
    simp only [step, hrender]
    rfl
  obtain ⟨s, hs, h⟩ := Sys.exists_reach_of_guard (step {})
    (fun s a => Serving versionServer s a ∧ sameCall (.task 0) s a)
    (fun s a => versionCheck s a && (singleCheck s a && heardCheck s a)) s₁ versionRun
    serving_of_check (by decide +kernel)
  exact ⟨s₁, s, hs₁, hs,
    Sys.eq_of_run_map (f := fun s : Conn => s.returned (.task 0)) hs (by decide +kernel),
    exec_linearizable versionServer_sound .init hs₁ h⟩

end Conn
end Atsq
