import Atsq.Connection.Twin

/-!
# Is it all from after the command?

The rows of a response come from the data lines received since the terminator before, and so from
two places (`Answered.split`): what was buffered when the line was handed over (`staleData`), and
what came after (`freshData`).

* `Fresh s`        nothing that was returned comes from the buffer;
* `FreshStep s a`  a line is handed over only while the rows of the buffer are none;
* `Twins`          pairs of runs that differ in stray data lines only.

Main results: `fresh_responses`, and `stray_data_leaks`, a run without `FreshStep`.
-/

namespace Atsq
open Py

/-- the data lines received since `mark`, up to the next terminator -/
def freshData (received : List Bytes) (mark : Nat) : List Bytes :=
  ((received.drop mark).takeWhile fun l => !isErrorLine l).filter isDataLine

/-- the data lines in the buffer at `mark` -/
def staleData (received : List Bytes) (mark : Nat) : List Bytes :=
  (demux (received.take mark)).data

theorem Answered.split {received : List Bytes} {mark : Nat} {data : List Bytes}
    {error : ErrorLine} (h : Answered received mark data error) :
    data = staleData received mark ++ freshData received mark := by
  obtain ⟨fresh, line, rest, hdrop, hf, hl, _, hdata⟩ := h
  have hfresh : (received.drop mark).takeWhile (fun l => !isErrorLine l) = fresh := by
    rw [hdrop, List.takeWhile_append_of_pos fun l hmem => by rw [hf l hmem]; rfl,
      List.takeWhile_cons_of_neg (by rw [hl]; decide), List.append_nil]
  unfold freshData staleData
  rw [hfresh]
  exact hdata

namespace Session

/-- at every hand-over the rows of the buffer were none -/
def Clean (v : Session) : Prop :=
  ∀ x ∈ v.sent, parseDataBlock (staleData v.received x.mark) = []

theorem Clean.congr {v w : Session} (h : Clean v) (hw : SameWire v w) : Clean w := by
  unfold Clean
  rw [hw.sent, hw.received]
  exact h

theorem Move.clean {P : Policy} (hP : ∀ v c, P.send v c → parseDataBlock v.dataBuffer = [])
    {v v' : Session} (hm : Move P v v') (hi : Inv v) (h : Clean v) : Clean v' := by
  cases hm with
  | handOver c _ hsend =>
    intro x hx
    rcases List.mem_append.mp hx with hx | hx
    · exact h x hx
    · rw [List.mem_singleton.mp hx]
      show parseDataBlock (demux (v.received.take v.received.length)).data = []
      rw [List.take_length, ← hi.buffer]
      exact hP v c hsend
  | recv line =>
    refine Clean.congr (fun x hx => ?_) (sameWire_recv v line).1
    unfold staleData
    rw [List.take_append_of_le_length (hi.marks x hx)]
    exact h x hx
  | shutdown => exact h.congr (sameWire_shutdown v).1
  | _ => exact h

end Session

namespace Conn

def Fresh (s : Conn) : Prop :=
  ∀ c rows, (s.execs c).pc = .finished (.rows rows) →
    ∃ x, s.session.lastSent c = some x ∧ rows = parseDataBlock (freshData s.received x.mark)

def FreshStep (s : Conn) (a : Action) : Prop :=
  ∀ c drain, a = .acquire c drain → s.closed = false → s.transport.closed = false →
    parseDataBlock s.dataBuffer = []

def freshPolicy : Policy := { anyPolicy with send := fun v _ => parseDataBlock v.dataBuffer = [] }

variable {cfg : Config} {greeting : List Bytes} {s t : Conn}

theorem allowed_fresh {a : Action} (ha : FreshStep s a) : Allowed freshPolicy s a :=
  { allowed_any s a with send := ha }

theorem reach_clean (h : Sys.Reach (step cfg) FreshStep (started cfg greeting) s) :
    Base s ∧ s.session.Clean :=
  h.inv (I := fun s => Base s ∧ s.session.Clean) ⟨base_started cfg greeting, nofun⟩
    fun _ _ _ hi ha hs => ⟨step_base hi.1 hs,
      inv_moves_of (fun _ _ hv hc hm => hm.clean (fun _ _ => id) hv hc)
        (step_moves hi.1.session hi.1.tasks (allowed_fresh ha) hs) hi.1.session hi.2⟩

theorem rows_split (hb : Base s) {c : Caller} {rows : List Row}
    (hpc : (s.execs c).pc = .finished (.rows rows)) :
    ∃ x, s.session.lastSent c = some x ∧
      rows = parseDataBlock (staleData s.received x.mark)
        ++ parseDataBlock (freshData s.received x.mark) := by
  have hres := (hb.session.callers c).result
  change Session.ResultOk _ _ (s.execs c).pc at hres
  rw [hpc] at hres
  obtain ⟨x, data, error, hx, ha, _, hrows⟩ := hres
  refine ⟨x, hx, ?_⟩
  rw [hrows, ← parseDataBlock_append]
  exact congrArg parseDataBlock ha.split

/-! ## two runs -/

/-- the same schedule on both sides, but for data lines that arrive on one side while no command is
in flight -/
inductive Twins (cfg : Config) (s₀ : Conn) : Conn → Conn → Prop where
  | init : Twins cfg s₀ s₀ s₀
  | both {s t s' t' : Conn} (a : Action) : Twins cfg s₀ s t → FreshStep s a → FreshStep t a →
      s.step cfg a = some s' → t.step cfg a = some t' → Twins cfg s₀ s' t'
  | left {s t s' : Conn} (line : Bytes) : Twins cfg s₀ s t → isDataLine line = true →
      ¬ s.InFlight → s.step cfg (.recv line) = some s' → Twins cfg s₀ s' t
  | right {s t t' : Conn} (line : Bytes) : Twins cfg s₀ s t → isDataLine line = true →
      ¬ t.InFlight → t.step cfg (.recv line) = some t' → Twins cfg s₀ s t'

theorem step_data {s' : Conn} {line : Bytes} (hd : isDataLine line = true)
    (hs : s.step cfg (.recv line) = some s') :
    s' = { s with received := s.received ++ [line], dataBuffer := s.dataBuffer ++ [line] } := by
  cases step_cases hs with
  | recv _ => exact recvLine_data hd
  | feed hfa _ => cases hfa

theorem Twin.inFlight_iff (h : Twin s t) : t.InFlight ↔ s.InFlight := by
  have hp : t.pending = s.pending := by
    obtain ⟨_, _, _, _, rfl, _, _⟩ := h
    rfl
  unfold InFlight
  rw [hp]
  refine exists_congr fun c => and_congr_right fun _ => ?_
  obtain ⟨f, hf, hsame⟩ := h.same c
  rw [hf]
  exact hsame.pending_iff.symm

theorem Twin.stray_left (h : Twin s t) (line : Bytes) (hin : ¬ s.InFlight) :
    Twin { s with received := s.received ++ [line], dataBuffer := s.dataBuffer ++ [line] } t := by
  obtain ⟨buffer, received, sent, execs, rfl, hexecs, _⟩ := h
  exact ⟨buffer, received, sent, execs, rfl, hexecs, fun h => absurd h hin⟩

theorem Twin.stray_right (h : Twin s t) (line : Bytes) (hin : ¬ s.InFlight) :
    Twin s { t with received := t.received ++ [line], dataBuffer := t.dataBuffer ++ [line] } := by
  obtain ⟨buffer, received, sent, execs, rfl, hexecs, _⟩ := h
  exact ⟨buffer ++ [line], received ++ [line], sent, execs, rfl, hexecs, fun h => absurd h hin⟩

theorem Twins.twin (h : Twins cfg (started cfg greeting) s t) : Twin s t ∧ Base s ∧ Base t := by
  induction h with
  | init => exact ⟨.refl _, base_started cfg greeting, base_started cfg greeting⟩
  | both a _ ha ha' hs ht ih =>
    obtain ⟨htwin, hbs, hbt⟩ := ih
    refine ⟨?_, step_base hbs hs, step_base hbt ht⟩
    have hrel := step_twin cfg a hbs htwin fun c drain e hc hopen =>
      (ha c drain e hc hopen).trans (ha' c drain e ((congrArg Feed.closed htwin.feed).trans hc)
        ((congrArg SshTransport.closed htwin.transport).trans hopen)).symm
    rw [hs, ht] at hrel
    cases hrel with
    | some h => exact h
  | left line _ hd hin hs ih =>
    obtain ⟨htwin, hbs, hbt⟩ := ih
    refine ⟨?_, step_base hbs hs, hbt⟩
    rw [step_data hd hs]
    exact htwin.stray_left line hin
  | right line _ hd hin hs ih =>
    obtain ⟨htwin, hbs, hbt⟩ := ih
    refine ⟨?_, hbs, step_base hbt hs⟩
    rw [step_data hd hs]
    exact htwin.stray_right line fun h => hin (htwin.inFlight_iff.mpr h)

/-- **Fresh responses.**  As long as no line is handed over while the buffer has rows, nothing that
is returned comes from before, and stray data lines change no result.  Without that, a response is
fresh exactly if the buffer had no rows when its line was handed over. -/
theorem fresh_responses (cfg : Config) (greeting : List Bytes) :
    (∀ s, Sys.Reach (step cfg) FreshStep (started cfg greeting) s → Fresh s) ∧
    (∀ s, Sys.Reach (step cfg) anyStep (started cfg greeting) s →
      ∀ c rows, (s.execs c).pc = .finished (.rows rows) →
        ∃ x, s.session.lastSent c = some x ∧
          (rows = parseDataBlock (freshData s.received x.mark) ↔
            parseDataBlock (staleData s.received x.mark) = [])) ∧
    (∀ s t, Twins cfg (started cfg greeting) s t → ∀ c, (s.execs c).pc = (t.execs c).pc) := by
  refine ⟨fun s h c rows hpc => ?_, fun s h c rows hpc => ?_, fun s t h c => (h.twin.1.pc c).symm⟩
  · obtain ⟨hb, hclean⟩ := reach_clean h
    obtain ⟨x, hx, hrows⟩ := rows_split hb hpc
    have hstale : parseDataBlock (staleData s.received x.mark) = [] :=
      hclean x (Session.mem_of_lastSent hx)
    refine ⟨x, hx, ?_⟩
    rw [hrows, hstale, List.nil_append]
  · obtain ⟨x, hx, hrows⟩ := rows_split (reach_base h) hpc
    refine ⟨x, hx, ?_⟩
    rw [hrows]
    exact List.append_left_eq_self

def freshCheck (s : Conn) : Action → Bool
  | .acquire _ _ => (parseDataBlock s.dataBuffer).isEmpty
  | _ => true

/-- stray data, dropped by a stray terminator, and a stray line without a row before the command -/
def strayRun : List Action :=
  [.recv (ascii "x=1"), .recv (ascii "error id=0 msg=ok"), .recv (ascii "|"),
    .exec 0 (lit "version") [] none [], .acquire (.task 0) .done, .recv (ascii "version=3"),
    .recv (ascii "error id=0 msg=ok"), .resume (.task 0) {}]

theorem fresh_responses_stray :
    ∃ s, Sys.run (step {}) (started {} []) strayRun = some s ∧
      s.returned (.task 0) = some [[(lit "version", lit "3")]] ∧ Fresh s := by
  obtain ⟨s, hs, h⟩ := Sys.exists_reach_of_guard (step {}) FreshStep freshCheck (started {} [])
    strayRun (fun s a hcheck => by
      rintro c drain rfl _ _
      exact List.isEmpty_iff.mp hcheck) (by decide +kernel)
  have hreturned : s.returned (.task 0) = some [[(lit "version", lit "3")]] :=
    Sys.eq_of_run_map (f := fun s : Conn => s.returned (.task 0)) hs (by decide +kernel)
  exact ⟨s, hs, hreturned, (fresh_responses {} []).1 s h⟩

/-- **Stray data leaks**: a data line that arrives before the command becomes its response. -/
theorem stray_data_leaks :
    let call : List Action := [.exec 0 (lit "version") [] none [], .acquire (.task 0) .done,
      .recv (ascii "error id=0 msg=ok"), .resume (.task 0) {}]
    ∃ s t, Sys.run (step {}) (started {} []) (.recv (ascii "x=1") :: call) = some s ∧
      Sys.run (step {}) (started {} []) call = some t ∧
      s.returned (.task 0) = some [[(lit "x", lit "1")]] ∧ t.returned (.task 0) = some [] ∧
      Sys.Reach (step {}) anyStep (started {} []) s ∧ ¬ Fresh s := by
  intro call
  obtain ⟨s, hs, h⟩ := Sys.exists_reach (step {}) anyStep (started {} [])
    (.recv (ascii "x=1") :: call) (fun _ _ => trivial) (by decide +kernel)
  obtain ⟨t, ht, _⟩ := Sys.exists_reach (step {}) anyStep (started {} []) call
    (fun _ _ => trivial) (by decide +kernel)
  have hreturned : s.returned (.task 0) = some [[(lit "x", lit "1")]] :=
    Sys.eq_of_run_map (f := fun s : Conn => s.returned (.task 0)) hs (by decide +kernel)
  have hfresh : (s.session.lastSent (.task 0)).map
      (fun x => parseDataBlock (freshData s.received x.mark)) = some [] :=
    Sys.eq_of_run_map (f := fun s : Conn => (s.session.lastSent (.task 0)).map
      fun x => parseDataBlock (freshData s.received x.mark)) hs (by decide +kernel)
  refine ⟨s, t, hs, ht, hreturned,
    Sys.eq_of_run_map (f := fun s : Conn => s.returned (.task 0)) ht (by decide +kernel), h,
    fun hf => ?_⟩
  obtain ⟨x, hx, hrows⟩ := hf _ _ (pc_of_returned hreturned)
  rw [hx, Option.map_some, ← hrows] at hfresh
  cases hfresh

end Conn
end Atsq
