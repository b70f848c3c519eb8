import Atsq.Client.Step
import Atsq.Connection.Attempts

/-!
# The commands of `start` on their connection

What a task that runs the commands of `start` one after the other leaves on its connection.

* `Passed s x xs`     the lines `xs` are those of the command `x`, and it was answered well;
* `Passing s done xs` the commands `done` passed one after the other, with the lines `xs`;
* `Trying`            the command under way, with the lines sent for it so far;
* `Complete`          all commands passed;
* `Failed`            some passed, and the next one ended with an exception that ends `start`.

Each of them is kept by every step of the connection that is not the next call of the task.
-/

namespace Atsq
open Py

/-- the ends of a call that has sent nothing -/
def Outcome.unsent : Outcome → Bool
  | .renderError _ | .assertionError => true
  | _ => false

namespace Conn
open Session

def LineOf (x : Setup) (y : Sent) : Prop := renderCommand x.cmd [] none x.params = .ok y.line

/-- all answers but the last are floods, and with the last one the command is done -/
structure Passed (s : Conn) (x : Setup) (xs : List Sent) : Prop where
  lines : ∀ y ∈ xs, LineOf x y
  answers : ∃ (floods : List Ans) (a : Ans),
    List.Forall₂ (fun y a => Answered s.received y.mark a.1 a.2) xs (floods ++ [a]) ∧
      (∀ b ∈ floods, Flooded b) ∧ (a.2.ok = true ∨ x.cosmetic = true)

def Passing (s : Conn) (done : List Setup) (xs : List Sent) : Prop :=
  ∃ blocks : List (List Sent), blocks.flatten = xs ∧ List.Forall₂ (Passed s) done blocks

inductive Trying (cfg : Config) (s : Conn) (c : Caller) (x : Setup) (base xs : List Sent) :
    Prop where
  | sent {line : Bytes} {ys zs : List Sent} {as : List Ans} :
      renderCommand x.cmd [] none x.params = .ok line → Attempts cfg s c line base ys zs as →
      xs = ys ++ zs → Trying cfg s c x base xs
  | unsent {o : Outcome} : s.session.sentBy c = base → xs = [] → (s.execs c).pc = .finished o →
      o.unsent = true → Trying cfg s c x base xs

structure Complete (cfg : ClientConfig) (s : Conn) (c : Caller) : Prop where
  passing : Passing s cfg.setup (s.session.sentBy c)
  free : (s.execs c).pc.free = true

inductive Failed (cfg : ClientConfig) (s : Conn) (c : Caller) : StartError → Prop where
  /-- before the first command -/
  | greeting {e : StartError} : e.ofGreeting = true → s.session.sentBy c = [] →
      (s.execs c).pc.free = true → Failed cfg s c e
  /-- in the command `x`, with its exception -/
  | command {done rest : List Setup} {x : Setup} {base xs : List Sent} {o : Outcome} :
      cfg.setup = done ++ x :: rest → Passing s done base → s.session.sentBy c = base ++ xs →
      (∀ y ∈ xs, LineOf x y) → (s.execs c).pc = .finished o → x.fatal o = true →
      Failed cfg s c (.command o)

/-! ## later -/

section
variable {cfg : Config} {s s' : Conn} {c : Caller}

theorem Passed.mono {x : Setup} {xs : List Sent} (h : Passed s x xs)
    (hmarks : ∀ y ∈ xs, y.mark ≤ s.received.length) (hreceived : s.received <+: s'.received) :
    Passed s' x xs := by
  obtain ⟨floods, a, hans, hfl, hlast⟩ := h.answers
  obtain ⟨more, hmore⟩ := hreceived
  refine ⟨h.lines, floods, a, ?_, hfl, hlast⟩
  rw [← hmore]
  exact List.Forall₂.imp (fun y a ha => Answered.append ha.2 ha.1 more)
    ((List.forall₂_and_left xs (floods ++ [a])).mpr ⟨hmarks, hans⟩)

theorem Passing.mono {done : List Setup} {xs : List Sent} (hb : Base s) (h : Passing s done xs)
    (hxs : ∀ y ∈ xs, y ∈ s.session.sentBy c) (hreceived : s.received <+: s'.received) :
    Passing s' done xs := by
  obtain ⟨blocks, rfl, hall⟩ := h
  refine ⟨blocks, rfl, ?_⟩
  have hmarks : ∀ y ∈ blocks.flatten, y.mark ≤ s.received.length := fun y hy =>
    mark_of_mem_sentBy hb (hxs y hy)
  clear hxs
  induction hall with
  | nil => exact .nil
  | cons hx _ ih =>
    rw [List.flatten_cons] at hmarks
    refine .cons (hx.mono (fun y hy => hmarks y (List.mem_append_left _ hy)) hreceived) (ih ?_)
    exact fun y hy => hmarks y (List.mem_append_right _ hy)

theorem Passing.nil (s : Conn) : Passing s [] [] := ⟨[], rfl, .nil⟩

theorem Passing.concat {done : List Setup} {x : Setup} {base xs : List Sent}
    (h : Passing s done base) (hx : Passed s x xs) : Passing s (done ++ [x]) (base ++ xs) := by
  obtain ⟨blocks, hflat, hall⟩ := h
  refine ⟨blocks ++ [xs], ?_, List.rel_append hall (.cons hx .nil)⟩
  rw [List.flatten_append, hflat, List.flatten_singleton]

theorem still_of_free {a : Action} (hb : Base s) (hs : s.step cfg a = some s') (ha : ¬ Starts c a)
    (hfree : (s.execs c).pc.free = true) :
    Steady s.session s'.session c ∧ (s'.execs c).pc = (s.execs c).pc := by
  have contra : ∀ {pc : ExecPc}, (s.execs c).pc = pc → pc.free = false → False := by
    intro pc hpc hf
    rw [hpc, hf] at hfree
    cases hfree
  have critical : (s.execs c).pc.critical = true → False := by
    intro hc
    rw [ExecPc.critical_of_free hfree] at hc
    cases hc
  cases step_call hb hs c ha with
  | still hst hpc => exact ⟨hst, hpc⟩
  | handOver _ hpc => exact (contra hpc rfl).elim
  | await _ hpc _ => exact (contra hpc rfl).elim
  | close _ _ hc _ _ => exact (critical hc).elim
  | answer _ _ _ hc _ _ => exact (critical hc).elim
  | stop _ _ hn _ _ _ =>
    rw [hn] at hfree
    cases hfree
  | retry _ hpc _ _ => exact (contra hpc rfl).elim

theorem Trying.sentBy {x : Setup} {base xs : List Sent} (h : Trying cfg s c x base xs) :
    s.session.sentBy c = base ++ xs := by
  cases h with
  | sent _ hatt hxs => rw [hxs, hatt.sent]
  | unsent hsent hxs _ _ => rw [hxs, hsent, List.append_nil]

theorem Trying.lines {x : Setup} {base xs : List Sent} (h : Trying cfg s c x base xs) :
    ∀ y ∈ xs, LineOf x y := by
  cases h with
  | sent hline hatt hxs =>
    intro y hy
    rw [hxs] at hy
    exact hline.trans (congrArg Except.ok (hatt.lines y hy).symm)
  | unsent _ hxs _ _ =>
    rw [hxs]
    exact fun y hy => absurd hy List.not_mem_nil

theorem Trying.passed {x : Setup} {base xs : List Sent} (h : Trying cfg s c x base xs) {o : Outcome}
    (hpc : (s.execs c).pc = .finished o) (ho : x.fatal o = false) : Passed s x xs := by
  refine ⟨h.lines, ?_⟩
  cases h with
  | sent hline hatt hxs =>
    have hearly : o.early = false := by
      cases o <;> first | rfl | cases ho
    obtain ⟨floods, a, rfl, has, hfl, rfl⟩ := hatt.finished hpc hearly
    rw [List.append_nil] at hxs
    refine ⟨floods, a, ?_, hfl, ?_⟩
    · rw [hxs, ← has]
      exact hatt.answered
    · -- an error passes for a cosmetic command only
      unfold resultOf at ho
      split at ho
      · rename_i hok
        exact Or.inl hok
      · exact Or.inr (Bool.not_eq_false' _ ▸ ho)
  | unsent _ _ hpc' hun =>
    rw [hpc] at hpc'
    cases hpc'
    cases o <;> first | cases hun; done | cases ho

/-! ## every step -/

theorem Trying.step {a : Action} {x : Setup} {base xs : List Sent} (hb : Base s)
    (hs : s.step cfg a = some s') (ha : ¬ Starts c a) (h : Trying cfg s c x base xs) :
    ∃ xs', Trying cfg s' c x base xs' := by
  cases h with
  | sent hline hatt _ =>
    obtain ⟨ys', zs', as', hatt', _⟩ := step_attempts hb hs ha hatt
    exact ⟨_, .sent hline hatt' rfl⟩
  | unsent hsent hxs hpc ho =>
    obtain ⟨hst, hpc'⟩ := still_of_free hb hs ha (by rw [hpc]; rfl)
    exact ⟨[], .unsent (hst.sent.trans hsent) rfl (hpc'.trans hpc) ho⟩

theorem Complete.step {cc : ClientConfig} {a : Action} (hb : Base s)
    (hs : s.step cfg a = some s') (ha : ¬ Starts c a) (h : Complete cc s c) : Complete cc s' c := by
  obtain ⟨hst, hpc⟩ := still_of_free hb hs ha h.free
  refine ⟨?_, by rw [hpc]; exact h.free⟩
  rw [hst.sent]
  exact h.passing.mono hb (fun _ hy => hy) hst.received

theorem Failed.step {cc : ClientConfig} {a : Action} {e : StartError} (hb : Base s)
    (hs : s.step cfg a = some s') (ha : ¬ Starts c a) (h : Failed cc s c e) :
    Failed cc s' c e := by
  cases h with
  | greeting he hsent hfree =>
    obtain ⟨hst, hpc⟩ := still_of_free hb hs ha hfree
    exact .greeting he (hst.sent.trans hsent) (by rw [hpc]; exact hfree)
  | command hsetup hpass hsent hlines hpc ho =>
    obtain ⟨hst, hpc'⟩ := still_of_free hb hs ha (by rw [hpc]; rfl)
    have hbase : ∀ y ∈ _, y ∈ s.session.sentBy c := fun y hy => by
      rw [hsent]
      exact List.mem_append_left _ hy
    exact .command hsetup (hpass.mono hb hbase hst.received) (hst.sent.trans hsent) hlines
      (hpc'.trans hpc) ho

theorem trying_start {n : Nat} {x : Setup} (hb : Base s)
    (hs : s.step cfg (.exec n x.cmd [] none x.params) = some s') :
    Trying cfg s' (.task n) x (s.session.sentBy (.task n)) [] ∧ s'.received = s.received := by
  have hstep := hs
  simp only [Conn.step] at hstep
  split at hstep
  · cases hstep
    cases hr : renderCommand x.cmd [] none x.params with
    | error e =>
      refine ⟨.unsent rfl rfl (o := .renderError e) ?_ rfl, rfl⟩
      unfold startExec
      simp only []
      rw [setExec_self]
    | ok line =>
      rw [hr] at hs
      have hbegin : s.startExec cfg (.task n) (.ok line)
          = startAttempt cfg (s.setExec (.task n) { line := line }) (.task n) 0 := rfl
      unfold startAttempt at hbegin
      by_cases hn : ((0 : Nat) : Int) < cfg.floodRetries + 1
      · rw [if_pos hn] at hbegin
        have hpc : ((s.startExec cfg (.task n) (.ok line)).execs (.task n)).pc = .locking := by
          rw [hbegin, setExec_self]
        have hstarts : Starts (.task n) (.exec n x.cmd [] none x.params) := rfl
        obtain ⟨hatt, htext⟩ := start_call hb hstarts hs hpc
        refine ⟨.sent htext hatt rfl, ?_⟩
        rw [hbegin]
        rfl
      · rw [if_neg hn] at hbegin
        rw [hbegin]
        exact ⟨.unsent rfl rfl (finish_pc _) rfl, rfl⟩
  · cases hstep

end

end Conn
end Atsq
