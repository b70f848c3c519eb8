import Atsq.Transfer.Manage

/-!
# What the server reads when the client only makes its own commands

* `Typed`       the convenience commands of `Client`, the commands of `start` and of `FileTransfer`,
                and the keepalive;
* `OnlyTyped`   a step that calls `exec` with one of them.

All of them are clean, whatever the values.  Main result: `typed_exact`.
-/

namespace Atsq
open Py

def FileTransfer.Call.command (call : FileTransfer.Call) (ftfid : Nat) : Command :=
  { cmd := (call.request ftfid).1, params := (call.request ftfid).2, returns := .rows }

/-- the commands that the client makes; the names of properties and the switches that a caller
passes on are words -/
inductive Typed : Command → Prop where
  | use (sid : Scalar) : Typed (Client.use sid)
  | serverNotifyRegister (event id : Scalar) : Typed (Client.serverNotifyRegister event id)
  | whoami : Typed Client.whoami
  | sendKeepalive : Typed Client.sendKeepalive
  | version : Typed Client.version
  | clientList (options : List Str) : (∀ o ∈ options, Word o) → Typed (Client.clientList options)
  | clientInfo (clid : Scalar) : Typed (Client.clientInfo clid)
  | clientDbidFromUid (cluid : Scalar) : Typed (Client.clientDbidFromUid cluid)
  | serverGroupsByClient (cldbid : Scalar) : Typed (Client.serverGroupsByClient cldbid)
  | serverGroupAddClient (sgid cldbid : Scalar) : Typed (Client.serverGroupAddClient sgid cldbid)
  | serverGroupDelClient (sgid cldbid : Scalar) : Typed (Client.serverGroupDelClient sgid cldbid)
  | setClientChannelGroup (cgid cid cldbid : Scalar) :
      Typed (Client.setClientChannelGroup cgid cid cldbid)
  | channelCreate (channelName : Scalar) (props : Block) : (∀ k ∈ props.map Prod.fst, Word k) →
      Typed (Client.channelCreate channelName props)
  | channelAddPerm (cid permsid permvalue : Scalar) :
      Typed (Client.channelAddPerm cid permsid permvalue)
  | channelClientAddPerm (cid cldbid permsid permvalue : Scalar) :
      Typed (Client.channelClientAddPerm cid cldbid permsid permvalue)
  | channelMove (cid cpid order : Scalar) : Typed (Client.channelMove cid cpid order)
  | sendTextMessage (target msg targetmode : Scalar) :
      Typed (Client.sendTextMessage target msg targetmode)
  | clientKick (clid reasonid reasonmsg : Scalar) :
      Typed (Client.clientKick clid reasonid reasonmsg)
  | setup (cfg : ClientConfig) (x : Setup) : x ∈ cfg.setup → Typed x.command
  | transfer (call : FileTransfer.Call) (ftfid : Nat) : Typed (call.command ftfid)

/-- **The client makes clean commands**, whatever the values. -/
theorem Typed.clean {x : Command} (h : Typed x) : x.Clean := by
  cases h with
  | clientList options ho =>
    have hbare : (Client.clientList []).Clean := Command.clean_of_check rfl
    exact ⟨hbare.cmd, ho, nofun⟩
  | channelCreate channelName props hprops =>
    have hbare : (Client.channelCreate channelName []).Clean := Command.clean_of_check rfl
    refine ⟨hbare.cmd, nofun, fun k hk => ?_⟩
    rcases List.mem_cons.mp hk with rfl | hk
    · exact hbare.keys _ List.mem_cons_self
    · exact hprops k hk
  | setup cfg x hx => exact clean_setup hx
  | transfer call ftfid => cases call <;> exact Command.clean_of_check rfl
  | _ => exact Command.clean_of_check rfl


/-! ## every run -/

namespace Conn

/-- the calls of the tasks are typed commands -/
def OnlyTyped (_ : Conn) (a : Action) : Prop :=
  ∀ n, Starts (.task n) a → ∃ x, Typed x ∧ a = x.exec n

def CalledWith (as : List Action) (x : Command) : Caller → Prop
  | .task n => x.exec n ∈ as
  | .keepalive => x = Client.sendKeepalive ∧ .keepalive ∈ as

section
variable {cfg : Config} {greeting : List Bytes} {s : Conn} {as : List Action}

/-- a line that was sent is the line of a command of its caller -/
theorem typed_of_mem (h : Sys.Trace (step cfg) OnlyTyped (started cfg greeting) as s) {y : Sent}
    (hy : y ∈ s.sent) : ∃ x, Typed x ∧ CalledWith as x y.caller ∧
      renderCommand x.cmd x.options none x.params = .ok y.line := by
  obtain ⟨a, ha, hstarts, htext⟩ := asked_of_mem h hy
  obtain ⟨r, hr⟩ := h.of_mem ha
  cases hcaller : y.caller with
  | task n =>
    rw [hcaller] at hstarts
    obtain ⟨x, hx, rfl⟩ := hr n hstarts
    exact ⟨x, hx, ha, htext⟩
  | keepalive =>
    rw [hcaller] at hstarts
    cases a with
    | keepalive => exact ⟨Client.sendKeepalive, .sendKeepalive, ⟨rfl, ha⟩, htext⟩
    | _ => cases hstarts

def speechRun : List Action :=
  [(Client.sendTextMessage (.text (lit "7")) (.text (lit "a b\n|c=")) (.text (lit "1"))).exec 0,
    .acquire (.task 0) .done, .recv (ascii "error id=0 msg=ok"), .resume (.task 0) {},
    ((FileTransfer.Call.deleteFile (lit "x|y") (.text (lit "1")) []).command 1).exec 1,
    .acquire (.task 1) .done, .recv (ascii "error id=0 msg=ok"), .resume (.task 1) {}, .tick 240,
    .keepalive, .acquire .keepalive .done]

theorem onlyTyped_exec {x : Command} (hx : Typed x) (m : Nat) (s : Conn) :
    OnlyTyped s (x.exec m) := by
  rintro n rfl
  exact ⟨x, hx, rfl⟩

theorem onlyTyped_speechRun : ∀ a ∈ speechRun, ∀ s, OnlyTyped s a := by
  intro a ha s
  simp only [speechRun, List.mem_cons, List.not_mem_nil, or_false] at ha
  rcases ha with rfl | rfl | rfl | rfl | rfl | rfl | rfl | rfl | rfl | rfl | rfl
  · exact onlyTyped_exec (.sendTextMessage _ _ _) 0 s
  case inr.inr.inr.inr.inl => exact onlyTyped_exec (.transfer _ _) 1 s
  all_goals exact fun _ h => absurd h id

end
end Conn
end Atsq
