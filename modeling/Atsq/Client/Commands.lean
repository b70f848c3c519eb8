import Atsq.Client.State
import Atsq.Connection.Output
import Atsq.Protocol.OneLine

/-!
# The commands of `Client`

* `Command`     the arguments of one call of `exec`, and what is returned of its rows;
* `Clean`       the command name, the options and the keys are words;
* `Carries`     a line in which a server reads the command.

`Client` has the convenience commands under their names.  The line of a clean command is one line,
and it carries the command, whatever the values: `Clean.plainLine`, `Clean.carries`.
-/

namespace Atsq
open Py

/-! ## commands -/

/-- what a method returns of the rows: nothing, all, `rows[0]` or `rows[0][key]` -/
inductive Returns where
  | nothing
  | rows
  | first
  | field (key : Str)

inductive RowError where
  | indexError
  | keyError (key : Str)
deriving DecidableEq

inductive Returned where
  | nothing
  | rows (rows : List Row)
  | row (row : Row)
  | text (text : Str)
deriving DecidableEq

def Returns.read (returns : Returns) (rows : List Row) : Except RowError Returned :=
  match returns, rows with
  | .nothing, _ => .ok .nothing
  | .rows, rows => .ok (.rows rows)
  | .first, row :: _ => .ok (.row row)
  | .field key, row :: _ =>
    match getItem row key with
    | some text => .ok (.text text)
    | none => .error (.keyError key)
  | _, [] => .error .indexError

structure Command where
  cmd : Str
  options : List Str := []
  params : Block := []
  returns : Returns := .nothing

/-- `await self.exec(cmd, *options, **params)` of a task on its connection -/
def Command.exec (x : Command) (n : Nat) : Action := .exec n x.cmd x.options none x.params

def arg (key : String) (value : Scalar) : Str × Value := (lit key, .scalar value)

namespace Client

def use (sid : Scalar) : Command := { cmd := lit "use", params := [arg "sid" sid] }

def serverNotifyRegister (event : optParam Scalar (.text (lit "server")))
    (id : optParam Scalar .none) : Command :=
  { cmd := lit "servernotifyregister", params := [arg "event" event, arg "id" id] }

def whoami : Command := { cmd := lit "whoami", returns := .first }

def sendKeepalive : Command := { cmd := lit "whoami" }

def version : Command := { cmd := lit "version", returns := .first }

def clientList (options : List Str) : Command :=
  { cmd := lit "clientlist", options := options, returns := .rows }

def clientInfo (clid : Scalar) : Command :=
  { cmd := lit "clientinfo", params := [arg "clid" clid], returns := .first }

def clientDbidFromUid (cluid : Scalar) : Command :=
  { cmd := lit "clientgetdbidfromuid", params := [arg "cluid" cluid],
    returns := .field (lit "cldbid") }

def serverGroupsByClient (cldbid : Scalar) : Command :=
  { cmd := lit "servergroupsbyclientid", params := [arg "cldbid" cldbid], returns := .rows }

def serverGroupAddClient (sgid cldbid : Scalar) : Command :=
  { cmd := lit "servergroupaddclient", params := [arg "sgid" sgid, arg "cldbid" cldbid] }

def serverGroupDelClient (sgid cldbid : Scalar) : Command :=
  { cmd := lit "servergroupdelclient", params := [arg "sgid" sgid, arg "cldbid" cldbid] }

def setClientChannelGroup (cgid cid cldbid : Scalar) : Command :=
  { cmd := lit "setclientchannelgroup",
    params := [arg "cgid" cgid, arg "cid" cid, arg "cldbid" cldbid] }

/-- `props` are further keyword arguments -/
def channelCreate (channelName : Scalar) (props : Block) : Command :=
  { cmd := lit "channelcreate", params := arg "channel_name" channelName :: props,
    returns := .field (lit "cid") }

def channelAddPerm (cid permsid permvalue : Scalar) : Command :=
  { cmd := lit "channeladdperm",
    params := [arg "cid" cid, arg "permsid" permsid, arg "permvalue" permvalue] }

def channelClientAddPerm (cid cldbid permsid permvalue : Scalar) : Command :=
  { cmd := lit "channelclientaddperm",
    params := [arg "cid" cid, arg "cldbid" cldbid, arg "permsid" permsid,
      arg "permvalue" permvalue] }

def channelMove (cid cpid : Scalar) (order : optParam Scalar .none) : Command :=
  { cmd := lit "channelmove", params := [arg "cid" cid, arg "cpid" cpid, arg "order" order] }

def sendTextMessage (target msg : Scalar) (targetmode : optParam Scalar (.text (lit "1"))) :
    Command :=
  { cmd := lit "sendtextmessage",
    params := [arg "targetmode" targetmode, arg "target" target, arg "msg" msg] }

def clientKick (clid : Scalar) (reasonid : optParam Scalar (.text (lit "5")))
    (reasonmsg : optParam Scalar .none) : Command :=
  { cmd := lit "clientkick",
    params := [arg "clid" clid, arg "reasonid" reasonid, arg "reasonmsg" reasonmsg] }

end Client

/-- the call of a command of `start` -/
def Setup.command (x : Setup) : Command := { cmd := x.cmd, params := x.params }

/-! ## clean commands -/

/-- a text without separators and without the bytes of a terminator -/
def Word (k : Str) : Prop := PlainKey k ∧ '\n'.toNat ∉ k ∧ '\r'.toNat ∉ k

instance (k : Str) : Decidable (Word k) :=
  inferInstanceAs (Decidable (PlainKey k ∧ '\n'.toNat ∉ k ∧ '\r'.toNat ∉ k))

structure Command.Clean (x : Command) : Prop where
  cmd : x.cmd ≠ [] ∧ Word x.cmd
  options : ∀ o ∈ x.options, Word o
  keys : ∀ k ∈ x.params.map Prod.fst, Word k

def Command.cleanCheck (x : Command) : Bool :=
  !x.cmd.isEmpty && (x.cmd :: x.options ++ x.params.map Prod.fst).all fun k => decide (Word k)

theorem Command.clean_of_check {x : Command} (h : x.cleanCheck = true) : x.Clean := by
  unfold cleanCheck at h
  rw [Bool.and_eq_true, List.all_eq_true] at h
  obtain ⟨hne, hall⟩ := h
  have hword : ∀ k ∈ x.cmd :: x.options ++ x.params.map Prod.fst, Word k := fun k hk =>
    of_decide_eq_true (hall k hk)
  refine ⟨⟨fun he => ?_, hword _ List.mem_cons_self⟩, fun o ho => hword o ?_,
    fun k hk => hword k ?_⟩
  · rw [he] at hne
    cases hne
  · exact List.mem_cons_of_mem _ (List.mem_append_left _ ho)
  · exact List.mem_cons_of_mem _ (List.mem_append_right _ hk)

theorem clean_setup {cfg : ClientConfig} {x : Setup} (hx : x ∈ cfg.setup) : x.command.Clean := by
  rcases List.mem_append.mp hx with hx | hx
  · rcases List.mem_append.mp hx with hx | hx
    · unfold ClientConfig.use at hx
      split at hx
      · rw [List.mem_singleton.mp hx]
        exact Command.clean_of_check rfl
      · rw [List.mem_singleton.mp hx]
        exact Command.clean_of_check rfl
      · exact absurd hx List.not_mem_nil
    · obtain ⟨nick, _, rfl⟩ := List.mem_map.mp hx
      exact Command.clean_of_check rfl
  · obtain ⟨⟨event, channelId⟩, _, rfl⟩ := List.mem_map.mp hx
    exact Command.clean_of_check rfl

/-! ## the line of a clean command -/

/-- what a server reads in the line: the name of the command, and the rows that were asked for -/
structure Carries (x : Command) (line : Bytes) : Prop where
  name : encode x.cmd = some (partition (UInt8.ofNat ' '.toNat) line).1
  rows : parseDataLine (partition (UInt8.ofNat ' '.toNat) line).2.2
    = ((askedRows x.options none x.params).map toDict).filter (· ≠ [])

theorem mem_line {cmd : Str} {options : List Str} {params : Block} {line : Bytes}
    (h : renderCommand cmd options none params = .ok line) {c : Code} (hc : c < 0x80)
    (hbar : c ∉ lit "|") (hspace : c ∉ lit " ") (hmem : UInt8.ofNat c ∈ line) :
    c ∈ cmd ∨ ∃ x ∈ wireEntries options none params, c ∈ x := by
  by_cases hw : wireEntries options none params = []
  · exact Or.inl ((mem_encode (renderCommand_bare h hw) c hc).mp hmem)
  · have htext := (mem_encode (renderCommand_spaced h hw) c hc).mp hmem
    rcases List.mem_append.mp htext with htext | htext
    · exact Or.inl ((List.mem_append.mp htext).resolve_right hspace)
    · exact Or.inr ((mem_text_askedProps c hbar hspace).mp htext)

namespace Command
variable {x : Command} {line : Bytes}

theorem Clean.plainKeys (h : x.Clean) : PlainKeys x.options none x.params where
  params _ hi := (h.keys _ (List.mem_map_of_mem hi)).1
  blocks _ hb := absurd hb List.not_mem_nil
  options o ho := (h.options o ho).1

theorem Clean.notMem (h : x.Clean) (hr : renderCommand x.cmd x.options none x.params = .ok line)
    {c : Code} (hc : c = '\n'.toNat ∨ c = '\r'.toNat) : UInt8.ofNat c ∉ line := by
  have hword : ∀ {k : Str}, Word k → c ∉ k := fun hk => by
    rcases hc with rfl | rfl
    · exact hk.2.1
    · exact hk.2.2
  have hplain : c < 0x80 ∧ c ∉ lit "|" ∧ c ∉ lit " " ∧ c ∉ lit "=" ∧ c ∉ lit "-" ∧
      c ∈ hiddenChars := by
    rcases hc with rfl | rfl <;> decide
  obtain ⟨hascii, hbar, hspace, heq, hdash, hhidden⟩ := hplain
  intro hmem
  rcases mem_line hr hascii hbar hspace hmem with hcmd | ⟨entry, hentry, hmem⟩
  · exact hword h.cmd.2 hcmd
  · rcases mem_wireEntries.mp hentry with ⟨item, hitem, v, _, rfl⟩ | ⟨o, ho, rfl⟩
    · have hitem : item ∈ x.params := by
        simpa [requestItems] using hitem
      rcases List.mem_append.mp hmem with hmem | hmem
      · rcases List.mem_append.mp hmem with hmem | hmem
        · exact hword (h.keys _ (List.mem_map_of_mem hitem)) hmem
        · exact heq hmem
      · exact notMem_escape v.str c hhidden hmem
    · rcases List.mem_append.mp hmem with hmem | hmem
      · exact hdash hmem
      · exact hword (h.options o ho) hmem

theorem Clean.plainLine (h : x.Clean)
    (hr : renderCommand x.cmd x.options none x.params = .ok line) :
    SshTransport.PlainLine line := by
  have hCR : CR ∉ line := h.notMem hr (Or.inr rfl)
  exact ⟨h.notMem hr (Or.inl rfl), fun he => hCR (List.mem_of_head? he),
    fun he => hCR (List.mem_of_getLast? he)⟩

/-- **The server reads the command that was asked for.** -/
theorem Clean.carries (h : x.Clean)
    (hr : renderCommand x.cmd x.options none x.params = .ok line) : Carries x line := by
  obtain ⟨_, hspace, hline⟩ := renderCommand_rest hr
  have hrows := parseText_askedProps h.plainKeys
  rcases hline with hline | ⟨hline, htext⟩
  · obtain ⟨u, rest, hu, hrest, rfl⟩ := encode_append_eq hline
    obtain ⟨name, sep, hname, hsep, rfl⟩ := encode_append_eq hu
    have hn : UInt8.ofNat ' '.toNat ∉ name := fun hm =>
      hspace ((mem_encode hname _ (by decide)).mp hm)
    have hsep' : sep = [UInt8.ofNat ' '.toNat] := by
      have hone : encode (lit " ") = some [UInt8.ofNat ' '.toNat] := by decide
      exact Option.some.inj (hsep.symm.trans hone)
    have hcut : partition (UInt8.ofNat ' '.toNat) (name ++ sep ++ rest) = (name, true, rest) := by
      rw [hsep', List.append_assoc, List.singleton_append, partition_append _ _ _ hn]
    refine ⟨?_, ?_⟩
    · rw [hcut]
      exact hname
    · rw [hcut, parseDataLine_encode hrest]
      exact hrows
  · have hn : UInt8.ofNat ' '.toNat ∉ line := fun hm =>
      hspace ((mem_encode hline _ (by decide)).mp hm)
    refine ⟨?_, ?_⟩
    · rw [partition_of_notMem _ _ hn]
      exact hline
    · rw [partition_of_notMem _ _ hn, ← hrows, htext]
      rfl

end Command

end Atsq
