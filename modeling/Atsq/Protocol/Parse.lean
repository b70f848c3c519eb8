import Mathlib.Data.Rat.Defs
import Atsq.Lib.Utf8
import Atsq.Lib.Int
import Atsq.Escape

/-!
# What a received line means: `atsq.protocol` (parsing), `atsq.errors`, `atsq.events`

* `isEventLine`, `isErrorLine`   the prefix tests of the receive loop;
* `parseErrorLine`               a response terminator, or the `ValueError` it raises;
* `parseDataLine`, `parseDataBlock`   the rows of one data line, of all data lines of a response;
* `Event.fromLine`               a notification;
* `QueryError.create`, `retryAfter`   the error of an answer and its flood hint;
* `searchWait_eq_some`, `searchWait_eq_none`   which number the hint is.

A `dict[str, str]` is a `Row`, the list of its items in insertion order.
-/

namespace Atsq
open Py

/-- `dict[str, str]` -/
abbrev Row := List (Str × Str)

/-! ## line kinds -/

def isEventLine (line : Bytes) : Bool := (ascii "notify").isPrefixOf line
def isErrorLine (line : Bytes) : Bool :=
  (ascii "error ").isPrefixOf line || line == ascii "error"

/-- neither blank nor an event nor a terminator: what the receive loop puts into the buffer -/
def isDataLine (line : Bytes) : Bool := !line.isEmpty && !isEventLine line && !isErrorLine line

theorem isErrorLine_of_isEventLine (line : Bytes) (h : isEventLine line = true) :
    isErrorLine line = false := by
  obtain ⟨t, rfl⟩ := List.isPrefixOf_iff_prefix.mp h
  rfl

theorem ne_nil_of_isErrorLine {line : Bytes} (h : isErrorLine line = true) : line ≠ [] := by
  rintro rfl
  cases h

theorem isEventLine_of_isErrorLine (line : Bytes) (h : isErrorLine line = true) :
    isEventLine line = false := by
  cases he : isEventLine line with
  | false => rfl
  | true => rw [isErrorLine_of_isEventLine line he] at h; cases h

/-! ## terminators -/

structure ErrorLine where
  id : Int
  msg : Str
  extra : Row
deriving DecidableEq

def ErrorLine.ok (e : ErrorLine) : Bool := e.id == 0

/-- the two places where `parse_error_line` raises `ValueError` -/
inductive ParseError where
  | notErrorLine (line : Bytes)
  | invalidInt (text : Str)
deriving DecidableEq

/-- the loop over the chunks after `error` -/
def parseProps (chunks : List Str) : Row :=
  chunks.foldl (fun props chunk =>
    if chunk = [] then props
    else
      let (key, _, value) := partition '='.toNat chunk
      setItem props key (unescape value)) []

def parseErrorLine (line : Bytes) : Except ParseError ErrorLine :=
  if isErrorLine line then
    let props := parseProps (((decode line).splitOn ' '.toNat).drop 1)
    let idText := (getItem props (lit "id")).getD (lit "-1")
    match int idText with
    | none => .error (.invalidInt idText)
    | some id =>
      let props := delItem props (lit "id")
      let msg := (getItem props (lit "msg")).getD []
      .ok { id := id, msg := msg, extra := delItem props (lit "msg") }
  else .error (.notErrorLine line)

/-- a terminator that does not stop the receive loop -/
def wellFormed (line : Bytes) : Bool := (parseErrorLine line).toOption.isSome

/-! ## data -/

/-- one property of a row: `key=value`, or a bare `key` -/
def parseProp (prop : Str) : Str × Str :=
  let (key, sep, value) := partition '='.toNat prop
  (key, if sep then unescape value else [])

/-- one row: the properties between the spaces -/
def parseRow (text : Str) : Row :=
  (text.splitOn ' '.toNat).foldl (fun row prop =>
    if prop = [] then row else setItem row (parseProp prop).1 (parseProp prop).2) []

/-- a row counts when it is not empty -/
def keepRow (row : Row) : List Row := if row = [] then [] else [row]

def parseDataLine (line : Bytes) : List Row :=
  (line.splitOn (UInt8.ofNat '|'.toNat)).flatMap fun raw => keepRow (parseRow (decode raw))

def parseDataBlock (lines : List Bytes) : List Row := lines.flatMap parseDataLine

theorem parseDataBlock_append (a b : List Bytes) :
    parseDataBlock (a ++ b) = parseDataBlock a ++ parseDataBlock b := by
  simp [parseDataBlock, List.flatMap_append]

/-! ## events -/

structure Event where
  name : Str
  rows : List Row
  raw : Bytes
deriving DecidableEq

/-- `str.removeprefix` -/
def removePrefix (p s : Str) : Str := if p.isPrefixOf s then s.drop p.length else s

def Event.fromLine (line : Bytes) : Event :=
  let (head, sep, rest) := partition (UInt8.ofNat ' '.toNat) line
  let rows := if sep then parseDataLine rest else []
  { name := removePrefix (lit "notify") (decode head)
    rows := if rows = [] then [[]] else rows
    raw := line }

/-! ## errors -/

/-- `FLOOD_ERROR_ID` -/
def floodErrorId : Int := 524

/-- a `QueryError`; `flood` tells the subclass `FloodError` -/
structure QueryError where
  errorId : Int
  msg : Str
  extra : Row
  flood : Bool
deriving DecidableEq

def QueryError.create (errorId : Int) (msg : Str) (extra : Row) : QueryError :=
  { errorId := errorId, msg := msg, extra := extra, flood := errorId == floodErrorId }

/-- `str` of a `QueryError` -/
def QueryError.text (err : QueryError) : Str :=
  lit "error " ++ intText err.errorId ++ lit ": " ++ err.msg
    ++ err.extra.flatMap fun (k, v) => lit " " ++ k ++ lit "=" ++ v

/-- `wait (\d+) second` at the start of the text -/
def matchWait (s : Str) : Option Nat :=
  if (lit "wait ").isPrefixOf s then
    let t := s.drop 5
    let ds := t.takeWhile fun c => (decimal c).isSome
    if ds ≠ [] ∧ (lit " second").isPrefixOf (t.drop ds.length) then
      some (ofDigits (ds.filterMap decimal))
    else none
  else none

/-- the first match of the pattern in the text (`re.search`) -/
def searchWait : Str → Option Nat
  | [] => none
  | c :: s => (matchWait (c :: s)).or (searchWait s)

/-- `FloodError.retry_after`, in seconds -/
def QueryError.retryAfter (e : QueryError) : ℚ :=
  match searchWait ((getItem e.extra (lit "extra_msg")).getD []) with
  | some n => n
  | none => 1

example : parseErrorLine (ascii "error id=1024 msg=invalid\\sserverID")
    = .ok { id := 1024, msg := lit "invalid serverID", extra := [] } := by decide +kernel
example : searchWait (lit "please wait 30 seconds") = some 30 := by decide +kernel

/-! ## the flood hint -/

/-- the text begins with `wait N second`, for this number -/
def WaitHint (s : Str) (n : Nat) : Prop :=
  ∃ ds post, s = lit "wait " ++ (ds ++ (lit " second" ++ post)) ∧ ds ≠ [] ∧
    (∀ d ∈ ds, (decimal d).isSome = true) ∧ n = ofDigits (ds.filterMap decimal)

theorem matchWait_eq_some {s : Str} {n : Nat} : matchWait s = some n ↔ WaitHint s n := by
  constructor
  · intro h
    unfold matchWait at h
    split at h
    · rename_i hwait
      simp only [] at h
      split at h
      · rename_i hsecond
        obtain ⟨t, rfl⟩ := List.isPrefixOf_iff_prefix.mp hwait
        obtain ⟨post, hpost⟩ := List.isPrefixOf_iff_prefix.mp hsecond.2
        have hdrop : (lit "wait " ++ t).drop 5 = t := rfl
        rw [hdrop] at h hsecond hpost
        refine ⟨t.takeWhile fun c => (decimal c).isSome, post, ?_, hsecond.1, ?_,
          (Option.some.inj h).symm⟩
        · rw [hpost, List.prefix_iff_eq_append.mp (List.takeWhile_prefix _)]
        · intro d hd
          exact List.mem_takeWhile_imp (p := fun c => (decimal c).isSome) hd
      · cases h
    · cases h
  · rintro ⟨ds, post, rfl, hne, hds, rfl⟩
    have hdrop : (lit "wait " ++ (ds ++ (lit " second" ++ post))).drop 5
        = ds ++ (lit " second" ++ post) := rfl
    have htake : (ds ++ (lit " second" ++ post)).takeWhile (fun c => (decimal c).isSome) = ds := by
      rw [List.takeWhile_append_of_pos hds]
      have hstop : (lit " second" ++ post).takeWhile (fun c => (decimal c).isSome) = [] := rfl
      rw [hstop, List.append_nil]
    unfold matchWait
    rw [if_pos (List.isPrefixOf_iff_prefix.mpr (List.prefix_append _ _))]
    simp only [hdrop, htake]
    rw [List.drop_left, if_pos ⟨hne, List.isPrefixOf_iff_prefix.mpr (List.prefix_append _ _)⟩]

theorem not_waitHint_nil (n : Nat) : ¬ WaitHint [] n := by
  rintro ⟨ds, post, h, _⟩
  cases h

/-- the number of the first `wait N second` in the text -/
theorem searchWait_eq_some {s : Str} {n : Nat} : searchWait s = some n ↔
    ∃ pre rest, s = pre ++ rest ∧ WaitHint rest n ∧
      ∀ pre' rest' m, s = pre' ++ rest' → WaitHint rest' m → pre.length ≤ pre'.length := by
  induction s with
  | nil =>
    refine ⟨nofun, ?_⟩
    rintro ⟨pre, rest, h, hw, _⟩
    rw [(List.append_eq_nil_iff.mp h.symm).2] at hw
    exact absurd hw (not_waitHint_nil n)
  | cons c s ih =>
    rw [searchWait]
    constructor
    · intro h
      rcases Option.or_eq_some_iff.mp h with h | ⟨hnone, h⟩
      · exact ⟨[], c :: s, rfl, matchWait_eq_some.mp h, fun _ _ _ _ _ => Nat.zero_le _⟩
      · obtain ⟨pre, rest, rfl, hw, hfirst⟩ := ih.mp h
        refine ⟨c :: pre, rest, rfl, hw, fun pre' rest' m he hw' => ?_⟩
        cases pre' with
        | nil =>
          cases he
          rw [matchWait_eq_some.mpr hw'] at hnone
          cases hnone
        | cons d pre' =>
          have := hfirst pre' rest' m (List.cons.inj he).2 hw'
          simp only [List.length_cons]
          omega
    · rintro ⟨pre, rest, he, hw, hfirst⟩
      cases pre with
      | nil =>
        cases he
        rw [matchWait_eq_some.mpr hw]
        rfl
      | cons d pre =>
        have hnone : matchWait (c :: s) = none := by
          cases hm : matchWait (c :: s) with
          | none => rfl
          | some m =>
            have := hfirst [] (c :: s) m rfl (matchWait_eq_some.mp hm)
            cases this
        rw [hnone, Option.none_or]
        refine ih.mpr ⟨pre, rest, (List.cons.inj he).2, hw, fun pre' rest' m he' hw' => ?_⟩
        have := hfirst (c :: pre') rest' m (by rw [he']; rfl) hw'
        simp only [List.length_cons] at this
        omega

theorem searchWait_eq_none {s : Str} :
    searchWait s = none ↔ ∀ pre rest n, s = pre ++ rest → ¬ WaitHint rest n := by
  induction s with
  | nil =>
    refine ⟨fun _ pre rest n h => ?_, fun _ => rfl⟩
    rw [(List.append_eq_nil_iff.mp h.symm).2]
    exact not_waitHint_nil n
  | cons c s ih =>
    rw [searchWait, Option.or_eq_none_iff, ih]
    constructor
    · rintro ⟨hnone, hrest⟩ pre rest n he hw
      cases pre with
      | nil =>
        cases he
        rw [matchWait_eq_some.mpr hw] at hnone
        cases hnone
      | cons d pre => exact hrest pre rest n (List.cons.inj he).2 hw
    · intro h
      refine ⟨?_, fun pre rest n he => h (c :: pre) rest n (by rw [he]; rfl)⟩
      cases hm : matchWait (c :: s) with
      | none => rfl
      | some m => exact absurd (matchWait_eq_some.mp hm) (h [] _ m rfl)

end Atsq
