import Atsq.Protocol.Render

/-!
# Response terminators decode exactly

* `errorFields line`   the fields of a terminator, read from left to right;
* `lastId line`        the unescaped value of its last `id` field;
* `Spread props t`     the fields `props` one after the other, one or more spaces before each;
* `TerminatorLine`     a line made of `error`, the fields `id` and `msg` and the extra fields in any
                       order.

`parseErrorLine_terminator` says what the parser makes of such a line, `parseErrorLine_raises_iff`
on which lines it raises, and `terminators_decode` puts the two together.
-/

namespace Atsq
open Py

/-! ## the fields of a line -/

def errorFields (line : Bytes) : List (Str × Str) :=
  ((((decode line).splitOn ' '.toNat).drop 1).filter (· ≠ [])).map parseProp

def lastId (line : Bytes) : Option Str :=
  (((errorFields line).filter fun p => p.1 = lit "id").getLast?).map Prod.snd

theorem parseProp_eq (chunk : Str) : parseProp chunk
    = ((partition '='.toNat chunk).1, unescape (partition '='.toNat chunk).2.2) := by
  unfold parseProp
  by_cases h : '='.toNat ∈ chunk
  · obtain ⟨u, v, hc, hn⟩ := List.eq_append_cons_of_mem h
    rw [hc, partition_append _ _ _ hn]
    rfl
  · rw [partition_of_notMem _ _ h]
    rfl

theorem parseProps_eq (line : Bytes) :
    parseProps (((decode line).splitOn ' '.toNat).drop 1) = toDict (errorFields line) := by
  unfold parseProps toDict errorFields
  rw [List.foldl_map, List.foldl_filter]
  refine List.foldl_ext _ _ _ (fun props chunk _ => ?_)
  by_cases h : chunk = []
  · simp [h]
  · simp [h, parseProp_eq]

/-- the terminator as a function of its fields -/
theorem parseErrorLine_eq (line : Bytes) (h : isErrorLine line = true) :
    parseErrorLine line = match int ((lastId line).getD (lit "-1")) with
      | none => .error (.invalidInt ((lastId line).getD (lit "-1")))
      | some id =>
        let props := delItem (toDict (errorFields line)) (lit "id")
        .ok { id := id, msg := (getItem props (lit "msg")).getD []
              extra := delItem props (lit "msg") } := by
  unfold parseErrorLine lastId
  rewrite [if_pos h, parseProps_eq, ← getItem_toDict]
  rfl

/-! ## when it raises -/

/-- **`parse_error_line` raises exactly on the lines that are no terminators and on those whose last
`id` field is no number.** -/
theorem parseErrorLine_raises_iff (line : Bytes) : (∃ e, parseErrorLine line = .error e) ↔
    isErrorLine line = false ∨ ∃ v, lastId line = some v ∧ int v = none := by
  have hdefault : int (lit "-1") = some (-1) := by decide
  cases h : isErrorLine line with
  | false =>
    refine iff_of_true ⟨.notErrorLine line, ?_⟩ (Or.inl rfl)
    unfold parseErrorLine
    rw [h]
    rfl
  | true =>
    rw [parseErrorLine_eq line h]
    cases hid : lastId line with
    | none =>
      rw [Option.getD_none, hdefault]
      simp
    | some v =>
      rw [Option.getD_some]
      cases hv : int v with
      | none => exact iff_of_true ⟨_, rfl⟩ (Or.inr ⟨v, rfl, hv⟩)
      | some i => simp [hv]

/-- without an `id` field the id is `-1` -/
theorem parseErrorLine_no_id (line : Bytes) (h : isErrorLine line = true)
    (hid : lastId line = none) :
    ∃ msg extra, parseErrorLine line = .ok { id := -1, msg := msg, extra := extra } := by
  have hdefault : int (lit "-1") = some (-1) := by decide
  rw [parseErrorLine_eq line h, hid, Option.getD_none, hdefault]
  exact ⟨_, _, rfl⟩

/-! ## a terminator that a server sends -/

/-- the fields one after the other, one or more spaces before each -/
inductive Spread : List Str → Str → Prop where
  | nil : Spread [] []
  | cons (n : Nat) (prop : Str) {props : List Str} {t : Str} (h : Spread props t) :
      Spread (prop :: props) (List.replicate (n + 1) ' '.toNat ++ (prop ++ t))

def idField (id : Int) : Str := lit "id=" ++ intText id
def msgField (msg : Str) : Str := lit "msg=" ++ escape msg
def extraField (p : Str × Str) : Str := p.1 ++ lit "=" ++ escape p.2

/-- `error` and the fields in any order, any positive number of spaces before each -/
def TerminatorLine (id : Int) (msg : Str) (extra : Row) (line : Bytes) : Prop :=
  ∃ props t, props.Perm (idField id :: msgField msg :: extra.map extraField) ∧ Spread props t ∧
    encode (lit "error" ++ t) = some line

/-- the keys of the extra fields: distinct, other than `id` and `msg`, free of spaces and `=` -/
structure ExtraKeys (extra : Row) : Prop where
  nodup : (extra.map Prod.fst).Nodup
  other : ∀ p ∈ extra, p.1 ≠ lit "id" ∧ p.1 ≠ lit "msg"
  plain : ∀ p ∈ extra, ' '.toNat ∉ p.1 ∧ '='.toNat ∉ p.1

theorem escape_intText (id : Int) : escape (intText id) = intText id := by
  rw [escape_eq_substAll]
  refine substAll_of_disjoint _ _ (fun c hc => ?_)
  have hraw : ∀ d : Nat, d < 10 → 48 + d ∉ rawChars := by decide
  rcases mem_intText hc with rfl | ⟨d, hd, rfl⟩
  · decide
  · exact hraw d hd

/-- the pairs of the fields, `id` and `msg` first -/
def fieldPairs (id : Int) (msg : Str) (extra : Row) : Row :=
  (lit "id", intText id) :: (lit "msg", msg) :: extra

theorem fields_eq_map (id : Int) (msg : Str) (extra : Row) :
    idField id :: msgField msg :: extra.map extraField
      = (fieldPairs id msg extra).map fun p => renderParam p.1 (.text p.2) := by
  have hid : idField id = renderParam (lit "id") (.text (intText id)) := by
    show _ = lit "id" ++ lit "=" ++ escape (intText id)
    rw [escape_intText]
    rfl
  rw [hid]
  rfl

theorem ExtraKeys.pairs {extra : Row} (h : ExtraKeys extra) (id : Int) (msg : Str) :
    ((fieldPairs id msg extra).map Prod.fst).Nodup ∧
      ∀ p ∈ fieldPairs id msg extra, ' '.toNat ∉ p.1 ∧ '='.toNat ∉ p.1 := by
  refine ⟨?_, ?_⟩
  · have hid : lit "id" ∉ extra.map Prod.fst := fun hm => by
      obtain ⟨p, hp, e⟩ := List.mem_map.mp hm
      exact (h.other p hp).1 e
    have hmsg : lit "msg" ∉ extra.map Prod.fst := fun hm => by
      obtain ⟨p, hp, e⟩ := List.mem_map.mp hm
      exact (h.other p hp).2 e
    have hne : lit "id" ≠ lit "msg" := by decide
    rw [fieldPairs, List.map_cons, List.map_cons, List.nodup_cons, List.nodup_cons, List.mem_cons,
      not_or]
    exact ⟨⟨hne, hid⟩, hmsg, h.nodup⟩
  · intro p hp
    rcases List.mem_cons.mp hp with rfl | hp
    · exact ⟨by simp only; decide, by simp only; decide⟩
    rcases List.mem_cons.mp hp with rfl | hp
    · exact ⟨by simp only; decide, by simp only; decide⟩
    · exact h.plain p hp

theorem Spread.spaced {props : List Str} {t : Str} (h : Spread props t)
    (hp : ∀ prop ∈ props, prop ≠ [] ∧ ' '.toNat ∉ prop) :
    Spaced ' '.toNat props t ∧ (t = [] ∨ ∃ t', t = ' '.toNat :: t') := by
  induction h with
  | nil => exact ⟨.nil 0, Or.inl rfl⟩
  | cons n prop h ih =>
    obtain ⟨h1, h2⟩ := ih (fun q hq => hp q (List.mem_cons_of_mem _ hq))
    obtain ⟨hne, hn⟩ := hp prop List.mem_cons_self
    exact ⟨.cons (n + 1) prop _ _ hne hn h2 h1, Or.inr ⟨_, rfl⟩⟩

/-- the fields of a line are what follows `error` -/
theorem errorFields_of_spread {props : List Str} {t : Str} {line : Bytes} (h : Spread props t)
    (hp : ∀ prop ∈ props, prop ≠ [] ∧ ' '.toNat ∉ prop)
    (hline : encode (lit "error" ++ t) = some line) : errorFields line = props.map parseProp := by
  obtain ⟨hspaced, ht⟩ := h.spaced hp
  have hn : ' '.toNat ∉ lit "error" := by decide
  have hwords := words_of_spaced hspaced
  unfold errorFields
  rw [decode_encode hline]
  refine congrArg (List.map parseProp) (Eq.trans ?_ hwords)
  rcases ht with rfl | ⟨t', rfl⟩
  · rw [List.append_nil, List.splitOn_eq_singleton hn, words_nil]
    rfl
  · rw [List.splitOn_append_cons_self, List.splitOn_eq_singleton hn, words_cons_self]
    rfl

theorem isErrorLine_of_spread {prop : Str} {props : List Str} {t : Str} {line : Bytes}
    (h : Spread (prop :: props) t) (hline : encode (lit "error" ++ t) = some line) :
    isErrorLine line = true := by
  cases h with
  | cons n _ h =>
    have hsplit : ∀ t : Str, lit "error" ++ (List.replicate (n + 1) ' '.toNat ++ t)
        = lit "error " ++ (List.replicate n ' '.toNat ++ t) := fun t => rfl
    rw [hsplit] at hline
    obtain ⟨u, v, hu, _, rfl⟩ := encode_append_eq hline
    have he : encode (lit "error ") = some (ascii "error ") := by decide
    rw [he] at hu
    cases hu
    unfold isErrorLine
    rw [Bool.or_eq_true]
    exact Or.inl (List.isPrefixOf_iff_prefix.mpr (List.prefix_append _ _))

theorem nodup_of_perm_keys {l l' : Row} (h : l.Perm l') (hl : (l'.map Prod.fst).Nodup) :
    (l.map Prod.fst).Nodup := (h.map Prod.fst).nodup_iff.mpr hl

/-- **What the parser makes of a terminator line**: the id that `int` reads, the message, and the
extra fields. -/
theorem parseErrorLine_terminator (id : Int) (msg : Str) (extra : Row) (line : Bytes)
    (hk : ExtraKeys extra) (h : TerminatorLine id msg extra line) :
    isErrorLine line = true ∧ lastId line = some (intText id) ∧
      (id.natAbs < 10 ^ maxStrDigits → ∃ extra', extra'.Perm extra ∧
        parseErrorLine line = .ok { id := id, msg := msg, extra := extra' }) := by
  obtain ⟨props, t, hperm, hspread, hline⟩ := h
  rw [fields_eq_map] at hperm
  obtain ⟨hnodup, hplain⟩ := hk.pairs id msg
  -- the fields on the wire are the pairs in another order
  have hprops : ∀ prop ∈ props, prop ≠ [] ∧ ' '.toNat ∉ prop := by
    intro prop hm
    obtain ⟨p, hp, rfl⟩ := List.mem_map.mp (hperm.mem_iff.mp hm)
    refine ⟨renderParam_ne_nil _ _, ?_⟩
    rw [renderParam, List.mem_append, List.mem_append, not_or, not_or]
    exact ⟨⟨(hplain p hp).1, by decide⟩, notMem_escape _ _ (by decide)⟩
  have hfields : (errorFields line).Perm (fieldPairs id msg extra) := by
    rw [errorFields_of_spread hspread hprops hline]
    refine (hperm.map parseProp).trans (List.Perm.of_eq ?_)
    rw [List.map_map]
    refine (List.map_congr_left fun p hp => ?_).trans (List.map_id _)
    exact parseProp_renderParam p.1 (.text p.2) (hplain p hp).2
  have hkeys := nodup_of_perm_keys hfields hnodup
  have herror : isErrorLine line = true := by
    cases props with
    | nil => exact absurd hperm.length_eq (by simp [fieldPairs])
    | cons prop props => exact isErrorLine_of_spread hspread hline
  have hid : lastId line = some (intText id) := by
    unfold lastId
    rw [← getItem_toDict, toDict_of_nodup _ hkeys]
    exact getItem_of_mem _ hkeys _ _ (hfields.mem_iff.mpr List.mem_cons_self)
  refine ⟨herror, hid, fun hsmall => ?_⟩
  have hrest : (delItem (errorFields line) (lit "id")).Perm ((lit "msg", msg) :: extra) := by
    refine (hfields.filter _).trans (List.Perm.of_eq ?_)
    have hne : lit "msg" ≠ lit "id" := by decide
    rw [fieldPairs, List.filter_cons_of_neg (by simp), List.filter_cons_of_pos (by simpa using hne)]
    refine congrArg _ (List.filter_eq_self.mpr fun p hp => ?_)
    simpa using (hk.other p hp).1
  have hmsg : getItem (delItem (errorFields line) (lit "id")) (lit "msg") = some msg :=
    getItem_of_mem _ (hkeys.sublist (List.filter_sublist.map Prod.fst)) _ _
      (hrest.mem_iff.mpr List.mem_cons_self)
  refine ⟨delItem (delItem (errorFields line) (lit "id")) (lit "msg"), ?_, ?_⟩
  · refine (hrest.filter _).trans (List.Perm.of_eq ?_)
    rw [List.filter_cons_of_neg (by simp)]
    exact List.filter_eq_self.mpr fun p hp => by simpa using (hk.other p hp).2
  · rw [parseErrorLine_eq line herror, hid, Option.getD_some, int_intText, if_pos hsmall,
      toDict_of_nodup _ hkeys]
    simp only [hmsg, Option.getD_some]

/-- **Terminators decode exactly**, with an id of at most `maxStrDigits` digits. -/
theorem terminators_decode :
    (∀ (id : Int) (msg : Str) (extra : Row) (line : Bytes), ExtraKeys extra →
      id.natAbs < 10 ^ maxStrDigits → TerminatorLine id msg extra line →
      isErrorLine line = true ∧ isEventLine line = false ∧ ∃ extra', extra'.Perm extra ∧
        parseErrorLine line = .ok { id := id, msg := msg, extra := extra' }) ∧
    (∀ line : Bytes, (∃ e, parseErrorLine line = .error e) ↔
      isErrorLine line = false ∨ ∃ v, lastId line = some v ∧ int v = none) ∧
    (∀ line : Bytes, isErrorLine line = true → lastId line = none →
      ∃ e : ErrorLine, parseErrorLine line = .ok e ∧ e.id = -1 ∧ e.ok = false) := by
  refine ⟨fun id msg extra line hk hsmall h => ?_, parseErrorLine_raises_iff, fun line h hid => ?_⟩
  · obtain ⟨h1, _, h2⟩ := parseErrorLine_terminator id msg extra line hk h
    exact ⟨h1, isEventLine_of_isErrorLine line h1, h2 hsmall⟩
  · obtain ⟨msg, extra, he⟩ := parseErrorLine_no_id line h hid
    exact ⟨_, he, rfl, rfl⟩

/-- a flood answer with its fields in another order and spaces between them -/
theorem terminators_decode_flood :
    isErrorLine (ascii "error  extra_msg=please\\swait\\s1\\sseconds id=524 msg=") = true ∧
      isEventLine (ascii "error  extra_msg=please\\swait\\s1\\sseconds id=524 msg=") = false ∧
      ∃ extra', extra'.Perm [(lit "extra_msg", lit "please wait 1 seconds")] ∧
        parseErrorLine (ascii "error  extra_msg=please\\swait\\s1\\sseconds id=524 msg=")
          = .ok { id := 524, msg := [], extra := extra' } := by
  refine terminators_decode.1 524 [] [(lit "extra_msg", lit "please wait 1 seconds")] _
    ⟨by decide, by decide, by decide⟩ ?_ ?_
  · exact lt_of_lt_of_le (by decide : 524 < 10 ^ 3) (Nat.pow_le_pow_right (by decide) (by decide))
  · refine ⟨[extraField (lit "extra_msg", lit "please wait 1 seconds"), idField 524, msgField []],
      _, ?_, .cons 1 _ (.cons 0 _ (.cons 0 _ .nil)), by decide +kernel⟩
    exact ((List.Perm.swap _ _ _).trans (.cons _ (.swap _ _ _)))

/-- an id with more digits than `int` reads -/
theorem terminator_id_too_long :
    ∃ line, TerminatorLine (10 ^ maxStrDigits) [] [] line ∧ isErrorLine line = true ∧
      ∃ e, parseErrorLine line = .error e := by
  obtain ⟨line, hline⟩ : ∃ line, encode (lit "error" ++ (List.replicate 1 ' '.toNat ++
      (idField (10 ^ maxStrDigits) ++ (List.replicate 1 ' '.toNat ++ (msgField [] ++ [])))))
        = some line := by
    refine ⟨_, encode_ascii _ (fun c hc => ?_)⟩
    simp only [idField, List.mem_append] at hc
    rcases hc with hc | hc | (hc | hc) | hc | hc | hc
    · revert c; decide
    · revert c; decide
    · revert c; decide
    · exact lt_trans (intText_plain _ c hc).1 (by decide)
    · revert c; decide
    · revert c; decide
    · exact absurd hc List.not_mem_nil
  have hterm : TerminatorLine (10 ^ maxStrDigits) [] [] line :=
    ⟨_, _, List.Perm.refl _, .cons 0 _ (.cons 0 _ .nil), hline⟩
  obtain ⟨herror, hid, _⟩ := parseErrorLine_terminator _ [] [] line ⟨List.nodup_nil, nofun, nofun⟩
    hterm
  refine ⟨line, hterm, herror, (parseErrorLine_raises_iff line).mpr (Or.inr ⟨_, hid, ?_⟩)⟩
  have hten : (10 : Int).natAbs = 10 := rfl
  rw [int_intText, Int.natAbs_pow, hten, if_neg (lt_irrefl _)]

end Atsq
