import Atsq.Protocol.Render

/-!
# The row parser inverts every rendering

A server has many ways to write the same rows.  What all of them share:

* `PropText`   a pair is written `key=escape(value)`, or as the bare key when the value is empty;
* `RowText`    the pairs of a row in order, one or more spaces between two, any number around them;
* `RowsText`   the rows in order between bars, empty and all-space segments anywhere.

`parseText_rowsText`: whichever way the rows were written, the parser returns them; and
`parse_rowsText` says the same of a line, of rows that are cut over several lines, and of an event.
-/

namespace Atsq
open Py

/-! ## renderings -/

/-- a row that a server sends: it has a pair, and its keys are distinct, not empty and free of
separators -/
structure ServerRow (row : Row) : Prop where
  ne_nil : row ≠ []
  nodup : (row.map Prod.fst).Nodup
  keys : ∀ p ∈ row, p.1 ≠ [] ∧ PlainKey p.1

/-- the two ways to write a pair -/
inductive PropText : Str × Str → Str → Prop where
  | pair (key value : Str) : PropText (key, value) (key ++ lit "=" ++ escape value)
  | flag (key : Str) : PropText (key, []) key

/-- the pairs of a row, and spaces -/
def RowText (row : Row) (text : Str) : Prop :=
  ∃ props, List.Forall₂ PropText row props ∧ Spaced ' '.toNat props text

/-- the segments between the bars: rows in order, and segments without a pair -/
inductive Segments : List Row → List Str → Prop where
  | nil : Segments [] []
  | blank (n : Nat) {rows : List Row} {texts : List Str} (h : Segments rows texts) :
      Segments rows (List.replicate n ' '.toNat :: texts)
  | row {row : Row} {text : Str} {rows : List Row} {texts : List Str} (hrow : RowText row text)
      (h : Segments rows texts) : Segments (row :: rows) (text :: texts)

/-- the ways to write rows on one line -/
def RowsText (rows : List Row) (text : Str) : Prop :=
  ∃ texts, texts ≠ [] ∧ Segments rows texts ∧ text = List.intercalate (lit "|") texts

/-! ## one pair -/

theorem PropText.plain {p : Str × Str} {prop : Str} (h : PropText p prop)
    (hp : p.1 ≠ [] ∧ PlainKey p.1) : PlainProp prop ∧ parseProp prop = p := by
  cases h with
  | pair key value =>
    exact ⟨plainProp_renderParam key (.text value) hp.2,
      parseProp_renderParam key (.text value) hp.2.2.2⟩
  | flag key =>
    refine ⟨⟨hp.1, hp.2.1, hp.2.2.1⟩, ?_⟩
    unfold parseProp
    rw [partition_of_notMem _ _ hp.2.2.2]
    rfl

theorem PropText.forall₂_plain {row : Row} {props : List Str}
    (h : List.Forall₂ PropText row props) (hp : ∀ p ∈ row, p.1 ≠ [] ∧ PlainKey p.1) :
    (∀ prop ∈ props, PlainProp prop) ∧ props.map parseProp = row := by
  induction h with
  | nil => exact ⟨fun _ hm => absurd hm List.not_mem_nil, rfl⟩
  | cons hprop _ ih =>
    obtain ⟨h1, h2⟩ := hprop.plain (hp _ List.mem_cons_self)
    obtain ⟨h3, h4⟩ := ih (fun q hq => hp q (List.mem_cons_of_mem _ hq))
    refine ⟨fun prop hm => ?_, by rw [List.map_cons, h2, h4]⟩
    rcases List.mem_cons.mp hm with rfl | hm
    · exact h1
    · exact h3 prop hm

/-! ## one row -/

theorem parseRow_eq (text : Str) :
    parseRow text = toDict ((words ' '.toNat text).map parseProp) := by
  unfold parseRow toDict words
  rw [List.foldl_map, List.foldl_filter]
  refine List.foldl_ext _ _ _ (fun row prop _ => ?_)
  by_cases h : prop = [] <;> simp [h]

theorem parseRow_rowText {row : Row} {text : Str} (h : RowText row text)
    (hp : ∀ p ∈ row, p.1 ≠ [] ∧ PlainKey p.1) (hd : (row.map Prod.fst).Nodup) :
    parseRow text = row := by
  obtain ⟨props, hprops, hspaced⟩ := h
  rw [parseRow_eq, words_of_spaced hspaced, (PropText.forall₂_plain hprops hp).2,
    toDict_of_nodup row hd]

theorem RowText.bar_notMem {row : Row} {text : Str} (h : RowText row text)
    (hp : ∀ p ∈ row, p.1 ≠ [] ∧ PlainKey p.1) : '|'.toNat ∉ text := by
  obtain ⟨props, hprops, hspaced⟩ := h
  intro hm
  obtain ⟨prop, hprop, hc⟩ := mem_of_spaced hspaced _ hm (by decide)
  exact ((PropText.forall₂_plain hprops hp).1 prop hprop).2.2 hc

theorem parseRow_replicate (n : Nat) : parseRow (List.replicate n ' '.toNat) = [] := by
  rw [parseRow_eq, words_of_spaced (Spaced.nil n)]
  rfl

/-! ## the rows of a line -/

theorem Segments.bar_notMem {rows : List Row} {texts : List Str} (h : Segments rows texts)
    (hrows : ∀ row ∈ rows, ServerRow row) : ∀ text ∈ texts, '|'.toNat ∉ text := by
  induction h with
  | nil => exact fun _ hm => absurd hm List.not_mem_nil
  | blank n _ ih =>
    intro text hm
    rcases List.mem_cons.mp hm with rfl | hm
    · exact fun hc => absurd (List.eq_of_mem_replicate hc) (by decide)
    · exact ih hrows text hm
  | row hrow _ ih =>
    intro text hm
    rcases List.mem_cons.mp hm with rfl | hm
    · exact hrow.bar_notMem (hrows _ List.mem_cons_self).keys
    · exact ih (fun r hr => hrows r (List.mem_cons_of_mem _ hr)) text hm

theorem Segments.parse {rows : List Row} {texts : List Str} (h : Segments rows texts)
    (hrows : ∀ row ∈ rows, ServerRow row) :
    (texts.flatMap fun text => keepRow (parseRow text)) = rows := by
  induction h with
  | nil => rfl
  | blank n _ ih => rw [List.flatMap_cons, parseRow_replicate, ih hrows]; rfl
  | row hrow _ ih =>
    have h := hrows _ List.mem_cons_self
    rw [List.flatMap_cons, parseRow_rowText hrow h.keys h.nodup,
      ih (fun r hr => hrows r (List.mem_cons_of_mem _ hr)), keepRow, if_neg h.ne_nil,
      List.singleton_append]

theorem parseText_rowsText {rows : List Row} {text : Str} (h : RowsText rows text)
    (hrows : ∀ row ∈ rows, ServerRow row) : parseText text = rows := by
  obtain ⟨texts, hne, hseg, rfl⟩ := h
  have hsplit : (List.intercalate (lit "|") texts).splitOn '|'.toNat = texts :=
    List.splitOn_intercalate _ (hseg.bar_notMem hrows) hne
  unfold parseText
  rw [hsplit, hseg.parse hrows]

/-- a line that a server writes for the rows -/
def RowsLine (rows : List Row) (line : Bytes) : Prop :=
  ∃ text, RowsText rows text ∧ encode text = some line

theorem parseDataLine_rowsLine {rows : List Row} {line : Bytes} (h : RowsLine rows line)
    (hrows : ∀ row ∈ rows, ServerRow row) : parseDataLine line = rows := by
  obtain ⟨text, htext, hline⟩ := h
  rw [parseDataLine_encode hline, parseText_rowsText htext hrows]

/-- rows cut over several lines -/
theorem parseDataBlock_rowsLines {cuts : List (List Row)} {lines : List Bytes}
    (h : List.Forall₂ RowsLine cuts lines) (hrows : ∀ row ∈ cuts.flatten, ServerRow row) :
    parseDataBlock lines = cuts.flatten := by
  induction h with
  | nil => rfl
  | cons hline _ ih =>
    rw [List.flatten_cons] at hrows
    rw [List.flatten_cons, ← ih (fun r hr => hrows r (List.mem_append_right _ hr)),
      ← parseDataLine_rowsLine hline (fun r hr => hrows r (List.mem_append_left _ hr))]
    rfl

/-! ## events -/

theorem Event.fromLine_encode {name text : Str} {line : Bytes} (hn : ' '.toNat ∉ name)
    (h : encode (lit "notify" ++ name ++ lit " " ++ text) = some line) :
    (fromLine line).name = name ∧
      (fromLine line).rows = if parseText text = [] then [[]] else parseText text := by
  obtain ⟨u, rest, hu, hrest, rfl⟩ := encode_append_eq h
  obtain ⟨head, sep, hhead, hsep, rfl⟩ := encode_append_eq hu
  have hs : sep = [UInt8.ofNat ' '.toNat] := by
    have : encode (lit " ") = some [UInt8.ofNat ' '.toNat] := by decide
    exact (Option.some.inj (this.symm.trans hsep)).symm
  have hnot : UInt8.ofNat ' '.toNat ∉ head := by
    rw [mem_encode hhead _ (by decide), List.mem_append, not_or]
    exact ⟨by decide, hn⟩
  have hpart : partition (UInt8.ofNat ' '.toNat) (head ++ sep ++ rest) = (head, true, rest) := by
    rw [hs, List.append_assoc, List.singleton_append, partition_append _ _ _ hnot]
  simp only [fromLine, hpart, decode_encode hhead, ← parseDataLine_encode hrest, if_true, and_true]
  show removePrefix (lit "notify") (lit "notify" ++ name) = name
  unfold removePrefix
  rw [if_pos (List.isPrefixOf_iff_prefix.mpr (List.prefix_append _ _)), List.drop_left]

/-- **The row parser inverts every rendering**: of a line, of rows cut over several lines in any
way, and of an event, which has one empty row when there is none. -/
theorem parse_rowsText (rows : List Row) (hrows : ∀ row ∈ rows, ServerRow row) :
    (∀ line, RowsLine rows line → parseDataLine line = rows) ∧
    (∀ (cuts : List (List Row)) (lines : List Bytes), cuts.flatten = rows →
      List.Forall₂ RowsLine cuts lines → parseDataBlock lines = rows) ∧
    (∀ (name text : Str) (line : Bytes), ' '.toNat ∉ name → RowsText rows text →
      encode (lit "notify" ++ name ++ lit " " ++ text) = some line →
      (Event.fromLine line).name = name ∧
        (Event.fromLine line).rows = if rows = [] then [[]] else rows) := by
  refine ⟨fun line h => parseDataLine_rowsLine h hrows, ?_, ?_⟩
  · rintro cuts lines rfl h
    exact parseDataBlock_rowsLines h hrows
  · intro name text line hn htext hline
    have h := Event.fromLine_encode hn hline
    rwa [parseText_rowsText htext hrows] at h

/-- two rows with a flag, a padded value and an empty segment, on one line, on two, in an event -/
theorem parse_rowsText_example :
    let rows := [[(lit "clid", lit "1"), (lit "away", [])], [(lit "msg", lit "a b|c=")]]
    parseDataLine (ascii " clid=1  away ||msg=a\\sb\\pc= ") = rows ∧
      parseDataBlock [ascii " clid=1  away ", ascii "msg=a\\sb\\pc= "] = rows ∧
      (Event.fromLine (ascii "notifyx  clid=1  away ||msg=a\\sb\\pc= ")).name = lit "x" ∧
      (Event.fromLine (ascii "notifyx  clid=1  away ||msg=a\\sb\\pc= ")).rows = rows := by
  have hfirst : RowText [(lit "clid", lit "1"), (lit "away", [])] (lit " clid=1  away ") :=
    ⟨[lit "clid=1", lit "away"], .cons (.pair _ _) (.cons (.flag _) .nil),
      .cons 1 _ _ (lit "  away ") (by decide) (by decide) (Or.inr ⟨lit " away ", by decide⟩)
        (.cons 2 _ _ (lit " ") (by decide) (by decide) (Or.inr ⟨[], by decide⟩) (.nil 1))⟩
  have hsecond : RowText [(lit "msg", lit "a b|c=")] (lit "msg=a\\sb\\pc= ") :=
    ⟨[lit "msg=a\\sb\\pc="], .cons (.pair (lit "msg") (lit "a b|c=")) .nil,
      .cons 0 _ _ (lit " ") (by decide) (by decide) (Or.inr ⟨[], by decide⟩) (.nil 1)⟩
  have hboth : RowsText [[(lit "clid", lit "1"), (lit "away", [])], [(lit "msg", lit "a b|c=")]]
      (lit " clid=1  away ||msg=a\\sb\\pc= ") :=
    ⟨_, by simp, .row hfirst (.blank 0 (.row hsecond .nil)), by decide⟩
  obtain ⟨h1, h2, h3⟩ := parse_rowsText
    [[(lit "clid", lit "1"), (lit "away", [])], [(lit "msg", lit "a b|c=")]]
    (by
      intro row hrow
      rcases List.mem_cons.mp hrow with rfl | hrow
      · exact ⟨by decide, by decide, by decide⟩
      · rw [List.mem_singleton.mp hrow]
        exact ⟨by decide, by decide, by decide⟩)
  refine ⟨h1 _ ⟨_, hboth, by decide +kernel⟩, ?_,
    h3 (lit "x") (lit " clid=1  away ||msg=a\\sb\\pc= ") _ (by decide) hboth (by decide +kernel)⟩
  exact h2 [[_], [_]] _ rfl
    (.cons ⟨_, ⟨_, by simp, .row hfirst .nil, List.intercalate_singleton.symm⟩, by decide +kernel⟩
      (.cons ⟨_, ⟨_, by simp, .row hsecond .nil, List.intercalate_singleton.symm⟩,
        by decide +kernel⟩ .nil))

end Atsq
