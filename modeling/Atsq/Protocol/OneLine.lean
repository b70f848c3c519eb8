import Atsq.Protocol.Render
import Atsq.Transport

/-!
# One call, one command line

* `wireEntries`   the texts of a command that stand on the wire after its name, row by row;
* `OneLine S`     a peer that cuts at newlines and strips the CRs reads one line in `S`, not empty,
                  and the CR of the terminator after it;
* `SingleLine`    what the request has to keep: no newline in the command name, in an option or in
                  a key that is written, and more than CRs to write.

Values go through `escape`, so that `SingleLine` does not ask anything of them; the other three
texts reach the wire as they are.  `oneLine_iff`: what `send_line` writes is one line exactly when
`SingleLine` holds.
-/

namespace Atsq
open Py SshTransport

/-! ## the entries of a command, row after row -/

section
variable {β : Type} (e : Str → Scalar → β) (g : Str → β)

def RowAcc.entries (a : RowAcc β) : List β := a.all.flatten

theorem RowAcc.entries_empty : (RowAcc.empty : RowAcc β).entries = [] := rfl
theorem RowAcc.entries_add (a : RowAcc β) (x : β) : (a.add x).entries = a.entries ++ [x] := by
  simp [RowAcc.entries, RowAcc.all, RowAcc.add]
theorem RowAcc.entries_newRow (a : RowAcc β) : a.newRow.entries = a.entries := by
  simp [RowAcc.entries, RowAcc.all, RowAcc.newRow]

theorem RowAcc.entries_items (k : Str) (vs : List Scalar) (a : RowAcc β) :
    (vs.foldl (fun a v => a.newRow.add (e k v)) a).entries = a.entries ++ vs.map (e k) := by
  induction vs generalizing a with
  | nil => rw [List.foldl_nil, List.map_nil, List.append_nil]
  | cons v vs ih =>
    rw [List.foldl_cons, ih, entries_add, entries_newRow, List.map_cons, List.append_assoc,
      List.singleton_append]

theorem RowAcc.entries_addValue (a : RowAcc β) (item : Str × Value) :
    (a.addValue e item).entries = a.entries ++ item.2.scalars.map (e item.1) := by
  obtain ⟨k, v⟩ := item
  cases v with
  | scalar v =>
    cases v with
    | none => exact (List.append_nil _).symm
    | bool b => exact a.entries_add _
    | text s => exact a.entries_add _
  | list vs =>
    cases vs with
    | nil => exact (List.append_nil _).symm
    | cons v vs =>
      show (vs.foldl (fun a v => a.newRow.add (e k v)) (a.add (e k v))).entries = _
      rw [entries_items, entries_add, List.append_assoc, List.singleton_append]
      rfl

def itemEntries (block : Block) : List β := block.flatMap fun item => item.2.scalars.map (e item.1)

theorem RowAcc.entries_addBlock (block : Block) (a : RowAcc β) :
    (a.addBlock e block).entries = a.entries ++ itemEntries e block := by
  induction block generalizing a with
  | nil => exact (List.append_nil _).symm
  | cons item block ih =>
    show ((a.addValue e item).addBlock e block).entries = _
    rw [ih, entries_addValue, List.append_assoc]
    rfl

theorem RowAcc.entries_later (bs : List Block) (a : RowAcc β) :
    (bs.foldl (fun a b => a.newRow.addBlock e b) a).entries
      = a.entries ++ itemEntries e bs.flatten := by
  induction bs generalizing a with
  | nil => exact (List.append_nil _).symm
  | cons b bs ih =>
    rw [List.foldl_cons, ih, entries_addBlock, entries_newRow, List.append_assoc,
      List.flatten_cons, itemEntries, itemEntries, itemEntries, List.flatMap_append]

theorem RowAcc.entries_options (os : List Str) (a : RowAcc β) :
    (os.foldl (fun a o => a.add (g o)) a).entries = a.entries ++ os.map g := by
  induction os generalizing a with
  | nil => exact (List.append_nil _).symm
  | cons o os ih =>
    rw [List.foldl_cons, ih, entries_add, List.map_cons, List.append_assoc, List.singleton_append]

theorem RowAcc.entries_buildRows (options : List Str) (blocks : Option (List Block))
    (params : Block) : (buildRows e g options blocks params).entries
      = itemEntries e (params ++ (blocks.getD []).flatten) ++ options.map g := by
  have hblocks : ((RowAcc.empty.addBlock e params).addBlocks e (blocks.getD [])).entries
      = itemEntries e (params ++ (blocks.getD []).flatten) := by
    unfold itemEntries
    rw [List.flatMap_append]
    cases blocks.getD [] with
    | nil =>
      exact (entries_addBlock e params RowAcc.empty).trans (by simp [entries_empty, itemEntries])
    | cons b bs =>
      show (bs.foldl _ ((RowAcc.empty.addBlock e params).addBlock e b)).entries = _
      rw [entries_later, entries_addBlock, entries_addBlock, entries_empty, List.nil_append,
        List.append_assoc, List.flatten_cons]
      simp only [itemEntries, List.flatMap_append]
  unfold buildRows
  rw [entries_options, hblocks]

end

/-- the items of a request: those of the params, then those of the blocks -/
def requestItems (blocks : Option (List Block)) (params : Block) : Block :=
  params ++ (blocks.getD []).flatten

def wireEntries (options : List Str) (blocks : Option (List Block)) (params : Block) : List Str :=
  itemEntries renderParam (requestItems blocks params) ++ options.map (lit "-" ++ ·)

theorem entries_askedProps (options : List Str) (blocks : Option (List Block)) (params : Block) :
    (askedProps options blocks params).entries = wireEntries options blocks params :=
  RowAcc.entries_buildRows renderParam (lit "-" ++ ·) options blocks params

theorem mem_wireEntries {options : List Str} {blocks : Option (List Block)} {params : Block}
    {x : Str} : x ∈ wireEntries options blocks params ↔
      (∃ item ∈ requestItems blocks params, ∃ v ∈ item.2.scalars, renderParam item.1 v = x) ∨
        ∃ o ∈ options, lit "-" ++ o = x := by
  simp [wireEntries, itemEntries, List.mem_flatMap]

/-! ## the characters of the line -/

theorem mem_intercalate {α : Type*} (c : α) (sep : List α) (l : List (List α)) (hs : c ∉ sep) :
    c ∈ List.intercalate sep l ↔ ∃ x ∈ l, c ∈ x := by
  constructor
  · intro h
    by_contra hn
    exact notMem_intercalate c sep l hs (fun x hx hc => hn ⟨x, hx, hc⟩) h
  · rintro ⟨x, hx, hc⟩
    induction l with
    | nil => exact absurd hx List.not_mem_nil
    | cons y l ih =>
      by_cases hl : l = []
      · rw [hl, List.intercalate_singleton]
        rw [hl, List.mem_singleton] at hx
        exact hx ▸ hc
      · rw [List.intercalate_cons_of_ne_nil hl, List.mem_append, List.mem_append]
        rcases List.mem_cons.mp hx with rfl | hx
        · exact Or.inl (Or.inl hc)
        · exact Or.inr (ih hx)

theorem mem_text_askedProps {options : List Str} {blocks : Option (List Block)} {params : Block}
    (c : Code) (h1 : c ∉ lit "|") (h2 : c ∉ lit " ") :
    c ∈ (askedProps options blocks params).text ↔
      ∃ x ∈ wireEntries options blocks params, c ∈ x := by
  rw [← entries_askedProps]
  unfold RowAcc.text joinRows RowAcc.entries
  rw [mem_intercalate c _ _ h1]
  constructor
  · rintro ⟨y, hy, hc⟩
    obtain ⟨r, hr, rfl⟩ := List.mem_map.mp hy
    obtain ⟨x, hx, hc⟩ := (mem_intercalate c _ _ h2).mp hc
    exact ⟨x, List.mem_flatten.mpr ⟨r, hr, hx⟩, hc⟩
  · rintro ⟨x, hx, hc⟩
    obtain ⟨r, hr, hx⟩ := List.mem_flatten.mp hx
    exact ⟨_, List.mem_map_of_mem hr, (mem_intercalate c _ _ h2).mpr ⟨x, hx, hc⟩⟩

theorem text_askedProps_ne_nil {options : List Str} {blocks : Option (List Block)}
    {params : Block} (h : wireEntries options blocks params ≠ []) :
    (askedProps options blocks params).text ≠ [] := by
  obtain ⟨x, hx⟩ := List.exists_mem_of_ne_nil _ h
  rcases mem_wireEntries.mp hx with ⟨item, _, v, _, hv⟩ | ⟨o, _, ho⟩
  · have hc : '='.toNat ∈ x := by
      rw [← hv, renderParam, List.mem_append, List.mem_append]
      exact Or.inl (Or.inr (by decide))
    exact List.ne_nil_of_mem ((mem_text_askedProps _ (by decide) (by decide)).mpr ⟨x, hx, hc⟩)
  · have hc : '-'.toNat ∈ x := by
      rw [← ho, List.mem_append]
      exact Or.inl (by decide)
    exact List.ne_nil_of_mem ((mem_text_askedProps _ (by decide) (by decide)).mpr ⟨x, hx, hc⟩)

theorem renderCommand_bare {cmd : Str} {options : List Str} {blocks : Option (List Block)}
    {params : Block} {line : Bytes} (h : renderCommand cmd options blocks params = .ok line)
    (hw : wireEntries options blocks params = []) : encode cmd = some line := by
  have hitems := (List.append_eq_nil_iff.mp hw).1
  have hoptions : options = [] := List.map_eq_nil_iff.mp (List.append_eq_nil_iff.mp hw).2
  unfold renderCommand at h
  split at h
  · cases h
  cases hout : commandSegments blocks params with
  | error e => rw [hout] at h; cases h
  | ok out =>
    have hpipe : pipe out = [] := by
      rcases (pipe_segments blocks params out hout).2 with ⟨h1, _⟩ | ⟨_, h2⟩
      · exact h1
      · have hall := RowAcc.entries_buildRows renderParam (lit "-" ++ ·) [] blocks params
        rw [List.map_nil, List.append_nil] at hall
        have hnil := hall.trans hitems
        exact absurd (List.flatten_eq_nil_iff.mp hnil _
          (List.mem_append_right _ (List.mem_singleton.mpr rfl))) h2
    rw [hout, hoptions] at h
    simp only [hpipe, ne_eq, not_true_eq_false, if_false, List.map_nil, List.append_nil,
      List.intercalate_singleton] at h
    cases he : encode cmd with
    | none => rw [he] at h; cases h
    | some b => rw [he] at h; cases h; rfl

theorem renderCommand_spaced {cmd : Str} {options : List Str} {blocks : Option (List Block)}
    {params : Block} {line : Bytes} (h : renderCommand cmd options blocks params = .ok line)
    (hw : wireEntries options blocks params ≠ []) :
    encode (cmd ++ lit " " ++ (askedProps options blocks params).text) = some line := by
  rcases (renderCommand_rest h).2.2 with hline | ⟨_, htext⟩
  · exact hline
  · exact absurd htext (text_askedProps_ne_nil hw)

/-- a newline of the line comes from the command name or from an entry -/
theorem newline_mem_iff {cmd : Str} {options : List Str} {blocks : Option (List Block)}
    {params : Block} {line : Bytes} (h : renderCommand cmd options blocks params = .ok line) :
    LF ∈ line ↔ '\n'.toNat ∈ cmd ∨ ∃ x ∈ wireEntries options blocks params, '\n'.toNat ∈ x := by
  have hLF : LF = UInt8.ofNat '\n'.toNat := by decide
  rw [hLF]
  by_cases hw : wireEntries options blocks params = []
  · rw [mem_encode (renderCommand_bare h hw) _ (by decide), hw]
    simp
  · rw [mem_encode (renderCommand_spaced h hw) _ (by decide), List.mem_append, List.mem_append,
      mem_text_askedProps _ (by decide) (by decide)]
    have hn : '\n'.toNat ∉ lit " " := by decide
    tauto

theorem forall_CR_iff {s : Str} {b : Bytes} (h : encode s = some b) :
    (∀ a ∈ b, a = CR) ↔ ∀ c ∈ s, c = '\r'.toNat := by
  constructor
  · intro hb
    have hs : s = b.map UInt8.toNat := by
      rw [← decode_encode h, decode_ascii b (fun a ha => by rw [hb a ha]; decide)]
    rw [hs]
    intro c hc
    obtain ⟨a, ha, rfl⟩ := List.mem_map.mp hc
    rw [hb a ha]
    decide
  · intro hs
    rw [encode_ascii s (fun c hc => by rw [hs c hc]; decide)] at h
    cases h
    intro a ha
    obtain ⟨c, hc, rfl⟩ := List.mem_map.mp ha
    rw [hs c hc]
    decide

/-- the line is made of CRs when the command name is and no entry follows -/
theorem all_CR_iff {cmd : Str} {options : List Str} {blocks : Option (List Block)}
    {params : Block} {line : Bytes} (h : renderCommand cmd options blocks params = .ok line) :
    (∀ a ∈ line, a = CR) ↔
      (∀ c ∈ cmd, c = '\r'.toNat) ∧ wireEntries options blocks params = [] := by
  by_cases hw : wireEntries options blocks params = []
  · rw [forall_CR_iff (renderCommand_bare h hw)]
    simp [hw]
  · rw [forall_CR_iff (renderCommand_spaced h hw)]
    constructor
    · intro hall
      have hspace := hall ' '.toNat (List.mem_append_left _ (List.mem_append_right _ (by decide)))
      exact absurd hspace (by decide)
    · rintro ⟨_, he⟩
      exact absurd he hw

/-! ## one line on the wire -/

/-- a peer that cuts at newlines and strips the CRs reads one line, not empty, and the CR of the
terminator after it -/
def OneLine (S : Bytes) : Prop :=
  (∃ l, l ≠ [] ∧ linesOf S = [l]) ∧ (S.splitOn LF).getLast? = some [CR]

/-- what the request has to keep for its line to be one line -/
structure SingleLine (cmd : Str) (options : List Str) (blocks : Option (List Block))
    (params : Block) : Prop where
  name : '\n'.toNat ∉ cmd
  switches : ∀ o ∈ options, '\n'.toNat ∉ o
  keys : ∀ item ∈ requestItems blocks params, item.2.scalars ≠ [] → '\n'.toNat ∉ item.1
  shown : (∃ c ∈ cmd, c ≠ '\r'.toNat) ∨ options ≠ [] ∨
    ∃ item ∈ requestItems blocks params, item.2.scalars ≠ []

theorem strip_eq_nil_iff (l : Bytes) : strip CR l = [] ↔ ∀ a ∈ l, a = CR := by
  unfold strip
  rw [List.rdropWhile_eq_nil_iff]
  constructor
  · intro h
    have hd : l.dropWhile (· == CR) = [] := by
      by_contra hne
      have h1 := h _ (List.head_mem hne)
      have h2 := List.head_dropWhile_not (· == CR) hne
      rw [h1] at h2
      cases h2
    intro a ha
    simpa using (List.dropWhile_eq_nil_iff.mp hd) a ha
  · intro h a ha
    simpa using h a ((List.dropWhile_sublist _).mem ha)

theorem oneLine_sent (line : Bytes) :
    OneLine (line ++ lineTerminator) ↔ LF ∉ line ∧ ¬ ∀ a ∈ line, a = CR := by
  have hend : linesOf [CR] = [] := linesOf_of_notMem _ (by decide)
  have hlast : ([CR] : Bytes).splitOn LF = [[CR]] := List.splitOn_eq_singleton (by decide)
  have hterm : line ++ lineTerminator = line ++ LF :: [CR] := rfl
  rw [hterm]
  constructor
  · rintro ⟨⟨l, hl, hone⟩, _⟩
    have hn : LF ∉ line := by
      intro hm
      obtain ⟨u, v, rfl, hu⟩ := List.eq_append_cons_of_mem hm
      -- two newlines, two lines
      have htwo : (linesOf (u ++ LF :: (v ++ LF :: [CR]))).length = 1 := by
        rw [← List.cons_append, ← List.append_assoc, hone]
        rfl
      rw [linesOf_append u _ hu] at htwo
      rcases partition_cases (v ++ LF :: [CR]) with ⟨w, rest, hw, he, _⟩ | ⟨hv, _⟩
      · rw [he, linesOf_append w rest hw] at htwo
        simp at htwo
      · exact hv (List.mem_append_right _ List.mem_cons_self)
    rw [linesOf_append line _ hn, hend] at hone
    rw [← strip_eq_nil_iff]
    exact ⟨hn, fun e => hl (by rw [← List.singleton_inj.mp hone, e])⟩
  · rintro ⟨hn, hc⟩
    rw [← strip_eq_nil_iff] at hc
    refine ⟨⟨strip CR line, hc, by rw [linesOf_append line _ hn, hend]⟩, ?_⟩
    rw [splitOn_cons_sep _ line _ hn rfl, hlast]
    rfl

/-- no newline reaches the wire exactly when the texts that are not escaped hold none -/
theorem newline_free_iff (cmd : Str) (options : List Str) (blocks : Option (List Block))
    (params : Block) :
    (¬ ('\n'.toNat ∈ cmd ∨ ∃ x ∈ wireEntries options blocks params, '\n'.toNat ∈ x)) ↔
      '\n'.toNat ∉ cmd ∧ (∀ o ∈ options, '\n'.toNat ∉ o) ∧
        ∀ item ∈ requestItems blocks params, item.2.scalars ≠ [] → '\n'.toNat ∉ item.1 := by
  have hparam : ∀ (k : Str) (v : Scalar), '\n'.toNat ∈ renderParam k v ↔ '\n'.toNat ∈ k := by
    intro k v
    have h1 : '\n'.toNat ∉ escape v.str := notMem_escape _ _ (by decide)
    have h2 : '\n'.toNat ∉ lit "=" := by decide
    rw [renderParam, List.mem_append, List.mem_append, or_iff_left h1, or_iff_left h2]
  have hopt : ∀ o : Str, '\n'.toNat ∈ lit "-" ++ o ↔ '\n'.toNat ∈ o := by
    intro o
    have h2 : '\n'.toNat ∉ lit "-" := by decide
    rw [List.mem_append, or_iff_right h2]
  rw [not_or]
  refine and_congr_right fun _ => ?_
  constructor
  · intro h
    refine ⟨fun o ho hc => h ⟨_, mem_wireEntries.mpr (Or.inr ⟨o, ho, rfl⟩), (hopt o).mpr hc⟩, ?_⟩
    intro item hi hne hc
    obtain ⟨v, hv⟩ := List.exists_mem_of_ne_nil _ hne
    exact h ⟨_, mem_wireEntries.mpr (Or.inl ⟨item, hi, v, hv, rfl⟩), (hparam _ v).mpr hc⟩
  · rintro ⟨ho, hk⟩ ⟨x, hx, hc⟩
    rcases mem_wireEntries.mp hx with ⟨item, hi, v, hv, rfl⟩ | ⟨o, hmem, rfl⟩
    · exact hk item hi (List.ne_nil_of_mem hv) ((hparam _ v).mp hc)
    · exact ho o hmem ((hopt o).mp hc)

theorem wireEntries_ne_nil_iff (options : List Str) (blocks : Option (List Block))
    (params : Block) : wireEntries options blocks params ≠ [] ↔
      options ≠ [] ∨ ∃ item ∈ requestItems blocks params, item.2.scalars ≠ [] := by
  unfold wireEntries itemEntries
  rw [Ne, List.append_eq_nil_iff, List.flatMap_eq_nil_iff, List.map_eq_nil_iff,
    not_and_or, or_comm]
  simp only [List.map_eq_nil_iff, not_forall, ne_eq, exists_prop]

/-- **What `send_line` writes for a rendered command is one line exactly when `SingleLine` holds**:
values never matter, and a newline in any other text of the request starts a second line. -/
theorem oneLine_iff (cmd : Str) (options : List Str) (blocks : Option (List Block))
    (params : Block) (line : Bytes) (t t' : SshTransport)
    (h : renderCommand cmd options blocks params = .ok line) (hs : t.sendLine line = some t') :
    OneLine (t'.written.drop t.written.length) ↔ SingleLine cmd options blocks params := by
  have hw : t'.written.drop t.written.length = line ++ lineTerminator := by
    unfold sendLine at hs
    split at hs
    · cases hs
    · cases hs
      exact List.drop_left
  rw [hw, oneLine_sent, newline_mem_iff h, newline_free_iff, all_CR_iff h, not_and, ← Ne,
    wireEntries_ne_nil_iff]
  have hcr : (∃ c ∈ cmd, c ≠ '\r'.toNat) ↔ ¬ ∀ c ∈ cmd, c = '\r'.toNat := by
    simp only [not_forall, ne_eq, exists_prop]
  constructor
  · rintro ⟨⟨h1, h2, h3⟩, h4⟩
    refine ⟨h1, h2, h3, ?_⟩
    rw [hcr]
    exact Classical.or_iff_not_imp_left.mpr fun hn => h4 (Classical.not_not.mp hn)
  · rintro ⟨h1, h2, h3, h4⟩
    rw [hcr] at h4
    exact ⟨⟨h1, h2, h3⟩, fun hall => h4.resolve_left (fun hn => hn hall)⟩

/-- a value with a newline is still one line -/
theorem oneLine_iff_value :
    OneLine ((ascii "gm msg=a\\nquit" ++ lineTerminator).drop 0) ↔
      SingleLine (lit "gm") [] none [(lit "msg", .scalar (.text (lit "a\nquit")))] :=
  oneLine_iff (lit "gm") [] none [(lit "msg", .scalar (.text (lit "a\nquit")))]
    (ascii "gm msg=a\\nquit") {} { written := ascii "gm msg=a\\nquit" ++ lineTerminator }
    (by decide +kernel) (by decide +kernel)

def wireBytes (cmd : Str) (options : List Str) (blocks : Option (List Block)) (params : Block) :
    Option Bytes :=
  (renderCommand cmd options blocks params).toOption.bind fun line =>
    (sendLine {} line).map SshTransport.written

/-- a newline in the command name, in an option or in a key ends the line early, and a command name
of CRs makes an empty line -/
theorem not_oneLine :
    (wireBytes (lit "version\nquit") [] none [] = some (ascii "version\nquit\n\r") ∧
      linesOf (ascii "version\nquit\n\r") = [ascii "version", ascii "quit"] ∧
      ¬ OneLine (ascii "version\nquit\n\r")) ∧
    (wireBytes (lit "clientlist") [lit "uid\nquit"] none []).map linesOf
      = some [ascii "clientlist -uid", ascii "quit"] ∧
    (wireBytes (lit "use") [] none [(lit "sid=1\nquit ", .scalar (.text []))]).map linesOf
      = some [ascii "use sid=1", ascii "quit ="] ∧
    (wireBytes (lit "\r") [] none []).map linesOf = some [[]] := by
  refine ⟨⟨by decide +kernel, by decide +kernel, ?_⟩, by decide +kernel, by decide +kernel,
    by decide +kernel⟩
  have hsent : ascii "version\nquit\n\r" = ascii "version\nquit" ++ lineTerminator := by decide
  rw [hsent, oneLine_sent]
  exact fun h => h.1 (by decide)

end Atsq
