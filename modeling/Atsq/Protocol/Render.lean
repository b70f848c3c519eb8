import Atsq.Protocol.Parse

/-!
# `render_command` and what the peer reads in it

* `renderCommand`   the command line, or the error it raises;
* `RowAcc`          rows under construction: the finished rows and the current one, for any kind of
                    entry; `buildRows` folds params, blocks and options into it;
* `askedRows`       the rows a caller asks for, entries `(key, text)`;
* `askedProps`      the same rows, entries the texts that stand on the wire.

`renderCommand_rest` says that the line after the command name is the text of `askedProps`, and
`parseText_joinRows` that the parser reads the text of such rows back.  Together:
`parse_renderCommand`.  Without blocks there is such a line (`renderCommand_returns`).
-/

namespace Atsq
open Py

/-! ## values -/

/-- a value that `str()` turns into a text; `text` is any value but `None` and the `bool`s -/
inductive Scalar where
  | none
  | bool (b : Bool)
  | text (s : Str)
deriving DecidableEq

/-- the text of a scalar: a `bool` is made an `int` first -/
def Scalar.str : Scalar → Str
  | .none => lit "None"
  | .bool b => if b then lit "1" else lit "0"
  | .text s => s

/-- a parameter value: a scalar, or a `list` or `tuple` -/
inductive Value where
  | scalar (v : Scalar)
  | list (vs : List Scalar)
deriving DecidableEq

def Value.scalars : Value → List Scalar
  | .scalar .none => []
  | .scalar v => [v]
  | .list vs => vs

/-- `Mapping[str, object]` in its iteration order -/
abbrev Block := List (Str × Value)

/-! ## rendering -/

def renderParam (key : Str) (value : Scalar) : Str := key ++ lit "=" ++ escape value.str

/-- the parts that one item of a block adds -/
def renderItem (item : Str × Value) : List Str :=
  match item.2 with
  | .scalar .none => []
  | .list vs =>
    let rendered := List.intercalate (lit "|") (vs.map (renderParam item.1))
    if rendered ≠ [] then [rendered] else []
  | .scalar v => [renderParam item.1 v]

def renderBlock (block : Block) : Str := List.intercalate (lit " ") (block.flatMap renderItem)

inductive RenderError where
  | invalidCommandName (cmd : Str)
  | emptyBlock (index : Nat) (block : Block)
  | unicodeEncode
deriving DecidableEq

def renderSegments (index : Nat) (segments : List Str) : List Block → Except RenderError (List Str)
  | [] => .ok segments
  | block :: blocks =>
    let rendered := renderBlock block
    if rendered = [] then .error (.emptyBlock index block)
    else
      match index, segments with
      | 0, s :: rest =>
        renderSegments 1 ((if s ≠ [] then s ++ lit " " ++ rendered else rendered) :: rest) blocks
      | _, _ => renderSegments (index + 1) (segments ++ [rendered]) blocks

def commandSegments (blocks : Option (List Block)) (params : Block) :
    Except RenderError (List Str) :=
  match blocks with
  | none => .ok [renderBlock params]
  | some blocks => renderSegments 0 [renderBlock params] blocks

def pipe (segments : List Str) : Str := List.intercalate (lit "|") (segments.filter (· ≠ []))

def renderCommand (cmd : Str) (options : List Str) (blocks : Option (List Block))
    (params : Block) : Except RenderError Bytes :=
  if cmd = [] ∨ ' '.toNat ∈ cmd then .error (.invalidCommandName cmd)
  else
    match commandSegments blocks params with
    | .error e => .error e
    | .ok segments =>
      let piped := pipe segments
      let parts := cmd :: (if piped ≠ [] then [piped] else []) ++ options.map (lit "-" ++ ·)
      match encode (List.intercalate (lit " ") parts) with
      | some line => .ok line
      | none => .error .unicodeEncode

example : renderCommand (lit "channeladdperm") [] (some
      [[(lit "permsid", .scalar (.text (lit "a"))), (lit "permvalue", .scalar (.text (lit "1")))],
       [(lit "permsid", .scalar (.text (lit "b"))), (lit "permvalue", .scalar (.text (lit "2")))]])
      [(lit "cid", .scalar (.text (lit "60")))]
    = .ok (ascii "channeladdperm cid=60 permsid=a permvalue=1|permsid=b permvalue=2") := by
  decide +kernel

/-! ## the rows a caller asks for -/

/-- rows under construction: the finished rows, and the current row -/
structure RowAcc (β : Type) where
  rows : List (List β)
  cur : List β

section
variable {β : Type} (entry : Str → Scalar → β) (flag : Str → β)

def RowAcc.empty : RowAcc β := ⟨[], []⟩
def RowAcc.add (a : RowAcc β) (x : β) : RowAcc β := ⟨a.rows, a.cur ++ [x]⟩
def RowAcc.newRow (a : RowAcc β) : RowAcc β := ⟨a.rows ++ [a.cur], []⟩
def RowAcc.all (a : RowAcc β) : List (List β) := a.rows ++ [a.cur]

/-- `None` and an empty list add nothing, a scalar adds one entry, a list adds its first item to
the current row and a new row for each further item -/
def RowAcc.addValue (a : RowAcc β) (item : Str × Value) : RowAcc β :=
  match item.2 with
  | .scalar .none => a
  | .list [] => a
  | .list (v :: vs) =>
    vs.foldl (fun a v => a.newRow.add (entry item.1 v)) (a.add (entry item.1 v))
  | .scalar v => a.add (entry item.1 v)

def RowAcc.addBlock (a : RowAcc β) (block : Block) : RowAcc β :=
  block.foldl (RowAcc.addValue entry) a

/-- the first block continues the current row, every later one opens a new row -/
def RowAcc.addBlocks (a : RowAcc β) : List Block → RowAcc β
  | [] => a
  | b :: bs => bs.foldl (fun a b => a.newRow.addBlock entry b) (a.addBlock entry b)

def buildRows (options : List Str) (blocks : Option (List Block)) (params : Block) : RowAcc β :=
  options.foldl (fun a o => a.add (flag o))
    ((RowAcc.empty.addBlock entry params).addBlocks entry (blocks.getD []))

end

def askedRows (options : List Str) (blocks : Option (List Block)) (params : Block) :
    List (List (Str × Str)) :=
  (buildRows (fun k v => (k, v.str)) (fun o => (lit "-" ++ o, [])) options blocks params).all

def askedProps (options : List Str) (blocks : Option (List Block)) (params : Block) : RowAcc Str :=
  buildRows renderParam (fun o => lit "-" ++ o) options blocks params

/-! ## joined rows -/

/-- the text of rows: spaces inside a row, bars between rows -/
def joinRows (rows : List (List Str)) : Str :=
  List.intercalate (lit "|") (rows.map (List.intercalate (lit " ")))

theorem intercalate_concat {α : Type*} (sep : List α) (l : List (List α)) (x : List α)
    (h : l ≠ []) : List.intercalate sep (l ++ [x]) = List.intercalate sep l ++ sep ++ x := by
  induction l with
  | nil => exact absurd rfl h
  | cons y l ih =>
    cases l with
    | nil =>
      rw [List.singleton_append, List.intercalate_cons_cons, List.intercalate_singleton,
        List.intercalate_singleton]
    | cons z l =>
      rw [List.cons_append, List.cons_append, List.intercalate_cons_cons, ← List.cons_append,
        ih (by simp), List.intercalate_cons_cons]
      simp only [List.append_assoc]

/-- the text of an accumulator, and what an entry `x` adds to it -/
def RowAcc.text (a : RowAcc Str) : Str := joinRows a.all
def RowAcc.glue (a : RowAcc Str) (x : Str) : Str :=
  a.text ++ (if a.cur = [] then [] else lit " ") ++ x

theorem RowAcc.text_add (a : RowAcc Str) (x : Str) : (a.add x).text = a.glue x := by
  have hc : List.intercalate (lit " ") (a.cur ++ [x])
      = List.intercalate (lit " ") a.cur ++ (if a.cur = [] then [] else lit " ") ++ x := by
    by_cases h : a.cur = []
    · rw [h, if_pos rfl, List.nil_append, List.intercalate_singleton, List.intercalate_nil]
      rfl
    · rw [if_neg h, intercalate_concat _ _ _ h]
  unfold RowAcc.glue RowAcc.text joinRows RowAcc.all RowAcc.add
  rw [List.map_append, List.map_append, List.map_singleton, List.map_singleton, hc]
  by_cases h : a.rows = []
  · rw [h]
    simp [List.intercalate_singleton]
  · rw [intercalate_concat _ _ _ (by simpa using h), intercalate_concat _ _ _ (by simpa using h)]
    simp only [List.append_assoc]

theorem RowAcc.text_newRow (a : RowAcc Str) : a.newRow.text = a.text ++ lit "|" := by
  unfold RowAcc.text joinRows RowAcc.newRow RowAcc.all
  rw [List.map_append, List.map_singleton, List.intercalate_nil,
    intercalate_concat _ _ _ (by simp), List.append_nil]

theorem RowAcc.cur_add {β : Type} (a : RowAcc β) (x : β) : (a.add x).cur ≠ [] := by
  simp [RowAcc.add]

theorem RowAcc.glue_empty (x : Str) : RowAcc.empty.glue x = x := rfl

theorem RowAcc.glue_newRow (a : RowAcc Str) (x : Str) :
    a.newRow.glue x = a.text ++ lit "|" ++ x := by
  have h : a.newRow.cur = [] := rfl
  rw [RowAcc.glue, RowAcc.text_newRow, if_pos h, List.append_nil]

theorem RowAcc.glue_of_text (a b : RowAcc Str) (x y : Str) (h : b.text = a.glue x)
    (hb : b.cur ≠ []) : b.glue y = a.glue (x ++ lit " " ++ y) := by
  unfold RowAcc.glue at h ⊢
  rw [h, if_neg hb]
  simp only [List.append_assoc]

/-! ## the rendered text is the text of the rows -/

theorem renderParam_ne_nil (k : Str) (v : Scalar) : renderParam k v ≠ [] := by
  simp [renderParam, lit]

theorem intercalate_ne_nil {α : Type*} (sep : List α) (x : List α) (l : List (List α))
    (h : x ≠ []) : List.intercalate sep (x :: l) ≠ [] := by
  cases l with
  | nil => rwa [List.intercalate_singleton]
  | cons y l =>
    rw [List.intercalate_cons_cons]
    simp [h]

theorem text_foldl_items (k : Str) (vs : List Scalar) (a b : RowAcc Str) (x : Str)
    (h : b.text = a.glue x) (hb : b.cur ≠ []) :
    (vs.foldl (fun a v => a.newRow.add (renderParam k v)) b).text
        = a.glue (List.intercalate (lit "|") (x :: vs.map (renderParam k))) ∧
      (vs.foldl (fun a v => a.newRow.add (renderParam k v)) b).cur ≠ [] := by
  induction vs generalizing b x with
  | nil =>
    rw [List.foldl_nil, List.map_nil, List.intercalate_singleton]
    exact ⟨h, hb⟩
  | cons v vs ih =>
    have hv : (b.newRow.add (renderParam k v)).text
        = a.glue (x ++ lit "|" ++ renderParam k v) := by
      rw [RowAcc.text_add, RowAcc.glue_newRow, h]
      unfold RowAcc.glue
      simp only [List.append_assoc]
    obtain ⟨h1, h2⟩ := ih _ _ hv (RowAcc.cur_add _ _)
    refine ⟨?_, h2⟩
    rw [List.foldl_cons, h1]
    congr 1
    rw [List.map_cons, List.intercalate_cons_cons]
    cases vs with
    | nil => simp [List.intercalate_singleton]
    | cons w vs =>
      rw [List.map_cons, List.intercalate_cons_cons, List.intercalate_cons_cons]
      simp only [List.append_assoc]

/-- one item of a block: it renders to nothing and adds nothing, or its text is glued on -/
theorem addValue_text (a : RowAcc Str) (item : Str × Value) :
    (renderItem item = [] ∧ a.addValue renderParam item = a) ∨
    ∃ x, renderItem item = [x] ∧ x ≠ [] ∧ (a.addValue renderParam item).text = a.glue x ∧
      (a.addValue renderParam item).cur ≠ [] := by
  obtain ⟨k, v⟩ := item
  have single : ∀ v, ∃ x, [renderParam k v] = [x] ∧ x ≠ [] ∧
      (a.add (renderParam k v)).text = a.glue x ∧ (a.add (renderParam k v)).cur ≠ [] := fun v =>
    ⟨_, rfl, renderParam_ne_nil k v, a.text_add _, a.cur_add _⟩
  cases v with
  | scalar v =>
    cases v with
    | none => exact Or.inl ⟨rfl, rfl⟩
    | bool b => exact Or.inr (single (.bool b))
    | text s => exact Or.inr (single (.text s))
  | list vs =>
    cases vs with
    | nil => exact Or.inl ⟨rfl, rfl⟩
    | cons v vs =>
      right
      have hne : List.intercalate (lit "|") ((v :: vs).map (renderParam k)) ≠ [] :=
        intercalate_ne_nil _ _ _ (renderParam_ne_nil k v)
      obtain ⟨h1, h2⟩ := text_foldl_items k vs a _ _ (a.text_add (renderParam k v))
        (a.cur_add _)
      refine ⟨_, ?_, hne, h1, h2⟩
      show (if _ then _ else _) = _
      rw [if_pos hne]

theorem addBlock_text (block : Block) (a : RowAcc Str) :
    (renderBlock block = [] ∧ a.addBlock renderParam block = a) ∨
    (renderBlock block ≠ [] ∧ (a.addBlock renderParam block).text = a.glue (renderBlock block) ∧
      (a.addBlock renderParam block).cur ≠ []) := by
  induction block generalizing a with
  | nil => exact Or.inl ⟨rfl, rfl⟩
  | cons item block ih =>
    rcases addValue_text a item with ⟨h1, h2⟩ | ⟨x, h1, hx, h2, h3⟩
    · have hr : renderBlock (item :: block) = renderBlock block := by
        unfold renderBlock
        rw [List.flatMap_cons, h1, List.nil_append]
      have ha : a.addBlock renderParam (item :: block) = a.addBlock renderParam block := by
        show (a.addValue renderParam item).addBlock renderParam block = _
        rw [h2]
      rw [hr, ha]
      exact ih a
    · right
      have hr : renderBlock (item :: block)
          = List.intercalate (lit " ") (x :: block.flatMap renderItem) := by
        unfold renderBlock
        rw [List.flatMap_cons, h1, List.singleton_append]
      refine ⟨by rw [hr]; exact intercalate_ne_nil _ _ _ hx, ?_⟩
      show ((a.addValue renderParam item).addBlock renderParam block).text = _ ∧
        ((a.addValue renderParam item).addBlock renderParam block).cur ≠ []
      rcases ih (a.addValue renderParam item) with ⟨h4, h5⟩ | ⟨h4, h5, h6⟩
      · have hn : block.flatMap renderItem = [] := by
          by_contra hne
          obtain ⟨y, l, hl⟩ := List.exists_cons_of_ne_nil hne
          have hy : y ≠ [] := by
            have hmem : y ∈ block.flatMap renderItem := by rw [hl]; exact List.mem_cons_self
            obtain ⟨it, _, hit⟩ := List.mem_flatMap.mp hmem
            rcases addValue_text a it with ⟨e, _⟩ | ⟨z, e, hz, _⟩
            · rw [e] at hit
              exact absurd hit List.not_mem_nil
            · rw [e, List.mem_singleton] at hit
              rw [hit]
              exact hz
          unfold renderBlock at h4
          rw [hl] at h4
          exact intercalate_ne_nil _ _ _ hy h4
        rw [h5, hr, hn, List.intercalate_singleton]
        exact ⟨h2, h3⟩
      · refine ⟨?_, h6⟩
        rw [h5, RowAcc.glue_of_text a _ x _ h2 h3, hr]
        congr 1
        unfold renderBlock at h4 ⊢
        rw [List.intercalate_cons_of_ne_nil]
        intro hn
        rw [hn] at h4
        exact h4 rfl

/-! ## the blocks -/

theorem pipe_singleton (s : Str) : pipe [s] = s := by
  unfold pipe
  by_cases h : s = []
  · rw [h]; rfl
  · rw [List.filter_cons_of_pos (by simpa using h), List.filter_nil, List.intercalate_singleton]

theorem pipe_concat (segments : List Str) (s : Str) (hs : s ≠ []) (h : pipe segments ≠ []) :
    pipe (segments ++ [s]) = pipe segments ++ lit "|" ++ s := by
  unfold pipe at h ⊢
  rw [List.filter_append, List.filter_cons_of_pos (by simpa using hs), List.filter_nil,
    intercalate_concat]
  intro e
  rw [e] at h
  exact h rfl

/-- the segments after the first block are the text of the rows so far -/
theorem renderSegments_later (blocks : List Block) (index : Nat) (segments out : List Str)
    (a : RowAcc Str) (hi : index ≠ 0) (h : pipe segments = a.text) (hne : pipe segments ≠ [])
    (hcur : a.cur ≠ []) (hr : renderSegments index segments blocks = .ok out) :
    let a' := blocks.foldl (fun a b => a.newRow.addBlock renderParam b) a
    pipe out = a'.text ∧ pipe out ≠ [] ∧ a'.cur ≠ [] := by
  induction blocks generalizing index segments a with
  | nil =>
    cases hr
    exact ⟨h, hne, hcur⟩
  | cons b blocks ih =>
    obtain ⟨i, rfl⟩ := Nat.exists_eq_succ_of_ne_zero hi
    unfold renderSegments at hr
    by_cases hb : renderBlock b = []
    · simp only [hb, if_true] at hr
      cases hr
    · simp only [hb, if_false] at hr
      have hp := pipe_concat segments _ hb hne
      rcases addBlock_text b a.newRow with ⟨h1, _⟩ | ⟨_, h2, h3⟩
      · exact absurd h1 hb
      · refine ih (i + 2) _ _ (by omega) ?_ ?_ h3 hr
        · rw [hp, h, h2, RowAcc.glue_newRow]
        · rw [hp]
          simp [hb]

/-- params and blocks: the piped text is the text of the rows -/
theorem pipe_segments (blocks : Option (List Block)) (params : Block) (out : List Str)
    (hr : commandSegments blocks params = .ok out) :
    let a := (RowAcc.empty.addBlock renderParam params).addBlocks renderParam (blocks.getD [])
    pipe out = a.text ∧ ((pipe out = [] ∧ a = RowAcc.empty) ∨ (pipe out ≠ [] ∧ a.cur ≠ [])) := by
  have base : ∀ a : RowAcc Str, a = RowAcc.empty.addBlock renderParam params →
      renderBlock params = a.text ∧ ((renderBlock params = [] ∧ a = RowAcc.empty) ∨
        (renderBlock params ≠ [] ∧ a.cur ≠ [])) := by
    rintro a rfl
    rcases addBlock_text params RowAcc.empty with ⟨h1, h2⟩ | ⟨h1, h2, h3⟩
    · rw [h2]
      exact ⟨h1, Or.inl ⟨h1, rfl⟩⟩
    · rw [h2]
      exact ⟨rfl, Or.inr ⟨h1, h3⟩⟩
  cases blocks with
  | none =>
    cases hr
    rw [pipe_singleton]
    exact base _ rfl
  | some blocks =>
    cases blocks with
    | nil =>
      cases hr
      rw [pipe_singleton]
      exact base _ rfl
    | cons b blocks =>
      obtain ⟨h0, h1⟩ := base _ rfl
      have hr' : renderSegments 0 [renderBlock params] (b :: blocks) = .ok out := hr
      unfold renderSegments at hr'
      by_cases hb : renderBlock b = []
      · simp only [hb, if_true] at hr'
        cases hr'
      · simp only [hb, if_false] at hr'
        generalize ha : (RowAcc.empty.addBlock renderParam params : RowAcc Str) = a at h0 h1
        rcases addBlock_text b a with ⟨h2, _⟩ | ⟨_, h2, h3⟩
        · exact absurd h2 hb
        · have hg : (if renderBlock params ≠ [] then renderBlock params ++ lit " " ++ renderBlock b
              else renderBlock b) = (a.addBlock renderParam b).text := by
            rw [h2]
            rcases h1 with ⟨h4, rfl⟩ | ⟨h4, h5⟩
            · rw [if_neg (by simpa using h4), RowAcc.glue_empty]
            · rw [if_pos h4, RowAcc.glue, if_neg h5, ← h0]
          have hne : (a.addBlock renderParam b).text ≠ [] := by
            rw [h2, RowAcc.glue]
            simp [hb]
          obtain ⟨h4, h5, h6⟩ := renderSegments_later blocks 1 _ out (a.addBlock renderParam b)
            (by omega) (by rw [pipe_singleton, hg]) (by rw [pipe_singleton, hg]; exact hne) h3 hr'
          exact ⟨h4, Or.inr ⟨h5, h6⟩⟩

/-! ## options -/

theorem text_foldl_options (options : List Str) (a : RowAcc Str)
    (h : (a.text = [] ∧ a = RowAcc.empty) ∨ (a.text ≠ [] ∧ a.cur ≠ [])) :
    (options.foldl (fun a o => a.add (lit "-" ++ o)) a).text = List.intercalate (lit " ")
      ((if a.text ≠ [] then [a.text] else []) ++ options.map (lit "-" ++ ·)) := by
  induction options generalizing a with
  | nil =>
    rw [List.foldl_nil, List.map_nil, List.append_nil]
    by_cases e : a.text = []
    · rw [if_neg (by simpa using e), e]
      rfl
    · rw [if_pos e, List.intercalate_singleton]
  | cons o options ih =>
    have hne : (a.add (lit "-" ++ o)).text ≠ [] := by
      rw [RowAcc.text_add, RowAcc.glue]
      simp [lit]
    rw [List.foldl_cons, ih _ (Or.inr ⟨hne, a.cur_add _⟩), if_pos hne, List.map_cons]
    rcases h with ⟨h1, rfl⟩ | ⟨h1, h2⟩
    · rw [RowAcc.text_add, RowAcc.glue_empty, if_neg (by simpa using h1)]
      rfl
    · rw [if_pos h1, RowAcc.text_add, RowAcc.glue, if_neg h2]
      cases options with
      | nil =>
        simp [List.intercalate_cons_cons, List.intercalate_singleton]
      | cons p options =>
        simp [List.intercalate_cons_cons]

/-- **A rendered command is the command name and the text of the asked rows.** -/
theorem renderCommand_rest {cmd : Str} {options : List Str} {blocks : Option (List Block)}
    {params : Block} {line : Bytes} (h : renderCommand cmd options blocks params = .ok line) :
    cmd ≠ [] ∧ ' '.toNat ∉ cmd ∧
      (encode (cmd ++ lit " " ++ (askedProps options blocks params).text) = some line ∨
        (encode cmd = some line ∧ (askedProps options blocks params).text = [])) := by
  unfold renderCommand at h
  split at h
  · cases h
  next hcmd =>
  rw [not_or] at hcmd
  refine ⟨hcmd.1, hcmd.2, ?_⟩
  cases hout : commandSegments blocks params with
  | error e => rw [hout] at h; cases h
  | ok out =>
  rw [hout] at h
  replace h : (match encode (List.intercalate (lit " ")
      (cmd :: ((if pipe out ≠ [] then [pipe out] else []) ++ options.map (lit "-" ++ ·)))) with
    | some line => Except.ok line
    | none => Except.error RenderError.unicodeEncode) = Except.ok line := h
  obtain ⟨h1, h2⟩ := pipe_segments blocks params out hout
  have ht := text_foldl_options options _ (by rw [← h1]; exact h2)
  rw [← h1] at ht
  have ht' : (askedProps options blocks params).text = List.intercalate (lit " ")
      ((if pipe out ≠ [] then [pipe out] else []) ++ options.map (lit "-" ++ ·)) := ht
  cases hl : (if pipe out ≠ [] then [pipe out] else []) ++ options.map (lit "-" ++ ·) with
  | nil =>
    right
    rw [hl, List.intercalate_singleton] at h
    rw [hl] at ht'
    cases he : encode cmd with
    | none => rw [he] at h; cases h
    | some b => rw [he] at h; cases h; exact ⟨rfl, ht'⟩
  | cons x l =>
    left
    rw [hl, List.intercalate_cons_cons] at h
    rw [hl] at ht'
    rw [ht']
    cases he : encode (cmd ++ lit " " ++ List.intercalate (lit " ") (x :: l)) with
    | none => rw [he] at h; cases h
    | some b => rw [he] at h; cases h; rfl

/-! ## no error without blocks -/

theorem encodes_escape {s : Str} (h : Encodes s) : Encodes (escape s) := by
  induction s with
  | nil => rwa [escape_nil]
  | cons c s ih =>
    obtain ⟨b, hb⟩ := h
    obtain ⟨u, t, hu, ht, _⟩ := encode_cons_eq hb
    rw [escape_cons]
    refine encodes_append ?_ (ih ⟨t, ht⟩)
    by_cases hc : c ∈ rawChars
    · obtain ⟨k, hk, hmem, _⟩ := escapeChar_of_mem c hc
      have hascii : ∀ e ∈ escapes, ∀ x ∈ e, x < 0x80 := by decide
      rw [hk]
      exact encodes_ascii (hascii _ hmem)
    · rw [escapeChar_of_notMem c hc]
      exact ⟨u ++ [], by rw [encode_cons, hu]; rfl⟩

theorem encodes_renderParam {key : Str} {v : Scalar} (hkey : Encodes key) (hv : Encodes v.str) :
    Encodes (renderParam key v) :=
  encodes_append (encodes_append hkey (encodes_ascii (by decide))) (encodes_escape hv)

theorem encodes_renderItem {item : Str × Value} (hkey : Encodes item.1)
    (hvalues : ∀ v ∈ item.2.scalars, Encodes v.str) : ∀ part ∈ renderItem item, Encodes part := by
  obtain ⟨key, value⟩ := item
  intro part hpart
  unfold renderItem at hpart
  cases value with
  | scalar v =>
    cases v with
    | none => cases hpart
    | bool b =>
      rw [List.mem_singleton.mp hpart]
      exact encodes_renderParam hkey (hvalues _ List.mem_cons_self)
    | text s =>
      rw [List.mem_singleton.mp hpart]
      exact encodes_renderParam hkey (hvalues _ List.mem_cons_self)
  | list vs =>
    simp only [] at hpart
    split at hpart
    · rw [List.mem_singleton.mp hpart]
      refine encodes_intercalate (encodes_ascii (by decide)) fun s hs => ?_
      obtain ⟨v, hv, rfl⟩ := List.mem_map.mp hs
      exact encodes_renderParam hkey (hvalues v hv)
    · cases hpart

/-- **A command without blocks is rendered**, if its name is one and its texts have no
surrogates. -/
theorem renderCommand_returns {cmd : Str} {options : List Str} {params : Block} (hcmd : cmd ≠ [])
    (hspace : ' '.toNat ∉ cmd) (hname : Encodes cmd) (hoptions : ∀ o ∈ options, Encodes o)
    (hparams : ∀ item ∈ params, Encodes item.1 ∧ ∀ v ∈ item.2.scalars, Encodes v.str) :
    ∃ line, renderCommand cmd options none params = .ok line := by
  have hblock : Encodes (renderBlock params) := by
    refine encodes_intercalate (encodes_ascii (by decide)) fun part hpart => ?_
    obtain ⟨item, hitem, hpart⟩ := List.mem_flatMap.mp hpart
    exact encodes_renderItem (hparams item hitem).1 (hparams item hitem).2 part hpart
  have hparts : ∀ part ∈ cmd :: (if pipe [renderBlock params] ≠ [] then [pipe [renderBlock params]]
      else []) ++ options.map (lit "-" ++ ·), Encodes part := by
    intro part hpart
    rw [pipe_singleton] at hpart
    rcases List.mem_append.mp hpart with hpart | hpart
    · rcases List.mem_cons.mp hpart with rfl | hpart
      · exact hname
      · split at hpart
        · rw [List.mem_singleton.mp hpart]
          exact hblock
        · cases hpart
    · obtain ⟨o, ho, rfl⟩ := List.mem_map.mp hpart
      exact encodes_append (encodes_ascii (by decide)) (hoptions o ho)
  have hspaces : Encodes (lit " ") := encodes_ascii (by decide)
  obtain ⟨line, hline⟩ := encodes_intercalate hspaces hparts
  refine ⟨line, ?_⟩
  unfold renderCommand
  rw [if_neg (not_or.mpr ⟨hcmd, hspace⟩)]
  simp only [commandSegments, hline]

/-! ## reading the text back -/

def parseText (text : Str) : List Row :=
  (text.splitOn '|'.toNat).flatMap fun raw => keepRow (parseRow raw)

theorem parseDataLine_encode {text : Str} {line : Bytes} (h : encode text = some line) :
    parseDataLine line = parseText text := by
  unfold parseDataLine parseText
  rw [← map_decode_splitOn h '|'.toNat (by decide), List.flatMap_map]

/-- a property that survives the splits at the bar and at the space -/
def PlainProp (p : Str) : Prop := p ≠ [] ∧ ' '.toNat ∉ p ∧ '|'.toNat ∉ p

theorem notMem_intercalate {α : Type*} (c : α) (sep : List α) (l : List (List α)) (hs : c ∉ sep)
    (h : ∀ x ∈ l, c ∉ x) : c ∉ List.intercalate sep l := by
  induction l with
  | nil => exact List.not_mem_nil
  | cons x l ih =>
    have hx := h x List.mem_cons_self
    have hl := ih (fun y hy => h y (List.mem_cons_of_mem _ hy))
    cases l with
    | nil => rwa [List.intercalate_singleton]
    | cons y l =>
      rw [List.intercalate_cons_cons, List.mem_append, List.mem_append]
      tauto

theorem parseRow_intercalate (props : List Str) (h : ∀ p ∈ props, PlainProp p) :
    parseRow (List.intercalate (lit " ") props) = toDict (props.map parseProp) := by
  cases hp : props with
  | nil => rfl
  | cons p l =>
    have hsplit : (List.intercalate (lit " ") props).splitOn ' '.toNat = props :=
      List.splitOn_intercalate _ (fun x hx => (h x hx).2.1) (by rw [hp]; simp)
    rw [← hp]
    unfold parseRow toDict
    rw [hsplit, List.foldl_map]
    exact List.foldl_ext _ _ _ (fun row q hq => by rw [if_neg (h q hq).1])

theorem parseText_joinRows (rows : List (List Str)) (hne : rows ≠ [])
    (h : ∀ r ∈ rows, ∀ p ∈ r, PlainProp p) :
    parseText (joinRows rows) = rows.flatMap fun r => keepRow (toDict (r.map parseProp)) := by
  have hsplit : (joinRows rows).splitOn '|'.toNat = rows.map (List.intercalate (lit " ")) := by
    refine List.splitOn_intercalate _ (fun x hx => ?_) (by simpa using hne)
    obtain ⟨r, hr, rfl⟩ := List.mem_map.mp hx
    exact notMem_intercalate _ _ _ (by decide) (fun p hp => (h r hr p hp).2.2)
  unfold parseText
  rw [hsplit, List.flatMap_map]
  refine List.flatMap_congr (fun r hr => ?_)
  rw [parseRow_intercalate r (h r hr)]

/-! ## the texts on the wire stand for the asked entries -/

section
variable {β γ : Type} (f : β → γ)

def RowAcc.map (a : RowAcc β) : RowAcc γ := ⟨a.rows.map (List.map f), a.cur.map f⟩

theorem RowAcc.map_add (a : RowAcc β) (x : β) : (a.add x).map f = (a.map f).add (f x) := by
  simp [RowAcc.map, RowAcc.add]

theorem RowAcc.map_newRow (a : RowAcc β) : a.newRow.map f = (a.map f).newRow := by
  simp [RowAcc.map, RowAcc.newRow]

variable (e : Str → Scalar → β) (e' : Str → Scalar → γ) (g : Str → β) (g' : Str → γ)

theorem RowAcc.map_items (k : Str) (he : ∀ v, f (e k v) = e' k v) (vs : List Scalar)
    (a : RowAcc β) :
    (vs.foldl (fun a v => a.newRow.add (e k v)) a).map f
      = vs.foldl (fun a v => a.newRow.add (e' k v)) (a.map f) := by
  induction vs generalizing a with
  | nil => rfl
  | cons v vs ih =>
    rw [List.foldl_cons, ih, map_add, map_newRow, he]
    rfl

theorem RowAcc.map_addValue (a : RowAcc β) (item : Str × Value)
    (he : ∀ v, f (e item.1 v) = e' item.1 v) :
    (a.addValue e item).map f = (a.map f).addValue e' item := by
  obtain ⟨k, v⟩ := item
  cases v with
  | scalar v =>
    cases v with
    | none => rfl
    | bool b => exact (map_add f a _).trans (by rw [he]; rfl)
    | text s => exact (map_add f a _).trans (by rw [he]; rfl)
  | list vs =>
    cases vs with
    | nil => rfl
    | cons v vs => exact (map_items f e e' k he vs _).trans (by rw [map_add, he]; rfl)

theorem RowAcc.map_addBlock (a : RowAcc β) (block : Block)
    (he : ∀ item ∈ block, ∀ v, f (e item.1 v) = e' item.1 v) :
    (a.addBlock e block).map f = (a.map f).addBlock e' block := by
  induction block generalizing a with
  | nil => rfl
  | cons item block ih =>
    show ((a.addValue e item).addBlock e block).map f = _
    rw [ih _ (fun it hit => he it (List.mem_cons_of_mem _ hit)),
      map_addValue f e e' a item (he item List.mem_cons_self)]
    rfl

theorem RowAcc.map_later (bs : List Block) (a : RowAcc β)
    (h : ∀ b ∈ bs, ∀ item ∈ b, ∀ v, f (e item.1 v) = e' item.1 v) :
    (bs.foldl (fun a b => a.newRow.addBlock e b) a).map f
      = bs.foldl (fun a b => a.newRow.addBlock e' b) (a.map f) := by
  induction bs generalizing a with
  | nil => rfl
  | cons b bs ih =>
    rw [List.foldl_cons, ih _ (fun b' hb' => h b' (List.mem_cons_of_mem _ hb')),
      map_addBlock f e e' _ b (h b List.mem_cons_self), map_newRow]
    rfl

theorem RowAcc.map_options (os : List Str) (a : RowAcc β) (h : ∀ o ∈ os, f (g o) = g' o) :
    (os.foldl (fun a o => a.add (g o)) a).map f
      = os.foldl (fun a o => a.add (g' o)) (a.map f) := by
  induction os generalizing a with
  | nil => rfl
  | cons o os ih =>
    rw [List.foldl_cons, ih _ (fun o' ho' => h o' (List.mem_cons_of_mem _ ho')), map_add,
      h o List.mem_cons_self]
    rfl

theorem RowAcc.map_buildRows (options : List Str) (blocks : Option (List Block)) (params : Block)
    (hp : ∀ item ∈ params, ∀ v, f (e item.1 v) = e' item.1 v)
    (hb : ∀ b ∈ blocks.getD [], ∀ item ∈ b, ∀ v, f (e item.1 v) = e' item.1 v)
    (hg : ∀ o ∈ options, f (g o) = g' o) :
    (buildRows e g options blocks params).map f = buildRows e' g' options blocks params := by
  unfold buildRows
  rw [map_options f g g' _ _ hg]
  refine congrArg (fun a : RowAcc γ => options.foldl (fun a o => a.add (g' o)) a) ?_
  cases h : blocks.getD [] with
  | nil => exact map_addBlock f e e' RowAcc.empty params hp
  | cons b bs =>
    rw [h] at hb
    show (bs.foldl _ ((RowAcc.empty.addBlock e params).addBlock e b)).map f = _
    rw [map_later f e e' bs _ (fun b' hb' => hb b' (List.mem_cons_of_mem _ hb')),
      map_addBlock f e e' _ b (hb b List.mem_cons_self), map_addBlock f e e' _ params hp]
    rfl

end

/-- a key or an option that cannot be mistaken for a separator -/
def PlainKey (k : Str) : Prop := ' '.toNat ∉ k ∧ '|'.toNat ∉ k ∧ '='.toNat ∉ k

instance (k : Str) : Decidable (PlainKey k) :=
  inferInstanceAs (Decidable (' '.toNat ∉ k ∧ '|'.toNat ∉ k ∧ '='.toNat ∉ k))

theorem parseProp_renderParam (k : Str) (v : Scalar) (hk : '='.toNat ∉ k) :
    parseProp (renderParam k v) = (k, v.str) := by
  have h : renderParam k v = k ++ '='.toNat :: escape v.str := by
    have hsep : lit "=" = ['='.toNat] := by decide
    rw [renderParam, hsep, List.append_assoc, List.singleton_append]
  unfold parseProp
  rw [h, partition_append _ _ _ hk]
  simp only [if_true, unescape_escape]

theorem parseProp_option (o : Str) (ho : PlainKey o) :
    parseProp (lit "-" ++ o) = (lit "-" ++ o, []) := by
  have h : '='.toNat ∉ lit "-" ++ o := by
    rw [List.mem_append, not_or]
    exact ⟨by decide, ho.2.2⟩
  unfold parseProp
  rw [partition_of_notMem _ _ h]
  rfl

theorem plainProp_renderParam (k : Str) (v : Scalar) (hk : PlainKey k) :
    PlainProp (renderParam k v) := by
  have h1 : ' '.toNat ∉ escape v.str := notMem_escape _ _ (by decide)
  have h2 : '|'.toNat ∉ escape v.str := notMem_escape _ _ (by decide)
  refine ⟨renderParam_ne_nil k v, ?_, ?_⟩ <;> unfold renderParam <;>
    rw [List.mem_append, List.mem_append, not_or, not_or]
  · exact ⟨⟨hk.1, by decide⟩, h1⟩
  · exact ⟨⟨hk.2.1, by decide⟩, h2⟩

theorem plainProp_option (o : Str) (ho : PlainKey o) : PlainProp (lit "-" ++ o) := by
  refine ⟨by simp [lit], ?_, ?_⟩ <;> rw [List.mem_append, not_or]
  · exact ⟨by decide, ho.1⟩
  · exact ⟨by decide, ho.2.1⟩

/-! ## every entry of the rows comes from the request -/

section
variable {β : Type} (P : β → Prop)

def RowAcc.Every (a : RowAcc β) : Prop := ∀ r ∈ a.all, ∀ x ∈ r, P x

theorem RowAcc.every_empty : (RowAcc.empty : RowAcc β).Every P := by
  intro r hr x hx
  rw [List.mem_singleton.mp hr] at hx
  exact absurd hx List.not_mem_nil

theorem RowAcc.Every.add {a : RowAcc β} (h : a.Every P) (x : β) (hx : P x) : (a.add x).Every P := by
  intro r hr y hy
  rcases List.mem_append.mp hr with hr | hr
  · exact h r (List.mem_append_left _ hr) y hy
  · rw [List.mem_singleton.mp hr] at hy
    rcases List.mem_append.mp hy with hy | hy
    · exact h a.cur (List.mem_append_right _ (List.mem_singleton.mpr rfl)) y hy
    · rw [List.mem_singleton.mp hy]
      exact hx

theorem RowAcc.Every.newRow {a : RowAcc β} (h : a.Every P) : a.newRow.Every P := by
  intro r hr y hy
  rcases List.mem_append.mp hr with hr | hr
  · exact h r hr y hy
  · rw [List.mem_singleton.mp hr] at hy
    exact absurd hy List.not_mem_nil

variable (e : Str → Scalar → β) (g : Str → β)

theorem RowAcc.Every.items {k : Str} (he : ∀ v, P (e k v)) (vs : List Scalar) {a : RowAcc β}
    (h : a.Every P) : (vs.foldl (fun a v => a.newRow.add (e k v)) a).Every P := by
  induction vs generalizing a with
  | nil => exact h
  | cons v vs ih => exact ih ((h.newRow P).add P _ (he v))

theorem RowAcc.Every.addBlock {a : RowAcc β} (h : a.Every P) (block : Block)
    (he : ∀ item ∈ block, ∀ v, P (e item.1 v)) : (a.addBlock e block).Every P := by
  induction block generalizing a with
  | nil => exact h
  | cons item block ih =>
    refine ih ?_ (fun it hit => he it (List.mem_cons_of_mem _ hit))
    have hi := he item List.mem_cons_self
    obtain ⟨k, v⟩ := item
    cases v with
    | scalar v =>
      cases v with
      | none => exact h
      | bool b => exact h.add P _ (hi _)
      | text s => exact h.add P _ (hi _)
    | list vs =>
      cases vs with
      | nil => exact h
      | cons v vs => exact Every.items P e hi vs (h.add P _ (hi v))

theorem RowAcc.Every.later (bs : List Block) {a : RowAcc β} (ha : a.Every P)
    (h : ∀ b ∈ bs, ∀ item ∈ b, ∀ v, P (e item.1 v)) :
    (bs.foldl (fun a b => a.newRow.addBlock e b) a).Every P := by
  induction bs generalizing a with
  | nil => exact ha
  | cons b bs ih =>
    exact ih ((ha.newRow P).addBlock P e b (h b List.mem_cons_self))
      (fun b' hb' => h b' (List.mem_cons_of_mem _ hb'))

theorem RowAcc.Every.options (os : List Str) {a : RowAcc β} (ha : a.Every P)
    (h : ∀ o ∈ os, P (g o)) : (os.foldl (fun a o => a.add (g o)) a).Every P := by
  induction os generalizing a with
  | nil => exact ha
  | cons o os ih =>
    exact ih (ha.add P _ (h o List.mem_cons_self))
      (fun o' ho' => h o' (List.mem_cons_of_mem _ ho'))

theorem RowAcc.every_buildRows (options : List Str) (blocks : Option (List Block))
    (params : Block) (hp : ∀ item ∈ params, ∀ v, P (e item.1 v))
    (hb : ∀ b ∈ blocks.getD [], ∀ item ∈ b, ∀ v, P (e item.1 v)) (hg : ∀ o ∈ options, P (g o)) :
    (buildRows e g options blocks params).Every P := by
  have hparams := (RowAcc.every_empty P).addBlock P e params hp
  refine RowAcc.Every.options P g options ?_ hg
  cases h : blocks.getD [] with
  | nil => exact hparams
  | cons b bs =>
    rw [h] at hb
    exact RowAcc.Every.later P e bs (hparams.addBlock P e b (hb b List.mem_cons_self))
      (fun b' hb' => hb b' (List.mem_cons_of_mem _ hb'))

end

/-- no key and no option of the request holds a separator -/
structure PlainKeys (options : List Str) (blocks : Option (List Block)) (params : Block) :
    Prop where
  params : ∀ item ∈ params, PlainKey item.1
  blocks : ∀ b ∈ blocks.getD [], ∀ item ∈ b, PlainKey item.1
  options : ∀ o ∈ options, PlainKey o

theorem flatMap_keepRow (rows : List Row) : rows.flatMap keepRow = rows.filter (· ≠ []) := by
  induction rows with
  | nil => rfl
  | cons r rows ih =>
    rw [List.flatMap_cons, ih, List.filter_cons]
    by_cases e : r = [] <;> simp [keepRow, e]

theorem parseText_askedProps {options : List Str} {blocks : Option (List Block)} {params : Block}
    (hk : PlainKeys options blocks params) :
    parseText (askedProps options blocks params).text
      = ((askedRows options blocks params).map toDict).filter (· ≠ []) := by
  have hmap := RowAcc.map_buildRows parseProp renderParam (fun k v => (k, v.str))
    (fun o => lit "-" ++ o) (fun o => (lit "-" ++ o, [])) options blocks params
    (fun item hi v => parseProp_renderParam item.1 v (hk.params item hi).2.2)
    (fun b hb item hi v => parseProp_renderParam item.1 v (hk.blocks b hb item hi).2.2)
    (fun o ho => parseProp_option o (hk.options o ho))
  have hplain : (askedProps options blocks params).Every PlainProp :=
    RowAcc.every_buildRows PlainProp renderParam (fun o => lit "-" ++ o) options blocks params
    (fun item hi v => plainProp_renderParam item.1 v (hk.params item hi))
    (fun b hb item hi v => plainProp_renderParam item.1 v (hk.blocks b hb item hi))
    (fun o ho => plainProp_option o (hk.options o ho))
  have hall : askedRows options blocks params
      = (askedProps options blocks params).all.map (List.map parseProp) := by
    unfold askedRows askedProps
    rw [← hmap]
    simp [RowAcc.all, RowAcc.map]
  unfold RowAcc.text
  rw [parseText_joinRows _ (by simp [RowAcc.all]) hplain, hall, ← flatMap_keepRow, List.map_map,
    List.flatMap_map]
  rfl

/-- **Rendered commands parse back to what was asked**: up to its first space a rendered line is
the command name, and the parser reads the asked rows in what follows. -/
theorem parse_renderCommand (cmd : Str) (options : List Str) (blocks : Option (List Block))
    (params : Block) (line : Bytes) (h : renderCommand cmd options blocks params = .ok line)
    (hk : PlainKeys options blocks params) :
    encode cmd = some (partition (UInt8.ofNat ' '.toNat) line).1 ∧
      parseDataLine (partition (UInt8.ofNat ' '.toNat) line).2.2
        = ((askedRows options blocks params).map toDict).filter (· ≠ []) := by
  obtain ⟨_, hsp, hline⟩ := renderCommand_rest h
  rw [← parseText_askedProps hk]
  rcases hline with hline | ⟨hline, htext⟩
  · obtain ⟨u, v, hu, hv, rfl⟩ := encode_append_eq hline
    obtain ⟨c, w, hc, hw, rfl⟩ := encode_append_eq hu
    have hn : UInt8.ofNat ' '.toNat ∉ c := fun hm => hsp ((mem_encode hc _ (by decide)).mp hm)
    have hw' : w = [UInt8.ofNat ' '.toNat] := by
      have : encode (lit " ") = some [UInt8.ofNat ' '.toNat] := by decide
      exact (Option.some.inj (this.symm.trans hw)).symm
    rw [hw', List.append_assoc, List.singleton_append, partition_append _ _ _ hn]
    exact ⟨hc, parseDataLine_encode hv⟩
  · have hn : UInt8.ofNat ' '.toNat ∉ line := fun hm => hsp ((mem_encode hline _ (by decide)).mp hm)
    rw [partition_of_notMem _ _ hn, htext]
    exact ⟨hline, rfl⟩

/-- a piped list, two blocks and an option -/
theorem parse_renderCommand_blocks :
    let options := [lit "continueonerror"]
    let blocks := some [[(lit "permsid", .scalar (.text (lit "a b")))],
      [(lit "permsid", .scalar (.text (lit "c|d"))), (lit "permskip", .scalar (.bool true))]]
    let params := [(lit "cid", .list [.text (lit "60"), .text (lit "61")])]
    encode (lit "channeladdperm") = some (ascii "channeladdperm") ∧
      parseDataLine (ascii
        "cid=60|cid=61 permsid=a\\sb|permsid=c\\pd permskip=1 -continueonerror")
        = ((askedRows options blocks params).map toDict).filter (· ≠ []) :=
  parse_renderCommand (lit "channeladdperm") [lit "continueonerror"]
    (some [[(lit "permsid", .scalar (.text (lit "a b")))],
      [(lit "permsid", .scalar (.text (lit "c|d"))), (lit "permskip", .scalar (.bool true))]])
    [(lit "cid", .list [.text (lit "60"), .text (lit "61")])]
    (ascii
      "channeladdperm cid=60|cid=61 permsid=a\\sb|permsid=c\\pd permskip=1 -continueonerror")
    (by decide +kernel) ⟨by decide +kernel, by decide +kernel, by decide +kernel⟩

end Atsq
