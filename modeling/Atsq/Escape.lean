import Atsq.Lib.Text

/-!
# `atsq.escape`: value escaping

`escape` makes eleven replacements one after the other, `unescape` reads the text once from left
to right.  `escape_eq_substAll` turns the replacements into one substitution, `unescape_eq_loop`
drops the fast path of `unescape`, and then

* `replaceAll_eq_iff`      the order of the replacements does not matter as long as the backslash
                           comes first, and only then;
* `unescape_escape`        unescaping takes back what escaping wrote;
* `scan_escape`            read from left to right, an escaped text is a list of pieces: characters
                           outside the table and two-character escapes;
* `escape_unescape_iff`    `escape` takes back `unescape` exactly on the texts of that form.
-/

namespace Atsq
open Py

/-- the pairs `(raw, escaped)`, the backslash first -/
def escapeTable : List (Char × String) :=
  [('\\', "\\\\"), ('/', "\\/"), (' ', "\\s"), ('|', "\\p"), ('\x07', "\\a"), ('\x08', "\\b"),
   ('\x0c', "\\f"), ('\n', "\\n"), ('\r', "\\r"), ('\t', "\\t"), ('\x0b', "\\v")]

/-- `_ESCAPE_MAP` -/
def escapeMap : List (Code × Str) := escapeTable.map fun p => (p.1.toNat, lit p.2)

def escape (value : Str) : Str :=
  escapeMap.foldl (fun value p => replace p.1 p.2 value) value

/-- `_UNESCAPE_MAP`: the character after the backslash, and the raw character -/
def unescapeMap : List (Code × Code) := toDict (escapeMap.map fun p => (p.2.getD 1 0, p.1))

/-- the `while` loop of `unescape` -/
def unescapeLoop : Str → Str
  | [] => []
  | [c] => [c]
  | c :: d :: rest =>
    if c = '\\'.toNat then
      match getItem unescapeMap d with
      | some raw => raw :: unescapeLoop rest
      | none => c :: unescapeLoop (d :: rest)
    else c :: unescapeLoop (d :: rest)

def unescape (value : Str) : Str :=
  if '\\'.toNat ∈ value then unescapeLoop value else value

/-! ## the form of an escaped text -/

def rawChars : List Code := escapeMap.map Prod.fst
def escapes : List Str := escapeMap.map Prod.snd

/-- a two-character escape or a character outside the table -/
def Piece (p : Str) : Prop := p ∈ escapes ∨ ∃ c, c ∉ rawChars ∧ p = [c]

def WireForm (t : Str) : Prop := ∃ ps : List Str, (∀ p ∈ ps, Piece p) ∧ t = ps.flatten

/-- a text read from left to right: a backslash takes the next character with it -/
def scan : Str → List Str
  | [] => []
  | [c] => [[c]]
  | c :: d :: rest => if c = '\\'.toNat then [c, d] :: scan rest else [c] :: scan (d :: rest)

/-! ## the table -/

theorem backslash_mem_rawChars : '\\'.toNat ∈ rawChars := by decide
theorem rawChars_nodup : (escapeMap.map Prod.fst).Nodup := by decide

theorem escapeMap_ordered : Ordered escapeMap := by
  unfold Ordered
  decide

theorem escapeMap_entry : ∀ p ∈ escapeMap,
    p.2 = ['\\'.toNat, p.2.getD 1 0] ∧ getItem unescapeMap (p.2.getD 1 0) = some p.1 := by
  decide

theorem length_of_mem_escapes : ∀ e ∈ escapes, e.length = 2 := by decide

theorem singleton_notMem_escapes (c : Code) : [c] ∉ escapes := fun h =>
  absurd (length_of_mem_escapes _ h) (by simp)

/-! ## escape -/

def escapeChar (c : Code) : Str := subst escapeMap c

theorem escape_eq_substAll (s : Str) : escape s = substAll escapeMap s :=
  foldl_replace_eq_substAll escapeMap escapeMap_ordered s

theorem escape_nil : escape [] = [] := by rw [escape_eq_substAll, substAll_nil]
theorem escape_cons (c : Code) (s : Str) : escape (c :: s) = escapeChar c ++ escape s := by
  rw [escape_eq_substAll, escape_eq_substAll, substAll_cons]
  rfl
theorem escapeChar_of_notMem (c : Code) (h : c ∉ rawChars) : escapeChar c = [c] :=
  subst_of_notMem escapeMap c h

theorem escapeChar_of_mem (c : Code) (h : c ∈ rawChars) :
    ∃ k, escapeChar c = ['\\'.toNat, k] ∧ ['\\'.toNat, k] ∈ escapes ∧
      getItem unescapeMap k = some c := by
  obtain ⟨p, hp, rfl⟩ := List.mem_map.mp h
  obtain ⟨h1, h2⟩ := escapeMap_entry p hp
  have h3 : escapeChar p.1 = p.2 := subst_of_mem escapeMap rawChars_nodup p hp
  exact ⟨p.2.getD 1 0, by rw [h3]; exact h1, h1 ▸ List.mem_map_of_mem hp, h2⟩

theorem piece_escapeChar (c : Code) : Piece (escapeChar c) := by
  by_cases h : c ∈ rawChars
  · obtain ⟨k, h1, h2, _⟩ := escapeChar_of_mem c h
    rw [h1]
    exact Or.inl h2
  · rw [escapeChar_of_notMem c h]
    exact Or.inr ⟨c, h, rfl⟩

theorem escape_eq_flatten (s : Str) : escape s = (s.map escapeChar).flatten := by
  induction s with
  | nil => rw [escape_nil]; rfl
  | cons c s ih => rw [escape_cons, ih, List.map_cons, List.flatten_cons]

/-! ## the order of the table -/

/-- the replacements of `escape` in the order of this table -/
def replaceAll (l : List (Code × Str)) (value : Str) : Str :=
  l.foldl (fun value p => replace p.1 p.2 value) value

/-- the pairs of `_ESCAPE_MAP` in an order that keeps the backslash first -/
structure BackslashFirst (l : List (Code × Str)) : Prop where
  perm : l.Perm escapeMap
  head : l.head? = some ('\\'.toNat, lit "\\\\")

theorem tail_apart : ∀ q ∈ escapeMap.tail, q.1 ≠ '\\'.toNat ∧ q.1 ∉ lit "\\\\" := by decide

theorem tail_separate : Separate escapeMap.tail := by
  unfold Separate
  decide

theorem BackslashFirst.replaceAll_eq {l : List (Code × Str)} (h : BackslashFirst l) (s : Str) :
    replaceAll l s = s.flatMap escapeChar := by
  obtain ⟨l', rfl⟩ := List.head?_eq_some_iff.mp h.head
  have hperm : l'.Perm escapeMap.tail := (List.perm_cons _).mp h.perm
  exact foldl_replace_of_perm tail_apart tail_separate rawChars_nodup hperm s

/-- the raw character of a pair that comes first, when the backslash still has to come -/
theorem replaceAll_spoils {p : Code × Str} {l : List (Code × Str)} (h : (p :: l).Perm escapeMap)
    (hp : p.1 ≠ '\\'.toNat) : replaceAll (p :: l) [p.1] ≠ escapeChar p.1 := by
  have hmem : p ∈ escapeMap := h.subset List.mem_cons_self
  have hback : ('\\'.toNat, lit "\\\\") ∈ p :: l := h.symm.subset List.mem_cons_self
  have hl : ('\\'.toNat, lit "\\\\") ∈ l :=
    (List.mem_cons.mp hback).resolve_left fun e => hp (congrArg Prod.fst e).symm
  have hlen : ∀ q ∈ l, 2 ≤ q.2.length := fun q hq => by
    have hq := List.mem_map_of_mem (f := Prod.snd) (h.subset (List.mem_cons_of_mem _ hq))
    rw [length_of_mem_escapes _ hq]
  -- the backslash of the escape is escaped in its turn
  have hfirst : '\\'.toNat ∈ p.2 := by
    rw [(escapeMap_entry p hmem).1]
    exact List.mem_cons_self
  have hgrow := length_foldl_replace_lt hlen hl hfirst
  have hreplace : replace p.1 p.2 [p.1] = p.2 := by
    show (if p.1 = p.1 then p.2 else [p.1]) ++ [] = p.2
    rw [if_pos rfl, List.append_nil]
  have hchar : escapeChar p.1 = p.2 := subst_of_mem escapeMap rawChars_nodup p hmem
  intro he
  rw [hchar] at he
  have he : l.foldl (fun value p => replace p.1 p.2 value) (replace p.1 p.2 [p.1]) = p.2 := he
  rw [hreplace] at he
  rw [he] at hgrow
  exact Nat.lt_irrefl _ hgrow

/-- the backslash has to come first -/
theorem replaceAll_eq_iff {l : List (Code × Str)} (h : l.Perm escapeMap) :
    (∀ s, replaceAll l s = s.flatMap escapeChar) ↔ BackslashFirst l := by
  constructor
  · intro hall
    refine ⟨h, ?_⟩
    cases l with
    | nil => exact absurd h.length_eq (by decide)
    | cons p l =>
      have hone : replaceAll (p :: l) [p.1] = escapeChar p.1 :=
        (hall [p.1]).trans (List.append_nil _)
      have hp : p.1 = '\\'.toNat := by
        by_contra hp
        exact replaceAll_spoils h hp hone
      have hmem : ∀ q ∈ escapeMap, q.1 = '\\'.toNat → q = ('\\'.toNat, lit "\\\\") := by decide
      rw [List.head?_cons, hmem p (h.subset List.mem_cons_self) hp]
  · exact fun hfirst => hfirst.replaceAll_eq

/-- **Sequential replacement is simultaneous substitution**, in every order that keeps the backslash
first. -/
theorem sequential_eq_simultaneous :
    (∀ l, BackslashFirst l → ∀ s, replaceAll l s = s.flatMap escapeChar) ∧
      ∀ s t, escape (s ++ t) = escape s ++ escape t := by
  refine ⟨fun l h => h.replaceAll_eq, fun s t => ?_⟩
  rw [escape_eq_substAll, escape_eq_substAll, escape_eq_substAll, substAll_append]

/-- the order of the source, and the one with the other ten pairs backwards -/
theorem sequential_eq_simultaneous_backwards :
    escape (lit "a /|\\") = (lit "a /|\\").flatMap escapeChar ∧
      ∀ s, replaceAll (('\\'.toNat, lit "\\\\") :: escapeMap.tail.reverse) s
        = s.flatMap escapeChar :=
  ⟨sequential_eq_simultaneous.1 escapeMap ⟨.refl _, rfl⟩ _,
    sequential_eq_simultaneous.1 _ ⟨(List.reverse_perm _).cons _, rfl⟩⟩

/-! ## unescape -/

theorem unescapeLoop_cons_ne (c : Code) (t : Str) (h : c ≠ '\\'.toNat) :
    unescapeLoop (c :: t) = c :: unescapeLoop t := by
  cases t with
  | nil => rfl
  | cons d t => rw [unescapeLoop, if_neg h]

theorem unescapeLoop_escape (k c : Code) (t : Str) (h : getItem unescapeMap k = some c) :
    unescapeLoop ('\\'.toNat :: k :: t) = c :: unescapeLoop t := by
  rw [unescapeLoop, if_pos rfl, h]

/-- without a backslash the loop changes nothing, so the early return of `unescape` is no case -/
theorem unescape_eq_loop (t : Str) : unescape t = unescapeLoop t := by
  unfold unescape
  split
  · rfl
  · next h =>
    induction t with
    | nil => rfl
    | cons c t ih =>
      rw [List.mem_cons, not_or] at h
      rw [unescapeLoop_cons_ne c t (fun e => h.1 e.symm), ← ih h.2]

theorem unescapeLoop_escapeChar (c : Code) (t : Str) :
    unescapeLoop (escapeChar c ++ t) = c :: unescapeLoop t := by
  by_cases h : c ∈ rawChars
  · obtain ⟨k, h1, _, h2⟩ := escapeChar_of_mem c h
    rw [h1]
    exact unescapeLoop_escape k c t h2
  · rw [escapeChar_of_notMem c h]
    exact unescapeLoop_cons_ne c t (fun e => h (e ▸ backslash_mem_rawChars))

/-- **Unescaping takes back what escaping wrote.** -/
theorem unescape_escape (s : Str) : unescape (escape s) = s := by
  rw [unescape_eq_loop]
  induction s with
  | nil => rfl
  | cons c s ih => rw [escape_cons, unescapeLoop_escapeChar, ih]

/-! ## the two directions of the wire form -/

theorem scan_cons_ne (c : Code) (t : Str) (h : c ≠ '\\'.toNat) : scan (c :: t) = [c] :: scan t := by
  cases t with
  | nil => rfl
  | cons d t => rw [scan, if_neg h]

theorem scan_escapeChar (c : Code) (t : Str) :
    scan (escapeChar c ++ t) = escapeChar c :: scan t := by
  by_cases h : c ∈ rawChars
  · obtain ⟨k, h1, _, _⟩ := escapeChar_of_mem c h
    rw [h1]
    show scan ('\\'.toNat :: k :: t) = _
    rw [scan, if_pos rfl]
  · rw [escapeChar_of_notMem c h]
    exact scan_cons_ne c t (fun e => h (e ▸ backslash_mem_rawChars))

theorem scan_escape (s : Str) : scan (escape s) = s.map escapeChar := by
  induction s with
  | nil => rfl
  | cons c s ih => rw [escape_cons, scan_escapeChar, ih, List.map_cons]

theorem wireForm_escape (s : Str) : WireForm (escape s) := by
  refine ⟨s.map escapeChar, fun p hp => ?_, escape_eq_flatten s⟩
  obtain ⟨c, _, rfl⟩ := List.mem_map.mp hp
  exact piece_escapeChar c

theorem Piece.exists_char {p : Str} (h : Piece p) : ∃ c, p = escapeChar c := by
  rcases h with h | ⟨c, hc, rfl⟩
  · obtain ⟨q, hq, rfl⟩ := List.mem_map.mp h
    exact ⟨q.1, (subst_of_mem escapeMap rawChars_nodup q hq).symm⟩
  · exact ⟨c, (escapeChar_of_notMem c hc).symm⟩

theorem WireForm.exists_escape {t : Str} (h : WireForm t) : ∃ s, t = escape s := by
  obtain ⟨ps, hps, rfl⟩ := h
  induction ps with
  | nil => exact ⟨[], rfl⟩
  | cons p ps ih =>
    obtain ⟨c, hc⟩ := (hps p List.mem_cons_self).exists_char
    obtain ⟨s, hs⟩ := ih (fun q hq => hps q (List.mem_cons_of_mem _ hq))
    exact ⟨c :: s, by rw [List.flatten_cons, hc, hs, escape_cons]⟩

theorem escape_unescape_iff (t : Str) : escape (unescape t) = t ↔ WireForm t := by
  constructor
  · intro h
    exact h ▸ wireForm_escape (unescape t)
  · intro h
    obtain ⟨s, hs⟩ := h.exists_escape
    rw [hs, unescape_escape]

/-- the characters of the table that occur in no escape -/
def hiddenChars : List Code := rawChars.filter fun c => escapes.all fun e => c ∉ e

theorem notMem_escape (s : Str) (c : Code) (h : c ∈ hiddenChars) : c ∉ escape s := by
  obtain ⟨h1, h2⟩ := List.mem_filter.mp h
  rw [List.all_eq_true] at h2
  rw [escape_eq_flatten]
  intro hm
  obtain ⟨p, hp, hc⟩ := List.mem_flatten.mp hm
  obtain ⟨d, _, rfl⟩ := List.mem_map.mp hp
  rcases piece_escapeChar d with he | ⟨x, hx, he⟩
  · exact of_decide_eq_true (h2 _ he) hc
  · rw [he, List.mem_singleton] at hc
    exact hx (hc ▸ h1)

example : hiddenChars = lit " |\x07\x08\x0c\n\r\t\x0b" := by decide

/-- **Escaping is a bijection onto its wire form.** -/
theorem escape_wire_bijection :
    (∀ s, unescape (escape s) = s) ∧
    (∀ s, (∀ c ∈ lit " |\x07\x08\x0c\n\r\t\x0b", c ∉ escape s) ∧
      (∀ c ∈ rawChars, [c] ∉ scan (escape s)) ∧
      (scan (escape s)).flatten = escape s ∧ ∀ p ∈ scan (escape s), Piece p) ∧
    (∀ t, escape (unescape t) = t ↔ WireForm t) := by
  refine ⟨unescape_escape, fun s => ⟨fun c hc => ?_, fun c hc hm => ?_, ?_, fun p hp => ?_⟩,
    escape_unescape_iff⟩
  · exact notMem_escape s c (by revert c; decide)
  · rw [scan_escape] at hm
    obtain ⟨d, _, hd⟩ := List.mem_map.mp hm
    rcases hd ▸ piece_escapeChar d with he | ⟨x, hx, he⟩
    · exact singleton_notMem_escapes c he
    · exact hx ((List.singleton_inj.mp he) ▸ hc)
  · rw [scan_escape, ← escape_eq_flatten]
  · rw [scan_escape] at hp
    obtain ⟨c, _, rfl⟩ := List.mem_map.mp hp
    exact piece_escapeChar c

end Atsq
