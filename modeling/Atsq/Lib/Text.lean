import Mathlib.Data.List.Basic
import Mathlib.Data.List.DropRight
import Mathlib.Data.List.Flatten

/-!
# Python's `str`, `bytes` and `dict` on lists

A string is the list of its code points, a byte string the list of its bytes; `List.splitOn` is
`split` at a one-element separator and `List.intercalate` is `join`.  What Lean has no name for:

* `replace a r s`     every `a` of `s` becomes `r` (`str.replace` with a one-character pattern);
* `substAll l s`      the simultaneous substitution by the table `l`;
* `partition a s`     the part before the first `a`, whether there is one, the part after it;
* `strip a s`         `s` without the leading and trailing `a`;
* `sliceFrom s i`     `s[i:]`;
* `words a s`         the pieces of `s` between the `a`s that are not empty;
* `setItem d k v`     a mapping in insertion order: an old key keeps its place.

Main results: `foldl_replace_eq_substAll`, sequential replacement is simultaneous substitution
whenever no later key occurs in an earlier replacement, and `foldl_replace_of_perm`, in which orders
this is so; `words_of_spaced`, words are read back
however many separators stand around them; `getItem_toDict`, a mapping that was built pair by pair
holds the last value of each key.
-/

set_option linter.unusedSectionVars false

namespace Py

/-- a Unicode code point -/
abbrev Code := Nat
/-- a Python `str` -/
abbrev Str := List Code
/-- a Python `bytes` -/
abbrev Bytes := List UInt8

/-- the `str` of a literal -/
def lit (s : String) : Str := s.toList.map Char.toNat
/-- the `bytes` of an ASCII literal -/
def ascii (s : String) : Bytes := s.toList.map fun c => UInt8.ofNat c.toNat

section
variable {α : Type*} [DecidableEq α]

/-! ## replacement -/

def replace (a : α) (r : List α) (s : List α) : List α :=
  s.flatMap fun c => if c = a then r else [c]

def subst (l : List (α × List α)) (c : α) : List α :=
  match l with
  | [] => [c]
  | (a, r) :: l => if c = a then r else subst l c

def substAll (l : List (α × List α)) (s : List α) : List α := s.flatMap (subst l)

theorem subst_cons (p : α × List α) (l : List (α × List α)) (c : α) :
    subst (p :: l) c = if c = p.1 then p.2 else subst l c := rfl

theorem substAll_nil (l : List (α × List α)) : substAll l [] = [] := rfl
theorem substAll_cons (l : List (α × List α)) (c : α) (s : List α) :
    substAll l (c :: s) = subst l c ++ substAll l s := rfl
theorem substAll_append (l : List (α × List α)) (s t : List α) :
    substAll l (s ++ t) = substAll l s ++ substAll l t := by
  simp [substAll, List.flatMap_append]

theorem subst_of_notMem (l : List (α × List α)) (c : α) (h : c ∉ l.map Prod.fst) :
    subst l c = [c] := by
  induction l with
  | nil => rfl
  | cons p l ih =>
    rw [List.map_cons, List.mem_cons, not_or] at h
    rw [subst_cons, if_neg h.1, ih h.2]

theorem subst_of_mem (l : List (α × List α)) (hl : (l.map Prod.fst).Nodup) (p : α × List α)
    (hp : p ∈ l) : subst l p.1 = p.2 := by
  induction l with
  | nil => exact absurd hp List.not_mem_nil
  | cons q l ih =>
    rw [List.map_cons, List.nodup_cons] at hl
    rw [subst_cons]
    rcases List.mem_cons.mp hp with rfl | hp'
    · rw [if_pos rfl]
    · have hne : p.1 ≠ q.1 := fun e => hl.1 (e ▸ List.mem_map_of_mem hp')
      rw [if_neg hne, ih hl.2 hp']

/-- no key of the table occurs in `s` or in a replacement that a character of `s` can start -/
theorem substAll_of_disjoint (l : List (α × List α)) (s : List α)
    (h : ∀ c ∈ s, c ∉ l.map Prod.fst) : substAll l s = s := by
  induction s with
  | nil => rfl
  | cons c s ih =>
    rw [substAll_cons, subst_of_notMem l c (h c List.mem_cons_self),
      ih (fun d hd => h d (List.mem_cons_of_mem _ hd)), List.singleton_append]

/-- a later key is a new one and occurs in no earlier replacement -/
def Ordered (l : List (α × List α)) : Prop :=
  l.Pairwise fun p q => q.1 ≠ p.1 ∧ q.1 ∉ p.2

theorem substAll_replace (p : α × List α) (l : List (α × List α)) (h : Ordered (p :: l))
    (s : List α) : substAll l (replace p.1 p.2 s) = substAll (p :: l) s := by
  have hp := (List.pairwise_cons.mp h).1
  have hr : substAll l p.2 = p.2 := by
    apply substAll_of_disjoint
    intro c hc hk
    obtain ⟨q, hq, rfl⟩ := List.mem_map.mp hk
    exact (hp q hq).2 hc
  induction s with
  | nil => rfl
  | cons c s ih =>
    show substAll l ((if c = p.1 then p.2 else [c]) ++ replace p.1 p.2 s) = _
    rw [substAll_append, ih, substAll_cons (p :: l), subst_cons]
    by_cases e : c = p.1
    · rw [if_pos e, if_pos e, hr]
    · rw [if_neg e, if_neg e, substAll_cons, substAll_nil, List.append_nil]

/-- **Sequential replacement is simultaneous substitution** when the table is `Ordered`. -/
theorem foldl_replace_eq_substAll (l : List (α × List α)) (h : Ordered l) (s : List α) :
    l.foldl (fun v p => replace p.1 p.2 v) s = substAll l s := by
  induction l generalizing s with
  | nil =>
    show s = substAll [] s
    exact (substAll_of_disjoint [] s (fun _ _ => List.not_mem_nil)).symm
  | cons p l ih =>
    rw [List.foldl_cons, ih (List.pairwise_cons.mp h).2, substAll_replace p l h]

/-! ## the order of the replacements -/

/-- no key of the table occurs in another pair -/
def Separate (l : List (α × List α)) : Prop :=
  l.Pairwise fun p q => (q.1 ≠ p.1 ∧ q.1 ∉ p.2) ∧ (p.1 ≠ q.1 ∧ p.1 ∉ q.2)

/-- a pair whose replacement holds none of the later keys, then separate pairs in any order -/
theorem ordered_cons_of_perm {p : α × List α} {l l' : List (α × List α)}
    (hp : ∀ q ∈ l, q.1 ≠ p.1 ∧ q.1 ∉ p.2) (hl : Separate l) (h : l'.Perm l) :
    Ordered (p :: l') := by
  have hl' : Separate l' := (h.pairwise_iff And.symm).mpr hl
  exact List.pairwise_cons.mpr ⟨fun q hq => hp q (h.subset hq), hl'.imp And.left⟩

/-- the entry of a character does not depend on the order of the table -/
theorem subst_perm {l l' : List (α × List α)} (hl : (l.map Prod.fst).Nodup) (h : l'.Perm l)
    (c : α) : subst l' c = subst l c := by
  have hl' : (l'.map Prod.fst).Nodup := (h.map Prod.fst).nodup_iff.mpr hl
  by_cases hc : c ∈ l.map Prod.fst
  · obtain ⟨p, hp, rfl⟩ := List.mem_map.mp hc
    rw [subst_of_mem l hl p hp, subst_of_mem l' hl' p (h.symm.subset hp)]
  · have hc' : c ∉ l'.map Prod.fst := fun hm => hc ((h.map Prod.fst).subset hm)
    rw [subst_of_notMem l c hc, subst_of_notMem l' c hc']

/-- **Separate replacements commute**, after a first one that none of them can spoil. -/
theorem foldl_replace_of_perm {p : α × List α} {l l' : List (α × List α)}
    (hp : ∀ q ∈ l, q.1 ≠ p.1 ∧ q.1 ∉ p.2) (hl : Separate l)
    (hnodup : ((p :: l).map Prod.fst).Nodup) (h : l'.Perm l) (s : List α) :
    (p :: l').foldl (fun v p => replace p.1 p.2 v) s = substAll (p :: l) s := by
  rw [foldl_replace_eq_substAll _ (ordered_cons_of_perm hp hl h)]
  unfold substAll
  congr 1
  funext c
  exact subst_perm hnodup (h.cons p) c

theorem length_replace_le (a : α) {r : List α} (hr : r ≠ []) (s : List α) :
    s.length ≤ (replace a r s).length := by
  have hpos := List.length_pos_iff.mpr hr
  induction s with
  | nil => exact Nat.zero_le _
  | cons c s ih =>
    show _ ≤ ((if c = a then r else [c]) ++ replace a r s).length
    rw [List.length_append, List.length_cons]
    split
    · omega
    · rw [List.length_singleton]
      omega

theorem length_replace_lt (a : α) {r s : List α} (hr : 2 ≤ r.length) (ha : a ∈ s) :
    s.length < (replace a r s).length := by
  have hne : r ≠ [] := fun e => by
    rw [e] at hr
    cases hr
  induction s with
  | nil => cases ha
  | cons c s ih =>
    have hle := length_replace_le a hne s
    show _ < ((if c = a then r else [c]) ++ replace a r s).length
    rw [List.length_append, List.length_cons]
    by_cases hc : c = a
    · rw [if_pos hc]
      omega
    · have := ih ((List.mem_cons.mp ha).resolve_left (Ne.symm hc))
      rw [if_neg hc, List.length_singleton]
      omega

theorem mem_replace {a b : α} (r : List α) {s : List α} (h : b ≠ a) (hb : b ∈ s) :
    b ∈ replace a r s :=
  List.mem_flatMap.mpr ⟨b, hb, by rw [if_neg h]; exact List.mem_singleton_self b⟩

theorem length_foldl_replace_lt {l : List (α × List α)} (hl : ∀ q ∈ l, 2 ≤ q.2.length)
    {p : α × List α} (hp : p ∈ l) {s : List α} (hs : p.1 ∈ s) :
    s.length < (l.foldl (fun v p => replace p.1 p.2 v) s).length := by
  have grow : ∀ (l : List (α × List α)) (v : List α), (∀ q ∈ l, 2 ≤ q.2.length) →
      v.length ≤ (l.foldl (fun v p => replace p.1 p.2 v) v).length := by
    intro l
    induction l with
    | nil => exact fun v _ => Nat.le_refl _
    | cons q l ih =>
      intro v hq
      have hne : q.2 ≠ [] := fun e => by
        have := hq q List.mem_cons_self
        rw [e] at this
        cases this
      exact (length_replace_le q.1 hne v).trans (ih _ fun x hx => hq x (List.mem_cons_of_mem _ hx))
  induction l generalizing s with
  | nil => cases hp
  | cons q l ih =>
    have hrest : ∀ x ∈ l, 2 ≤ x.2.length := fun x hx => hl x (List.mem_cons_of_mem _ hx)
    have hq := hl q List.mem_cons_self
    rw [List.foldl_cons]
    by_cases hkey : p.1 = q.1
    · exact (length_replace_lt q.1 hq (hkey ▸ hs)).trans_le (grow l _ hrest)
    · have hpl : p ∈ l := (List.mem_cons.mp hp).resolve_left fun e => hkey (e ▸ rfl)
      have hne : q.2 ≠ [] := fun e => by
        rw [e] at hq
        cases hq
      exact (length_replace_le q.1 hne s).trans_lt (ih hrest hpl (mem_replace q.2 hkey hs))

/-! ## partition and strip -/

def partition (a : α) (s : List α) : List α × Bool × List α :=
  match s with
  | [] => ([], false, [])
  | c :: s =>
    if c = a then ([], true, s)
    else
      let (head, sep, rest) := partition a s
      (c :: head, sep, rest)

theorem partition_of_notMem (a : α) (s : List α) (h : a ∉ s) :
    partition a s = (s, false, []) := by
  induction s with
  | nil => rfl
  | cons c s ih =>
    rw [List.mem_cons, not_or] at h
    rw [partition, if_neg (fun e => h.1 e.symm), ih h.2]

theorem partition_append (a : α) (s t : List α) (h : a ∉ s) :
    partition a (s ++ a :: t) = (s, true, t) := by
  induction s with
  | nil => rw [List.nil_append, partition, if_pos rfl]
  | cons c s ih =>
    rw [List.mem_cons, not_or] at h
    rw [List.cons_append, partition, if_neg (fun e => h.1 e.symm), ih h.2]

def strip (a : α) (s : List α) : List α :=
  (s.dropWhile (· == a)).rdropWhile (· == a)

/-- a text that neither starts nor ends with `a` loses exactly the `a`s put around it -/
theorem strip_of_ends (a : α) (s : List α) (h1 : s.head? ≠ some a) (h2 : s.getLast? ≠ some a) :
    strip a s = s := by
  have hd : s.dropWhile (· == a) = s := by
    cases s with
    | nil => rfl
    | cons c s =>
      have hc : c ≠ a := fun e => h1 (by rw [e]; rfl)
      rw [List.dropWhile_cons_of_neg (by simpa using hc)]
  unfold strip
  rw [hd, List.rdropWhile_eq_self_iff]
  intro hl hlast
  apply h2
  rw [List.getLast?_eq_some_getLast hl]
  exact congrArg some (by simpa using hlast)

theorem strip_cons_self (a : α) (s : List α) : strip a (a :: s) = strip a s := by
  unfold strip
  rw [List.dropWhile_cons_of_pos (by simp)]

/-! ## slices -/

/-- `s[i:]`: a negative `i` counts from the end, and an `i` past an end is that end -/
def sliceFrom {β : Type*} (s : List β) (i : Int) : List β :=
  s.drop (if i < 0 then (s.length + i).toNat else i.toNat)

example : sliceFrom [1, 2, 3] (-1) = [3] := by decide
example : sliceFrom [1, 2, 3] (-5) = [1, 2, 3] := by decide

theorem sliceFrom_of_nonneg {β : Type*} (s : List β) {i : Int} (h : 0 ≤ i) :
    sliceFrom s i = s.drop i.toNat := by
  unfold sliceFrom
  rw [if_neg (Int.not_lt.mpr h)]

/-! ## words -/

def words (a : α) (s : List α) : List (List α) := (s.splitOn a).filter (· ≠ [])

/-- the words `ws` with any number of `a` before and after them and at least one between two -/
inductive Spaced (a : α) : List (List α) → List α → Prop where
  | nil (n : Nat) : Spaced a [] (List.replicate n a)
  | cons (n : Nat) (w : List α) (ws : List (List α)) (t : List α) (hne : w ≠ []) (hw : a ∉ w)
      (ht : t = [] ∨ ∃ t', t = a :: t') (h : Spaced a ws t) :
      Spaced a (w :: ws) (List.replicate n a ++ (w ++ t))

theorem words_nil (a : α) : words a [] = [] := by simp [words]
theorem words_cons_self (a : α) (s : List α) : words a (a :: s) = words a s := by
  unfold words
  rw [List.splitOn_cons_eq_if_modifyHead, if_pos (by simp), List.filter_cons_of_neg (by simp)]

theorem words_replicate_append (a : α) (n : Nat) (s : List α) :
    words a (List.replicate n a ++ s) = words a s := by
  induction n with
  | zero => rfl
  | succ n ih => rw [List.replicate_succ, List.cons_append, words_cons_self, ih]

theorem words_append_cons (a : α) (w t : List α) (hne : w ≠ []) (hw : a ∉ w) :
    words a (w ++ a :: t) = w :: words a t := by
  unfold words
  rw [List.splitOn_append_cons_self, List.splitOn_eq_singleton hw, List.singleton_append,
    List.filter_cons_of_pos (by simpa using hne)]

theorem words_of_notMem (a : α) (w : List α) (hne : w ≠ []) (hw : a ∉ w) : words a w = [w] := by
  unfold words
  rw [List.splitOn_eq_singleton hw, List.filter_cons_of_pos (by simpa using hne), List.filter_nil]

/-- **Words are read back whatever separators stand around them.** -/
theorem words_of_spaced {a : α} {ws : List (List α)} {t : List α} (h : Spaced a ws t) :
    words a t = ws := by
  induction h with
  | nil n =>
    rw [← List.append_nil (List.replicate n a), words_replicate_append, words_nil]
  | cons n w ws t hne hw ht _ ih =>
    rw [words_replicate_append]
    rcases ht with rfl | ⟨t', rfl⟩
    · rw [words_nil] at ih
      rw [List.append_nil, words_of_notMem a w hne hw, ← ih]
    · rw [words_cons_self] at ih
      rw [words_append_cons a w t' hne hw, ih]

theorem mem_of_spaced {a : α} {ws : List (List α)} {t : List α} (h : Spaced a ws t) (c : α)
    (hc : c ∈ t) (hne : c ≠ a) : ∃ w ∈ ws, c ∈ w := by
  induction h with
  | nil n => exact absurd (List.eq_of_mem_replicate hc) hne
  | cons n w ws t _ _ _ _ ih =>
    rcases List.mem_append.mp hc with hc | hc
    · exact absurd (List.eq_of_mem_replicate hc) hne
    rcases List.mem_append.mp hc with hc | hc
    · exact ⟨w, List.mem_cons_self, hc⟩
    · obtain ⟨x, hx, hcx⟩ := ih hc
      exact ⟨x, List.mem_cons_of_mem _ hx, hcx⟩

end

/-! ## mappings in insertion order -/

section
variable {κ ν : Type*} [DecidableEq κ]

/-- `d[k] = v` -/
def setItem (d : List (κ × ν)) (k : κ) (v : ν) : List (κ × ν) :=
  match d with
  | [] => [(k, v)]
  | p :: d => if p.1 = k then (k, v) :: d else p :: setItem d k v

/-- `d.get(k)` -/
def getItem (d : List (κ × ν)) (k : κ) : Option ν :=
  match d with
  | [] => none
  | p :: d => if p.1 = k then some p.2 else getItem d k

def delItem (d : List (κ × ν)) (k : κ) : List (κ × ν) := d.filter fun p => p.1 ≠ k

/-- the mapping that a list of pairs builds, one `d[k] = v` after the other -/
def toDict (l : List (κ × ν)) : List (κ × ν) := l.foldl (fun d p => setItem d p.1 p.2) []

theorem setItem_of_notMem (d : List (κ × ν)) (k : κ) (v : ν) (h : k ∉ d.map Prod.fst) :
    setItem d k v = d ++ [(k, v)] := by
  induction d with
  | nil => rfl
  | cons p d ih =>
    rw [List.map_cons, List.mem_cons, not_or] at h
    rw [setItem, if_neg (fun e => h.1 e.symm), ih h.2, List.cons_append]

/-- pairs with distinct keys are the mapping they build -/
theorem toDict_of_nodup (l : List (κ × ν)) (h : (l.map Prod.fst).Nodup) : toDict l = l := by
  have grow : ∀ l d : List (κ × ν), ((d ++ l).map Prod.fst).Nodup →
      l.foldl (fun d p => setItem d p.1 p.2) d = d ++ l := by
    intro l
    induction l with
    | nil => exact fun d _ => (List.append_nil d).symm
    | cons p l ih =>
      intro d hd
      have hp : p.1 ∉ d.map Prod.fst := by
        rw [List.map_append, List.nodup_append] at hd
        exact fun hm => hd.2.2 _ hm _ List.mem_cons_self rfl
      rw [List.foldl_cons, setItem_of_notMem d p.1 p.2 hp, ih, List.append_assoc,
        List.singleton_append]
      rwa [List.append_assoc, List.singleton_append]
  exact grow l [] h

theorem getItem_setItem (d : List (κ × ν)) (k k' : κ) (v : ν) :
    getItem (setItem d k v) k' = if k = k' then some v else getItem d k' := by
  induction d with
  | nil => rfl
  | cons p d ih =>
    by_cases hk : p.1 = k
    · rw [setItem, if_pos hk, getItem, getItem]
      by_cases e : k = k'
      · rw [if_pos e, if_pos e]
      · rw [if_neg e, if_neg e, if_neg (hk ▸ e)]
    · rw [setItem, if_neg hk, getItem, getItem, ih]
      by_cases e : p.1 = k'
      · rw [if_pos e, if_pos e, if_neg (fun h => hk (e.trans h.symm))]
      · rw [if_neg e, if_neg e]

/-- **A mapping built pair by pair holds the last value of each key.** -/
theorem getItem_toDict (l : List (κ × ν)) (k : κ) :
    getItem (toDict l) k = ((l.filter fun p => p.1 = k).getLast?).map Prod.snd := by
  induction l using List.reverseRecOn with
  | nil => rfl
  | append_singleton l p ih =>
    rw [toDict, List.foldl_append, List.foldl_cons, List.foldl_nil, getItem_setItem,
      List.filter_append]
    by_cases e : p.1 = k
    · rw [if_pos e, List.filter_cons_of_pos (by simpa using e), List.filter_nil,
        List.getLast?_concat]
      rfl
    · rw [if_neg e, List.filter_cons_of_neg (by simpa using e), List.filter_nil, List.append_nil]
      exact ih

theorem getItem_of_mem (d : List (κ × ν)) (h : (d.map Prod.fst).Nodup) (k : κ) (v : ν)
    (hm : (k, v) ∈ d) : getItem d k = some v := by
  induction d with
  | nil => exact absurd hm List.not_mem_nil
  | cons p d ih =>
    rw [List.map_cons, List.nodup_cons] at h
    rcases List.mem_cons.mp hm with rfl | hm
    · rw [getItem, if_pos rfl]
    · have hne : p.1 ≠ k := fun e => h.1 (e ▸ List.mem_map_of_mem hm)
      rw [getItem, if_neg hne, ih h.2 hm]

end

end Py
