import Mathlib.Data.Nat.Digits.Lemmas
import Atsq.Lib.Text

/-!
# Python's `int(s)` for a string `s`, and `str(i)` for an integer `i`

White space around the number goes, decimal digits of every script count, one underscore may stand
between two digits, and more than 4300 digits are refused (`ValueError`, here `none`); `integer` is
the same without this limit.

`int_intText`: an integer is read back from its decimal digits when these are at most 4300.
-/

namespace Py

/-- the zeros of the blocks of ten decimal digits (general category `Nd`, Unicode 15.0) -/
def digitZeros : List Nat :=
  [48, 1632, 1776, 1984, 2406, 2534, 2662, 2790, 2918, 3046, 3174, 3302, 3430, 3558, 3664, 3792,
   3872, 4160, 4240, 6112, 6160, 6470, 6608, 6784, 6800, 6992, 7088, 7232, 7248, 42528, 43216,
   43264, 43472, 43504, 43600, 44016, 65296, 66720, 68912, 69734, 69872, 69942, 70096, 70384,
   70736, 70864, 71248, 71360, 71472, 71904, 72016, 72784, 73040, 73120, 73552, 92768, 92864,
   93008, 120782, 120792, 120802, 120812, 120822, 123200, 123632, 124144, 125264, 130032]

def decimal (c : Nat) : Option Nat :=
  (digitZeros.find? fun z => z ≤ c && c < z + 10).map (c - ·)

/-- `str.isspace` -/
def isSpace (c : Nat) : Bool :=
  (9 ≤ c && c ≤ 13) || (28 ≤ c && c ≤ 32) || c == 133 || c == 160 || c == 5760
    || (8192 ≤ c && c ≤ 8202) || c == 8232 || c == 8233 || c == 8239 || c == 8287 || c == 12288

/-- what `int` reads in place of a code point: an ASCII blank, an ASCII digit, or `?` -/
def toAscii (c : Nat) : Nat :=
  if c < 127 then c
  else if isSpace c then 32
  else match decimal c with
    | some d => 48 + d
    | none => 63

def isBlank (c : Nat) : Bool := (9 ≤ c && c ≤ 13) || c == 32

def readDigits : Str → Option (List Nat)
  | [] => none
  | c :: s =>
    if 48 ≤ c ∧ c < 58 then
      match s with
      | [] => some [c - 48]
      | d :: s' => ((if d = 95 then readDigits s' else readDigits (d :: s')).map ((c - 48) :: ·))
    else none

def readSign : Str → Bool × Str
  | 45 :: s => (true, s)
  | 43 :: s => (false, s)
  | s => (false, s)

def ofDigits (ds : List Nat) : Nat := ds.foldl (fun n d => 10 * n + d) 0

/-- `sys.get_int_max_str_digits()` -/
def maxStrDigits : Nat := 4300

def int (s : Str) : Option Int :=
  let t := ((s.map toAscii).dropWhile isBlank).rdropWhile isBlank
  let (neg, t) := readSign t
  match readDigits t with
  | none => none
  | some ds =>
    if ds.length ≤ maxStrDigits then some (if neg then -(ofDigits ds : Int) else ofDigits ds)
    else none

/-- the sign and the digits of a text -/
def readNumber (s : Str) : Option (Bool × List Nat) :=
  let (neg, t) := readSign (((s.map toAscii).dropWhile isBlank).rdropWhile isBlank)
  (readDigits t).map (neg, ·)

/-- the integer that a text stands for, however many digits it has -/
def integer (s : Str) : Option Int :=
  (readNumber s).map fun n => if n.1 then -(ofDigits n.2 : Int) else ofDigits n.2

/-- what `int` accepts is the integer that the text stands for -/
theorem integer_of_int {s : Str} {i : Int} (h : int s = some i) : integer s = some i := by
  unfold int at h
  unfold integer readNumber
  simp only [] at h ⊢
  cases hd : readDigits
      (readSign (((s.map toAscii).dropWhile isBlank).rdropWhile isBlank)).2 with
  | none =>
    rw [hd] at h
    cases h
  | some ds =>
    rw [hd] at h
    simp only [] at h
    split at h
    · exact h
    · cases h

example : int (lit " -1_024\x0b") = some (-1024) := by decide +kernel
example : int [0x0663] = some 3 := by decide
example : int (lit "1__0") = none := by decide

/-! ## the decimal digits of an integer -/

def natText (n : Nat) : Str := if n = 0 then [48] else (Nat.digits 10 n).reverse.map (48 + ·)

/-- the decimal digits of an integer, after a `-` when it is negative -/
def intText : Int → Str
  | .ofNat n => natText n
  | .negSucc n => 45 :: natText (n + 1)

theorem ofDigits_reverse (ds : List Nat) : ofDigits ds.reverse = Nat.ofDigits 10 ds := by
  unfold ofDigits
  rw [List.foldl_reverse, Nat.ofDigits_eq_foldr]
  exact congrArg (fun f => ds.foldr f 0) (funext fun d => funext fun n => Nat.add_comm _ _)

theorem readDigits_map (ds : List Nat) (hne : ds ≠ []) (h : ∀ d ∈ ds, d < 10) :
    readDigits (ds.map (48 + ·)) = some ds := by
  induction ds with
  | nil => exact absurd rfl hne
  | cons d ds ih =>
    have hd : 48 ≤ 48 + d ∧ 48 + d < 58 := ⟨by omega, by have := h d List.mem_cons_self; omega⟩
    have hsub : 48 + d - 48 = d := by omega
    rw [List.map_cons]
    cases hds : ds with
    | nil => rw [List.map_nil, readDigits, if_pos hd, hsub]
    | cons e es =>
      have hrest := ih (by rw [hds]; simp) (fun x hx => h x (List.mem_cons_of_mem _ hx))
      have he : 48 + e ≠ 95 := by
        have := h e (by rw [hds]; simp)
        omega
      rw [hds, List.map_cons] at hrest
      rw [List.map_cons, readDigits, if_pos hd]
      simp only [if_neg he, hrest, hsub, Option.map_some]

theorem natText_digits (n : Nat) : ∃ ds : List Nat, natText n = ds.map (48 + ·) ∧ ds ≠ [] ∧
    (∀ d ∈ ds, d < 10) ∧ ofDigits ds = n ∧ (ds.length ≤ maxStrDigits ↔ n < 10 ^ maxStrDigits) := by
  by_cases h : n = 0
  · exact ⟨[0], by rw [natText, if_pos h]; rfl, by simp, by simp, by rw [h]; rfl,
      by rw [h]; exact iff_of_true (by decide) (Nat.pow_pos (by decide))⟩
  · refine ⟨(Nat.digits 10 n).reverse, by rw [natText, if_neg h], ?_, ?_, ?_, ?_⟩
    · simpa using Nat.digits_ne_nil_iff_ne_zero.mpr h
    · intro d hd
      exact Nat.digits_lt_base (by decide) (List.mem_reverse.mp hd)
    · rw [ofDigits_reverse, Nat.ofDigits_digits]
    · rw [List.length_reverse]
      exact Nat.digits_length_le_iff (by decide) n

theorem strip_blanks (s : Str) (h : ∀ c ∈ s, c < 127 ∧ isBlank c = false) :
    ((s.map toAscii).dropWhile isBlank).rdropWhile isBlank = s := by
  have hmap : s.map toAscii = s := by
    refine (List.map_congr_left fun c hc => ?_).trans (List.map_id s)
    rw [toAscii, if_pos (h c hc).1]
    rfl
  have hdrop : s.dropWhile isBlank = s := by
    cases s with
    | nil => rfl
    | cons c s => rw [List.dropWhile_cons_of_neg (by simp [(h c List.mem_cons_self).2])]
  rw [hmap, hdrop, List.rdropWhile_eq_self_iff]
  intro hl
  rw [(h _ (List.getLast_mem hl)).2]
  simp

theorem int_of_digits {s t : Str} {neg : Bool} {ds : List Nat}
    (hs : ∀ c ∈ s, c < 127 ∧ isBlank c = false) (hsign : readSign s = (neg, t))
    (hds : readDigits t = some ds) :
    int s = if ds.length ≤ maxStrDigits
      then some (if neg then -(ofDigits ds : Int) else ofDigits ds)
      else none := by
  simp only [int, strip_blanks s hs, hsign, hds]

theorem readSign_digit (d : Nat) (s : Str) (h : d < 10) :
    readSign ((48 + d) :: s) = (false, (48 + d) :: s) := by
  have h1 : 48 + d ≠ 45 := by omega
  have h2 : 48 + d ≠ 43 := by omega
  unfold readSign
  split
  · next e => exact absurd (List.cons.inj e).1 h1
  · next e => exact absurd (List.cons.inj e).1 h2
  · rfl

theorem mem_intText {i : Int} {c : Nat} (h : c ∈ intText i) :
    c = 45 ∨ ∃ d, d < 10 ∧ c = 48 + d := by
  have digit : ∀ n, c ∈ natText n → ∃ d, d < 10 ∧ c = 48 + d := by
    intro n hc
    obtain ⟨ds, htext, _, hlt, _⟩ := natText_digits n
    rw [htext] at hc
    obtain ⟨d, hd, rfl⟩ := List.mem_map.mp hc
    exact ⟨d, hlt d hd, rfl⟩
  cases i with
  | ofNat n => exact Or.inr (digit n h)
  | negSucc n =>
    rcases List.mem_cons.mp h with rfl | h
    · exact Or.inl rfl
    · exact Or.inr (digit _ h)

theorem intText_plain (i : Int) : ∀ c ∈ intText i, c < 127 ∧ isBlank c = false := by
  intro c hc
  rcases mem_intText hc with rfl | ⟨d, hd, rfl⟩
  · decide
  · have h1 : 13 < 48 + d := by omega
    have h2 : 48 + d ≠ 32 := by omega
    refine ⟨?_, ?_⟩
    · show 48 + d < 127
      omega
    · simp [isBlank, h1, h2]

/-- **An integer is read back from its decimal digits** when these are not too many. -/
theorem int_intText (i : Int) :
    int (intText i) = if i.natAbs < 10 ^ maxStrDigits then some i else none := by
  have hplain := intText_plain i
  cases i with
  | ofNat n =>
    obtain ⟨ds, htext, hne, hlt, hval, hlen⟩ := natText_digits n
    have hsign : readSign (ds.map (48 + ·)) = (false, ds.map (48 + ·)) := by
      cases ds with
      | nil => exact absurd rfl hne
      | cons d ds => exact readSign_digit d _ (hlt d List.mem_cons_self)
    rw [intText, htext] at hplain ⊢
    rw [int_of_digits hplain hsign (readDigits_map ds hne hlt), hval]
    exact if_congr hlen rfl rfl
  | negSucc n =>
    obtain ⟨ds, htext, hne, hlt, hval, hlen⟩ := natText_digits (n + 1)
    rw [intText, htext] at hplain ⊢
    rw [int_of_digits hplain rfl (readDigits_map ds hne hlt), hval]
    exact if_congr hlen rfl rfl

end Py
