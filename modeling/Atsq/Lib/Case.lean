import Atsq.Lib.Text

/-!
# `str.lower`

The lower case of an ASCII character is another ASCII character.  What becomes of the other
characters is a parameter, which may look at the text on both sides.

* `lower`      `str.lower`;
* `InAnyCase`  a text contains a word in some letter case.

Main result: `infix_lower`, `word in text.lower()` for a word of ASCII characters that no other
character turns into.
-/

namespace Py

/-- a character that is not ASCII, with the text before and after it, in lower case -/
abbrev Lowering := Str → Code → Str → Str

def lowerAscii (c : Code) : Code := if 65 ≤ c ∧ c ≤ 90 then c + 32 else c

def lowerFrom (other : Lowering) (before : Str) : Str → Str
  | [] => []
  | c :: after =>
    (if c < 128 then [lowerAscii c] else other before c after)
      ++ lowerFrom other (before ++ [c]) after

/-- `str.lower` -/
def lower (other : Lowering) (s : Str) : Str := lowerFrom other [] s

/-- the text contains the word, which is in lower case, in some letter case -/
def InAnyCase (word text : Str) : Prop := ∃ w, w <:+: text ∧ w.map lowerAscii = word

theorem lowerFrom_cons (other : Lowering) (before : Str) (c : Code) (after : Str) :
    lowerFrom other before (c :: after)
      = (if c < 128 then [lowerAscii c] else other before c after)
        ++ lowerFrom other (before ++ [c]) after := rfl

/-- no character that is not ASCII turns into one of the word, and none vanishes -/
structure Apart (other : Lowering) (word : Str) : Prop where
  ne_nil : ∀ before c after, 128 ≤ c → other before c after ≠ []
  not_mem : ∀ before c after, 128 ≤ c → ∀ q ∈ other before c after, q ∉ word

section
variable {other : Lowering} {word : Str}

theorem prefix_lowerFrom (h : Apart other word) {p : Str} (hp : ∀ q ∈ p, q ∈ word) (before : Str) :
    ∀ text, p <+: lowerFrom other before text → ∃ w, w <+: text ∧ w.map lowerAscii = p := by
  induction p generalizing before with
  | nil => exact fun text _ => ⟨[], List.nil_prefix, rfl⟩
  | cons q p ih =>
    intro text hpre
    cases text with
    | nil =>
      have := List.prefix_nil.mp hpre
      cases this
    | cons c after =>
      rw [lowerFrom_cons] at hpre
      by_cases hc : c < 128
      · rw [if_pos hc, List.singleton_append, List.cons_prefix_cons] at hpre
        obtain ⟨w, hw, hmap⟩ :=
          ih (fun x hx => hp x (List.mem_cons_of_mem _ hx)) (before ++ [c]) after hpre.2
        refine ⟨c :: w, List.cons_prefix_cons.mpr ⟨rfl, hw⟩, ?_⟩
        rw [List.map_cons, hmap, hpre.1]
      · -- the first character cannot come from such a character
        rw [if_neg hc] at hpre
        have hc : 128 ≤ c := Nat.le_of_not_lt hc
        cases hother : other before c after with
        | nil => exact absurd hother (h.ne_nil before c after hc)
        | cons x xs =>
          rw [hother, List.cons_append, List.cons_prefix_cons] at hpre
          have hx : x ∈ other before c after := by
            rw [hother]
            exact List.mem_cons_self
          exact absurd (hpre.1 ▸ hp q List.mem_cons_self) (h.not_mem before c after hc x hx)

theorem infix_of_infix_append {q : Code} {p xs ys : Str} (hxs : q ∉ xs)
    (h : q :: p <:+: xs ++ ys) : q :: p <:+: ys := by
  induction xs with
  | nil => exact h
  | cons x xs ih =>
    rw [List.cons_append, List.infix_cons_iff] at h
    rcases h with h | h
    · exact absurd (List.cons_prefix_cons.mp h).1 fun e => hxs (e ▸ List.mem_cons_self)
    · exact ih (fun hq => hxs (List.mem_cons_of_mem _ hq)) h

theorem inAnyCase_of_infix (h : Apart other word) (hne : word ≠ []) (before : Str) (text : Str)
    (hin : word <:+: lowerFrom other before text) : InAnyCase word text := by
  induction text generalizing before with
  | nil =>
    have := List.infix_nil.mp hin
    exact absurd this hne
  | cons c after ih =>
    have later : InAnyCase word after → InAnyCase word (c :: after) := fun ⟨w, hw, hmap⟩ =>
      ⟨w, hw.trans (List.suffix_cons c after).isInfix, hmap⟩
    rw [lowerFrom_cons] at hin
    by_cases hc : c < 128
    · rw [if_pos hc, List.singleton_append, List.infix_cons_iff] at hin
      rcases hin with hin | hin
      · have hpre : word <+: lowerFrom other before (c :: after) := by
          rw [lowerFrom_cons, if_pos hc]
          exact hin
        obtain ⟨w, hw, hmap⟩ := prefix_lowerFrom h (fun _ => id) before (c :: after) hpre
        exact ⟨w, hw.isInfix, hmap⟩
      · exact later (ih _ hin)
    · rw [if_neg hc] at hin
      cases word with
      | nil => exact absurd rfl hne
      | cons q p =>
        refine later (ih _ (infix_of_infix_append ?_ hin))
        exact fun hq => h.not_mem before c after (Nat.le_of_not_lt hc) q hq List.mem_cons_self

theorem lowerFrom_append (before s t : Str) :
    lowerFrom other before (s ++ t)
      = lowerFrom (fun b c a => other b c (a ++ t)) before s
        ++ lowerFrom other (before ++ s) t := by
  induction s generalizing before with
  | nil => rw [List.nil_append, List.append_nil]; rfl
  | cons c s ih =>
    rw [List.cons_append, lowerFrom_cons, lowerFrom_cons, ih, List.append_assoc, List.append_assoc,
      List.singleton_append]

theorem lowerFrom_ascii {s : Str} (hs : ∀ c ∈ s, c < 128) (before : Str) :
    lowerFrom other before s = s.map lowerAscii := by
  induction s generalizing before with
  | nil => rfl
  | cons c s ih =>
    have hs' : ∀ x ∈ s, x < 128 := fun x hx => hs x (List.mem_cons_of_mem _ hx)
    rw [lowerFrom_cons, if_pos (hs c List.mem_cons_self), ih hs']
    rfl

/-- **`word in text.lower()` tells whether the text contains the word in some letter case.** -/
theorem infix_lower (h : Apart other word) (hne : word ≠ []) (hascii : ∀ q ∈ word, q < 128)
    (text : Str) : word <:+: lower other text ↔ InAnyCase word text := by
  constructor
  · exact inAnyCase_of_infix h hne [] text
  · rintro ⟨w, ⟨s, t, rfl⟩, hmap⟩
    have hw : ∀ c ∈ w, c < 128 := by
      intro c hc
      by_contra hge
      have hmem : lowerAscii c ∈ word := hmap ▸ List.mem_map_of_mem hc
      have hself : lowerAscii c = c :=
        if_neg fun hupper => hge (Nat.lt_of_le_of_lt hupper.2 (by decide))
      exact hge (hascii c (hself ▸ hmem))
    unfold lower
    rw [lowerFrom_append, lowerFrom_append, lowerFrom_ascii hw, hmap]
    exact ⟨_, _, rfl⟩

end

end Py
