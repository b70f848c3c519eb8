import Atsq.Lib.Text

/-!
# UTF-8: `str.encode` and `bytes.decode` with the `replace` error handler

* `encode s`   the bytes of `s`, nothing when a code point is a surrogate (`UnicodeEncodeError`);
* `decode b`   the code points of `b`; a byte that starts no character, or the longest valid start
               of a character that is cut short, becomes one `U+FFFD`.

Main results: `decode_encode` and `map_decode_splitOn`, splitting the bytes at an ASCII separator
and decoding the pieces is decoding and then splitting.
-/

namespace Py

def replacementChar : Code := 0xFFFD

def encodeCode (c : Nat) : Option Bytes :=
  if c < 0x80 then some [UInt8.ofNat c]
  else if c < 0x800 then some [UInt8.ofNat (0xC0 + c / 64), UInt8.ofNat (0x80 + c % 64)]
  else if c < 0x10000 then
    if 0xD800 ≤ c ∧ c < 0xE000 then none
    else some [UInt8.ofNat (0xE0 + c / 4096), UInt8.ofNat (0x80 + c / 64 % 64),
      UInt8.ofNat (0x80 + c % 64)]
  else if c < 0x110000 then
    some [UInt8.ofNat (0xF0 + c / 262144), UInt8.ofNat (0x80 + c / 4096 % 64),
      UInt8.ofNat (0x80 + c / 64 % 64), UInt8.ofNat (0x80 + c % 64)]
  else none

def encode : Str → Option Bytes
  | [] => some []
  | c :: s => do
    let b ← encodeCode c
    let t ← encode s
    return b ++ t

def isCont (b : Nat) : Bool := 0x80 ≤ b && b < 0xC0

/-- the second byte `b` may follow the first byte `a` of a three-byte character -/
def second3 (a b : Nat) : Bool :=
  isCont b && !(a == 0xE0 && b < 0xA0) && !(a == 0xED && 0xA0 ≤ b)

def second4 (a b : Nat) : Bool :=
  isCont b && !(a == 0xF0 && b < 0x90) && !(a == 0xF4 && 0x90 ≤ b)

def decode : Bytes → Str
  | [] => []
  | a :: l =>
    if a.toNat < 0x80 then a.toNat :: decode l
    else if a.toNat < 0xC2 then replacementChar :: decode l
    else if a.toNat < 0xE0 then
      match l with
      | [] => [replacementChar]
      | b :: l' =>
        if isCont b.toNat then (a.toNat % 32 * 64 + b.toNat % 64) :: decode l'
        else replacementChar :: decode (b :: l')
    else if a.toNat < 0xF0 then
      match l with
      | [] => [replacementChar]
      | b :: l' =>
        if second3 a.toNat b.toNat then
          match l' with
          | [] => [replacementChar]
          | c :: l'' =>
            if isCont c.toNat then
              (a.toNat % 16 * 4096 + b.toNat % 64 * 64 + c.toNat % 64) :: decode l''
            else replacementChar :: decode (c :: l'')
        else replacementChar :: decode (b :: l')
    else if a.toNat < 0xF5 then
      match l with
      | [] => [replacementChar]
      | b :: l' =>
        if second4 a.toNat b.toNat then
          match l' with
          | [] => [replacementChar]
          | c :: l'' =>
            if isCont c.toNat then
              match l'' with
              | [] => [replacementChar]
              | d :: l''' =>
                if isCont d.toNat then
                  (a.toNat % 8 * 262144 + b.toNat % 64 * 4096 + c.toNat % 64 * 64
                    + d.toNat % 64) :: decode l'''
                else replacementChar :: decode (d :: l''')
            else replacementChar :: decode (c :: l'')
        else replacementChar :: decode (b :: l')
    else replacementChar :: decode l

example : decode [0xE0, 0x80, 0x41, 0xF0, 0x9F, 0x98] = [0xFFFD, 0xFFFD, 0x41, 0xFFFD] := by decide

/-! ## one code point -/

theorem toNat_ofNat (n : Nat) (h : n < 256) : (UInt8.ofNat n).toNat = n := by
  rw [UInt8.toNat_ofNat']
  exact Nat.mod_eq_of_lt h

theorem encode_nil : encode [] = some [] := rfl
theorem encode_cons (c : Code) (s : Str) :
    encode (c :: s) = (encodeCode c).bind fun b => (encode s).bind fun t => some (b ++ t) := rfl

theorem encode_cons_eq {c : Code} {s : Str} {b : Bytes} (h : encode (c :: s) = some b) :
    ∃ u t, encodeCode c = some u ∧ encode s = some t ∧ b = u ++ t := by
  rw [encode_cons] at h
  obtain ⟨u, hu, h⟩ := Option.bind_eq_some_iff.mp h
  obtain ⟨t, ht, h⟩ := Option.bind_eq_some_iff.mp h
  exact ⟨u, t, hu, ht, (Option.some.inj h).symm⟩

theorem encodeCode_ascii (c : Nat) (h : c < 0x80) : encodeCode c = some [UInt8.ofNat c] := by
  rw [encodeCode, if_pos h]

theorem decode_one (a : UInt8) (l : Bytes) (ha : a.toNat < 0x80) :
    decode (a :: l) = a.toNat :: decode l := by
  rw [decode.eq_def]
  simp only [ha, if_true]

theorem encode_ascii (s : Str) (h : ∀ c ∈ s, c < 0x80) : encode s = some (s.map UInt8.ofNat) := by
  induction s with
  | nil => rfl
  | cons c s ih =>
    rw [encode_cons, encodeCode_ascii c (h c List.mem_cons_self),
      ih (fun d hd => h d (List.mem_cons_of_mem _ hd))]
    rfl

theorem decode_ascii (b : Bytes) (h : ∀ a ∈ b, a.toNat < 0x80) :
    decode b = b.map UInt8.toNat := by
  induction b with
  | nil => rw [decode]; rfl
  | cons a b ih =>
    rw [decode_one a b (h a List.mem_cons_self), ih (fun d hd => h d (List.mem_cons_of_mem _ hd)),
      List.map_cons]

theorem decode_two (a b : UInt8) (l : Bytes) (h1 : 0xC2 ≤ a.toNat) (h2 : a.toNat < 0xE0)
    (hb : isCont b.toNat = true) :
    decode (a :: b :: l) = (a.toNat % 32 * 64 + b.toNat % 64) :: decode l := by
  have e1 : ¬ a.toNat < 0x80 := by omega
  have e2 : ¬ a.toNat < 0xC2 := by omega
  rw [decode.eq_def]
  simp only [e1, e2, h2, hb, if_true, if_false]

theorem decode_three (a b c : UInt8) (l : Bytes) (h1 : 0xE0 ≤ a.toNat) (h2 : a.toNat < 0xF0)
    (hb : second3 a.toNat b.toNat = true) (hc : isCont c.toNat = true) :
    decode (a :: b :: c :: l)
      = (a.toNat % 16 * 4096 + b.toNat % 64 * 64 + c.toNat % 64) :: decode l := by
  have e1 : ¬ a.toNat < 0x80 := by omega
  have e2 : ¬ a.toNat < 0xC2 := by omega
  have e3 : ¬ a.toNat < 0xE0 := by omega
  rw [decode.eq_def]
  simp only [e1, e2, e3, h2, hb, hc, if_true, if_false]

theorem decode_four (a b c d : UInt8) (l : Bytes) (h1 : 0xF0 ≤ a.toNat) (h2 : a.toNat < 0xF5)
    (hb : second4 a.toNat b.toNat = true) (hc : isCont c.toNat = true)
    (hd : isCont d.toNat = true) :
    decode (a :: b :: c :: d :: l) = (a.toNat % 8 * 262144 + b.toNat % 64 * 4096
      + c.toNat % 64 * 64 + d.toNat % 64) :: decode l := by
  have e1 : ¬ a.toNat < 0x80 := by omega
  have e2 : ¬ a.toNat < 0xC2 := by omega
  have e3 : ¬ a.toNat < 0xE0 := by omega
  have e4 : ¬ a.toNat < 0xF0 := by omega
  rw [decode.eq_def]
  simp only [e1, e2, e3, e4, h2, hb, hc, hd, if_true, if_false]

theorem isCont_iff (b : Nat) : isCont b = true ↔ 0x80 ≤ b ∧ b < 0xC0 := by
  simp [isCont]

theorem second3_iff (a b : Nat) : second3 a b = true ↔
    (0x80 ≤ b ∧ b < 0xC0) ∧ ¬ (a = 0xE0 ∧ b < 0xA0) ∧ ¬ (a = 0xED ∧ 0xA0 ≤ b) := by
  simp only [second3, isCont, Bool.and_eq_true, Bool.not_eq_true', Bool.and_eq_false_iff,
    decide_eq_true_eq, decide_eq_false_iff_not, beq_eq_false_iff_ne, ne_eq]
  omega

theorem second4_iff (a b : Nat) : second4 a b = true ↔
    (0x80 ≤ b ∧ b < 0xC0) ∧ ¬ (a = 0xF0 ∧ b < 0x90) ∧ ¬ (a = 0xF4 ∧ 0x90 ≤ b) := by
  simp only [second4, isCont, Bool.and_eq_true, Bool.not_eq_true', Bool.and_eq_false_iff,
    decide_eq_true_eq, decide_eq_false_iff_not, beq_eq_false_iff_ne, ne_eq]
  omega

/-- decoding takes back one encoded code point, whatever follows -/
theorem decode_encodeCode {c : Nat} {u : Bytes} (h : encodeCode c = some u) (l : Bytes) :
    decode (u ++ l) = c :: decode l := by
  unfold encodeCode at h
  split at h
  · next h1 =>
    cases h
    have e1 := toNat_ofNat c (by omega)
    rw [List.singleton_append, decode_one _ _ (by omega), e1]
  split at h
  · next h1 h2 =>
    cases h
    have e1 := toNat_ofNat (0xC0 + c / 64) (by omega)
    have e2 := toNat_ofNat (0x80 + c % 64) (by omega)
    show decode (_ :: _ :: l) = _
    rw [decode_two _ _ _ (by omega) (by omega) (by rw [isCont_iff]; omega), e1, e2]
    congr 1
    omega
  split at h
  · next h1 h2 h3 =>
    split at h
    · cases h
    next hs =>
    cases h
    have e1 := toNat_ofNat (0xE0 + c / 4096) (by omega)
    have e2 := toNat_ofNat (0x80 + c / 64 % 64) (by omega)
    have e3 := toNat_ofNat (0x80 + c % 64) (by omega)
    show decode (_ :: _ :: _ :: l) = _
    rw [decode_three _ _ _ _ (by omega) (by omega) (by rw [second3_iff]; omega)
      (by rw [isCont_iff]; omega), e1, e2, e3]
    congr 1
    omega
  split at h
  · next h1 h2 h3 h4 =>
    cases h
    have e1 := toNat_ofNat (0xF0 + c / 262144) (by omega)
    have e2 := toNat_ofNat (0x80 + c / 4096 % 64) (by omega)
    have e3 := toNat_ofNat (0x80 + c / 64 % 64) (by omega)
    have e4 := toNat_ofNat (0x80 + c % 64) (by omega)
    show decode (_ :: _ :: _ :: _ :: l) = _
    rw [decode_four _ _ _ _ _ (by omega) (by omega) (by rw [second4_iff]; omega)
      (by rw [isCont_iff]; omega) (by rw [isCont_iff]; omega), e1, e2, e3, e4]
    congr 1
    omega
  · cases h

/-- an ASCII byte occurs only in the encoding of its own code point -/
theorem mem_encodeCode {c : Nat} {u : Bytes} (h : encodeCode c = some u) (a : Nat)
    (ha : a < 0x80) : UInt8.ofNat a ∈ u ↔ c = a := by
  have inj : ∀ n, n < 256 → (UInt8.ofNat a = UInt8.ofNat n ↔ a = n) := by
    intro n hn
    refine ⟨fun e => ?_, fun e => by rw [e]⟩
    have h1 := congrArg UInt8.toNat e
    rwa [toNat_ofNat a (by omega), toNat_ofNat n hn] at h1
  unfold encodeCode at h
  split at h
  · cases h
    rw [List.mem_singleton, inj c (by omega)]
    exact eq_comm
  split at h
  · cases h
    simp only [List.mem_cons, List.not_mem_nil, or_false]
    rw [inj _ (by omega), inj _ (by omega)]
    omega
  split at h
  · split at h
    · cases h
    cases h
    simp only [List.mem_cons, List.not_mem_nil, or_false]
    rw [inj _ (by omega), inj _ (by omega), inj _ (by omega)]
    omega
  split at h
  · cases h
    simp only [List.mem_cons, List.not_mem_nil, or_false]
    rw [inj _ (by omega), inj _ (by omega), inj _ (by omega), inj _ (by omega)]
    omega
  · cases h

/-! ## texts -/

theorem encode_append (s t : Str) :
    encode (s ++ t) = (encode s).bind fun u => (encode t).bind fun v => some (u ++ v) := by
  induction s with
  | nil => cases h : encode t <;> simp [encode_nil, h]
  | cons c s ih =>
    rw [List.cons_append, encode_cons, encode_cons, ih]
    cases encodeCode c <;> cases encode s <;> cases encode t <;> simp

theorem encode_append_eq {s t : Str} {b : Bytes} (h : encode (s ++ t) = some b) :
    ∃ u v, encode s = some u ∧ encode t = some v ∧ b = u ++ v := by
  rw [encode_append] at h
  obtain ⟨u, hu, h⟩ := Option.bind_eq_some_iff.mp h
  obtain ⟨v, hv, h⟩ := Option.bind_eq_some_iff.mp h
  exact ⟨u, v, hu, hv, (Option.some.inj h).symm⟩

/-- a text without surrogates, which `encode` does not refuse -/
def Encodes (s : Str) : Prop := ∃ b, encode s = some b

theorem encodes_append {s t : Str} (hs : Encodes s) (ht : Encodes t) : Encodes (s ++ t) := by
  obtain ⟨u, hu⟩ := hs
  obtain ⟨v, hv⟩ := ht
  refine ⟨u ++ v, ?_⟩
  rw [encode_append, hu, hv]
  rfl

theorem encodes_ascii {s : Str} (h : ∀ c ∈ s, c < 0x80) : Encodes s := ⟨_, encode_ascii s h⟩

theorem encodes_intercalate {sep : Str} (hsep : Encodes sep) {l : List Str}
    (h : ∀ s ∈ l, Encodes s) : Encodes (List.intercalate sep l) := by
  induction l with
  | nil => exact ⟨[], rfl⟩
  | cons s l ih =>
    have hrest := ih fun t ht => h t (List.mem_cons_of_mem s ht)
    by_cases hl : l = []
    · rw [hl, List.intercalate_singleton]
      exact h s List.mem_cons_self
    · rw [List.intercalate_cons_of_ne_nil hl]
      exact encodes_append (encodes_append (h s List.mem_cons_self) hsep) hrest

theorem mem_encode {s : Str} {b : Bytes} (h : encode s = some b) (a : Nat) (ha : a < 0x80) :
    UInt8.ofNat a ∈ b ↔ a ∈ s := by
  induction s generalizing b with
  | nil => cases h; simp
  | cons c s ih =>
    obtain ⟨u, t, hu, ht, rfl⟩ := encode_cons_eq h
    rw [List.mem_append, mem_encodeCode hu a ha, ih ht, List.mem_cons, eq_comm]

/-- **Decoding takes back what encoding wrote**, whatever follows. -/
theorem decode_encode_append {s : Str} {b : Bytes} (h : encode s = some b) (l : Bytes) :
    decode (b ++ l) = s ++ decode l := by
  induction s generalizing b with
  | nil => cases h; rfl
  | cons c s ih =>
    obtain ⟨u, t, hu, ht, rfl⟩ := encode_cons_eq h
    rw [List.append_assoc, decode_encodeCode hu, ih ht, List.cons_append]

theorem decode_encode {s : Str} {b : Bytes} (h : encode s = some b) : decode b = s := by
  have h1 := decode_encode_append h []
  rwa [List.append_nil, decode, List.append_nil] at h1

theorem splitOn_append_of_notMem {α : Type*} [DecidableEq α] (a : α) (u l : List α) (h : a ∉ u) :
    (u ++ l).splitOn a = (l.splitOn a).modifyHead (u ++ ·) := by
  induction u with
  | nil =>
    cases hl : l.splitOn a with
    | nil => exact absurd hl (List.splitOn_ne_nil a l)
    | cons x xs => simp [hl]
  | cons c u ih =>
    rw [List.mem_cons, not_or] at h
    have hc : (c == a) = false := by simpa using fun e => h.1 e.symm
    rw [List.cons_append, List.splitOn_cons_eq_if_modifyHead, hc, if_neg (by simp), ih h.2]
    cases l.splitOn a <;> rfl

/-- **Splitting the bytes at an ASCII separator and decoding the pieces is decoding and then
splitting.** -/
theorem map_decode_splitOn {s : Str} {b : Bytes} (h : encode s = some b) (a : Nat)
    (ha : a < 0x80) : (b.splitOn (UInt8.ofNat a)).map decode = s.splitOn a := by
  induction s generalizing b with
  | nil => cases h; rfl
  | cons c s ih =>
    obtain ⟨u, t, hu, ht, rfl⟩ := encode_cons_eq h
    rw [List.splitOn_cons_eq_if_modifyHead]
    by_cases e : c = a
    · subst e
      rw [encodeCode_ascii c ha] at hu
      cases hu
      rw [List.singleton_append, List.splitOn_cons_eq_if_modifyHead, if_pos (by simp),
        if_pos (by simp), List.map_cons, ih ht]
      rfl
    · have hn : UInt8.ofNat a ∉ u := fun hm => e ((mem_encodeCode hu a ha).mp hm)
      rw [if_neg (by simpa using e), splitOn_append_of_notMem _ _ _ hn, ← ih ht]
      cases hs : t.splitOn (UInt8.ofNat a) with
      | nil => exact absurd hs (List.splitOn_ne_nil _ _)
      | cons x xs =>
        show decode (u ++ x) :: xs.map decode = (c :: decode x) :: xs.map decode
        rw [decode_encodeCode hu]

end Py
