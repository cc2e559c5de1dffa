import LineScript.Text.Utf8
/-!
# Encoded text

What is written by `encode` is read back by `units` as the same characters,
with nothing ill-formed between them. Bytes below 0x80 only ever stand for
themselves, so a text may be searched and cut at one of them byte by byte,
and a byte that continues a character never begins one, so the last character
can be found from the end.
-/

namespace LineScript

namespace Utf8

variable {c : Char} {t : Text} {n : Nat}

/-! ## Bytes as numbers -/

/-- A number below 256 as a byte. -/
theorem toNat_toUInt8 (h : n < 256) : n.toUInt8.toNat = n := by
  rw [Nat.toUInt8_eq, UInt8.toNat_ofNat']
  exact Nat.mod_eq_of_lt h

/-- Which bytes continue a character. -/
theorem isContinuation_toUInt8 (h : n < 256) :
    isContinuation n.toUInt8 = true ↔ 0x80 ≤ n ∧ n < 0xC0 := by
  simp only [isContinuation, UInt8.le_iff_toNat_le, UInt8.lt_iff_toNat_lt, toNat_toUInt8 h,
    Bool.and_eq_true, decide_eq_true_eq]
  exact Iff.rfl

/-- What numbers characters have. -/
theorem toNat_valid (c : Char) :
    c.toNat < 0xD800 ∨ (0xDFFF < c.toNat ∧ c.toNat < 0x110000) := c.valid

/-! ## The bytes of a character -/

/-- A character below 0x80 is its own byte. -/
theorem encodeChar_of_lt (h : c.toNat < 0x80) : encodeChar c = [c.toNat.toUInt8] := by
  simp only [encodeChar, if_pos h]

/-- Any other character has a first byte from 0xC0 on, and the rest continue it. -/
theorem encodeChar_of_ge (h : 0x80 ≤ c.toNat) : ∃ first rest, encodeChar c = first :: rest ∧
    0xC0 ≤ first.toNat ∧ ∀ b ∈ rest, isContinuation b = true := by
  have valid := toNat_valid c
  have continues : ∀ k, isContinuation (0x80 + k % 64).toUInt8 = true := by
    intro k
    rw [isContinuation_toUInt8 (by omega)]
    omega
  simp only [encodeChar, if_neg (show ¬ c.toNat < 0x80 by omega)]
  split
  · refine ⟨_, _, rfl, ?_, ?_⟩
    · rw [toNat_toUInt8 (by omega)]
      omega
    · exact List.forall_mem_cons.2 ⟨continues _, List.forall_mem_nil _⟩
  · split
    · refine ⟨_, _, rfl, ?_, ?_⟩
      · rw [toNat_toUInt8 (by omega)]
        omega
      · exact List.forall_mem_cons.2 ⟨continues _,
          List.forall_mem_cons.2 ⟨continues _, List.forall_mem_nil _⟩⟩
    · refine ⟨_, _, rfl, ?_, ?_⟩
      · rw [toNat_toUInt8 (by omega)]
        omega
      · exact List.forall_mem_cons.2 ⟨continues _, List.forall_mem_cons.2 ⟨continues _,
          List.forall_mem_cons.2 ⟨continues _, List.forall_mem_nil _⟩⟩⟩

theorem isContinuation_eq_true_iff {b : UInt8} :
    isContinuation b = true ↔ 0x80 ≤ b.toNat ∧ b.toNat < 0xC0 := by
  have same := isContinuation_toUInt8 b.toNat_lt
  rwa [Nat.toUInt8_eq, UInt8.ofNat_toNat] at same

/-- **The first byte of a character continues none**, and the others do. -/
theorem encodeChar_eq_cons (c : Char) : ∃ first rest, encodeChar c = first :: rest ∧
    isContinuation first = false ∧ ∀ b ∈ rest, isContinuation b = true := by
  rcases Nat.lt_or_ge c.toNat 0x80 with low | high
  · refine ⟨_, [], encodeChar_of_lt low, ?_, List.forall_mem_nil _⟩
    rw [← Bool.not_eq_true, isContinuation_toUInt8 (by omega)]
    omega
  · obtain ⟨first, rest, bytes, lead, continues⟩ := encodeChar_of_ge high
    refine ⟨first, rest, bytes, ?_, continues⟩
    rw [← Bool.not_eq_true, isContinuation_eq_true_iff]
    omega

/-- **A byte below 0x80 stands for itself**, wherever it is found. -/
theorem eq_of_mem_encodeChar {b : UInt8} (mem : b ∈ encodeChar c) (low : b.toNat < 0x80) :
    c.toNat = b.toNat := by
  rcases Nat.lt_or_ge c.toNat 0x80 with small | high
  · rw [encodeChar_of_lt small, List.mem_singleton] at mem
    rw [mem, toNat_toUInt8 (by omega)]
  · obtain ⟨first, rest, bytes, lead, continues⟩ := encodeChar_of_ge high
    rw [bytes] at mem
    rcases List.mem_cons.1 mem with rfl | mem
    · omega
    · have := isContinuation_eq_true_iff.1 (continues b mem)
      omega

/-! ## Texts -/

@[simp] theorem encode_nil : encode [] = [] := rfl

@[simp] theorem encode_cons (c : Char) (t : Text) : encode (c :: t) = encodeChar c ++ encode t := rfl

@[simp] theorem encode_append (t t' : Text) : encode (t ++ t') = encode t ++ encode t' :=
  List.flatMap_append

/-- A text is as long as its characters together. -/
@[simp] theorem size_append (t t' : Text) : size (t ++ t') = size t + size t' := by
  rw [size, encode_append, List.length_append]
  rfl

/-- Every character takes some byte. -/
theorem one_le_size_singleton (c : Char) : 1 ≤ size [c] := by
  obtain ⟨first, rest, bytes, -⟩ := encodeChar_eq_cons c
  simp [size, bytes]

theorem encode_eq_nil_iff : encode t = [] ↔ t = [] := by
  cases t with
  | nil => exact ⟨fun _ => rfl, fun _ => rfl⟩
  | cons c t =>
    obtain ⟨first, rest, bytes, -⟩ := encodeChar_eq_cons c
    simp [bytes]

/-- A fitting part fits. -/
theorem size_fit_le (n : Nat) (t : Text) : size (fit n t) ≤ n := by
  induction t generalizing n with
  | nil => exact Nat.zero_le n
  | cons c t ih =>
    unfold fit
    split
    · next room =>
      have rest := ih (n - (encodeChar c).length)
      simp only [size, encode_cons, List.length_append] at rest ⊢
      omega
    · exact Nat.zero_le n

/-- What fits as it is stays whole. -/
theorem fit_of_size_le (h : size t ≤ n) : fit n t = t := by
  induction t generalizing n with
  | nil => rfl
  | cons c t ih =>
    rw [size, encode_cons, List.length_append] at h
    rw [fit, if_pos (by omega), ih (by rw [size]; omega)]

/-- It is a part of the text. -/
theorem mem_of_mem_fit (mem : c ∈ fit n t) : c ∈ t := by
  induction t generalizing n with
  | nil => exact mem
  | cons d t ih =>
    unfold fit at mem
    split at mem
    · rcases List.mem_cons.1 mem with rfl | mem
      · exact List.mem_cons_self
      · exact List.mem_cons_of_mem _ (ih mem)
    · cases mem

/-- The longest leading part of a text that takes at most `n` bytes. -/
structure LongestFit (n : Nat) (t part : Text) : Prop where
  leads : part <+: t
  fits : size part ≤ n
  longest : ∀ other, other <+: t → size other ≤ n → other <+: part

/-- **Nothing longer fits.** -/
theorem longestFit_fit (n : Nat) (t : Text) : LongestFit n t (fit n t) := by
  induction t generalizing n with
  | nil => exact ⟨List.nil_prefix, Nat.zero_le n, fun other leads _ => leads⟩
  | cons c t ih =>
    refine ⟨?_, size_fit_le n (c :: t), fun other leads fits => ?_⟩
    · unfold fit
      split
      · exact List.cons_prefix_cons.2 ⟨rfl, (ih _).leads⟩
      · exact List.nil_prefix
    · cases other with
      | nil => exact List.nil_prefix
      | cons d other =>
        obtain ⟨rfl, behind⟩ := List.cons_prefix_cons.1 leads
        rw [size, encode_cons, List.length_append] at fits
        rw [fit, if_pos (by omega)]
        refine List.cons_prefix_cons.2 ⟨rfl, (ih _).longest other behind ?_⟩
        rw [size]
        omega

theorem LongestFit.eq_fit {part : Text} (h : LongestFit n t part) : part = fit n t := by
  have other := longestFit_fit n t
  have within := other.longest part h.leads h.fits
  have back := h.longest (fit n t) other.leads other.fits
  exact within.eq_of_length_le back.length_le

/-- A text of characters below 0x80 takes a byte for each, -/
theorem size_of_ascii (h : ∀ c ∈ t, c.toNat < 0x80) : size t = t.length := by
  induction t with
  | nil => rfl
  | cons c t ih =>
    obtain ⟨first, rest⟩ := List.forall_mem_cons.1 h
    have behind := ih rest
    rw [size] at behind
    rw [size, encode_cons, encodeChar_of_lt first, List.length_append, behind, List.length_singleton,
      List.length_cons, Nat.add_comm]

/-- so as many of them fit as there are bytes. -/
theorem fit_of_ascii (h : ∀ c ∈ t, c.toNat < 0x80) (n : Nat) : fit n t = t.take n := by
  induction t generalizing n with
  | nil => rw [List.take_nil, fit]
  | cons c t ih =>
    obtain ⟨first, rest⟩ := List.forall_mem_cons.1 h
    rw [fit, encodeChar_of_lt first, List.length_singleton]
    cases n with
    | zero => rfl
    | succ n => rw [if_pos (Nat.le_add_left 1 n), ih rest, Nat.add_sub_cancel, List.take_succ_cons]

/-! ## Searching bytes -/

/-- A byte below 0x80 is found where its character is. -/
theorem mem_encode_iff {b : UInt8} (low : b.toNat < 0x80) (h : c.toNat = b.toNat) :
    b ∈ encode t ↔ c ∈ t := by
  have itself : encodeChar c = [b] := by
    rw [encodeChar_of_lt (by omega), h, Nat.toUInt8_eq, UInt8.ofNat_toNat]
  rw [encode, List.mem_flatMap]
  constructor
  · rintro ⟨d, mem, found⟩
    have same : d = c := Char.toNat_inj.1 ((eq_of_mem_encodeChar found low).trans h.symm)
    exact same ▸ mem
  · intro mem
    exact ⟨c, mem, itself ▸ List.mem_singleton_self b⟩

/-- **A test that treats the bytes of each character alike** splits the bytes
where it splits the text. -/
theorem span_encode {p : UInt8 → Bool} {q : Char → Bool}
    (passes : ∀ c, q c = true → ∀ b ∈ encodeChar c, p b = true)
    (stops : ∀ c, q c = false → ∀ b ∈ encodeChar c, p b = false) (t : Text) :
    (encode t).takeWhile p = encode (t.takeWhile q) ∧
      (encode t).dropWhile p = encode (t.dropWhile q) := by
  induction t with
  | nil => exact ⟨rfl, rfl⟩
  | cons c t ih =>
    rw [encode_cons]
    cases test : q c with
    | true =>
      have all := passes c test
      rw [List.takeWhile_append_of_pos all, List.dropWhile_append_of_pos all,
        List.takeWhile_cons_of_pos test, List.dropWhile_cons_of_pos test, ih.1, ih.2]
      exact ⟨rfl, rfl⟩
    | false =>
      obtain ⟨first, rest, bytes, -⟩ := encodeChar_eq_cons c
      have none : ¬ p first = true := by
        rw [stops c test first (bytes ▸ List.mem_cons_self)]
        decide
      have stop : ¬ q c = true := by
        rw [test]
        decide
      rw [List.takeWhile_cons_of_neg stop, List.dropWhile_cons_of_neg stop, bytes, List.cons_append,
        List.takeWhile_cons_of_neg none, List.dropWhile_cons_of_neg none]
      exact ⟨rfl, by rw [encode_cons, bytes, List.cons_append]⟩

/-- What a byte below 0x80 says about the bytes of each character. -/
theorem eq_iff_of_mem_encodeChar {a : Char} {b b' : UInt8} (low : b.toNat < 0x80)
    (h : a.toNat = b.toNat) (mem : b' ∈ encodeChar c) : b' = b ↔ c = a := by
  constructor
  · rintro rfl
    exact Char.toNat_inj.1 ((eq_of_mem_encodeChar mem low).trans h.symm)
  · rintro rfl
    rw [encodeChar_of_lt (by omega), h, Nat.toUInt8_eq, UInt8.ofNat_toNat,
      List.mem_singleton] at mem
    exact mem

/-- The run of one such byte at the front of a text, and what follows it. -/
theorem span_eq_encode {a : Char} {b : UInt8} (low : b.toNat < 0x80) (h : a.toNat = b.toNat)
    (t : Text) : (encode t).takeWhile (· = b) = encode (t.takeWhile (· = a)) ∧
      (encode t).dropWhile (· = b) = encode (t.dropWhile (· = a)) := by
  refine span_encode (fun c test b' mem => ?_) (fun c test b' mem => ?_) t
  · exact decide_eq_true ((eq_iff_of_mem_encodeChar low h mem).2 (of_decide_eq_true test))
  · exact decide_eq_false fun same =>
      of_decide_eq_false test ((eq_iff_of_mem_encodeChar low h mem).1 same)

/-- What stands before the first such byte, and what follows from there on. -/
theorem span_ne_encode {a : Char} {b : UInt8} (low : b.toNat < 0x80) (h : a.toNat = b.toNat)
    (t : Text) : (encode t).takeWhile (· ≠ b) = encode (t.takeWhile (· ≠ a)) ∧
      (encode t).dropWhile (· ≠ b) = encode (t.dropWhile (· ≠ a)) := by
  refine span_encode (fun c test b' mem => ?_) (fun c test b' mem => ?_) t
  · exact decide_eq_true fun same =>
      of_decide_eq_true test ((eq_iff_of_mem_encodeChar low h mem).1 same)
  · refine decide_eq_false fun differ => of_decide_eq_false test fun same => differ ?_
    exact (eq_iff_of_mem_encodeChar low h mem).2 same

/-! ## Reading what was written -/

/-- With nothing left to gather, a character is complete. -/
theorem gather_zero (bits taken : Nat) (low high : UInt8) (rest : List UInt8) :
    gather 0 bits low high taken rest = (some (Char.ofNat bits), taken) := by
  cases rest <;> rfl

/-- A byte within its bounds gives its six bits. -/
theorem gather_cons {k x : Nat} (bits taken : Nat) {low high : UInt8} (rest : List UInt8)
    (small : x < 64) (above : low.toNat ≤ 0x80 + x) (below : 0x80 + x ≤ high.toNat) :
    gather (k + 1) bits low high taken ((0x80 + x).toUInt8 :: rest) =
      gather k (bits * 64 + x) 0x80 0xBF (taken + 1) rest := by
  have value : (0x80 + x).toUInt8.toNat = 0x80 + x := toNat_toUInt8 (by omega)
  have inside : (low ≤ (0x80 + x).toUInt8 && (0x80 + x).toUInt8 ≤ high) = true := by
    simp only [UInt8.le_iff_toNat_le, value, above, below, decide_true, Bool.and_self]
  have left : 0x80 + x - 0x80 = x := by omega
  rw [gather, if_neg (Nat.succ_ne_zero k), if_pos inside, value, left, Nat.add_sub_cancel]

/-- What a first byte announces, by its number. -/
theorem ofByte?_toUInt8 (h : n < 256) : Lead.ofByte? n.toUInt8 =
    if n < 0x80 then some { more := 0, bits := n }
    else if n < 0xC2 then none
    else if n < 0xE0 then some { more := 1, bits := n - 0xC0 }
    else if n = 0xE0 then some { more := 2, bits := 0, low := 0xA0 }
    else if n = 0xED then some { more := 2, bits := 0xD, high := 0x9F }
    else if n < 0xF0 then some { more := 2, bits := n - 0xE0 }
    else if n = 0xF0 then some { more := 3, bits := 0, low := 0x90 }
    else if n < 0xF4 then some { more := 3, bits := n - 0xF0 }
    else if n = 0xF4 then some { more := 3, bits := 4, high := 0x8F }
    else none := by
  unfold Lead.ofByte?
  simp only [UInt8.lt_iff_toNat_lt, ← UInt8.toNat_inj, toNat_toUInt8 h]
  rfl

/-- What a lead announces, and that the second byte is within its bounds. -/
structure Lead.Announces (l : Lead) (more bits x : Nat) : Prop where
  more : l.more = more
  bits : l.bits = bits
  low : l.low.toNat ≤ 0x80 + x
  high : 0x80 + x ≤ l.high.toNat

/-- The lead of a character of three bytes: neither overlong nor a surrogate. -/
theorem ofByte?_three {k x : Nat} (small : k < 16) (overlong : k = 0 → 32 ≤ x)
    (surrogate : k = 13 → x < 32) (bound : x < 64) :
    ∃ l, Lead.ofByte? (0xE0 + k).toUInt8 = some l ∧ l.Announces 2 k x := by
  rw [ofByte?_toUInt8 (by omega), if_neg (by omega), if_neg (by omega), if_neg (by omega)]
  by_cases first : k = 0
  · rw [if_pos (by omega)]
    have := overlong first
    exact ⟨_, rfl, rfl, first.symm, show 0xA0 ≤ 0x80 + x by omega, show 0x80 + x ≤ 0xBF by omega⟩
  · rw [if_neg (by omega)]
    by_cases last : k = 13
    · rw [if_pos (by omega)]
      have := surrogate last
      exact ⟨_, rfl, rfl, last.symm, show 0x80 ≤ 0x80 + x by omega, show 0x80 + x ≤ 0x9F by omega⟩
    · rw [if_neg (by omega), if_pos (by omega)]
      exact ⟨_, rfl, rfl, show 0xE0 + k - 0xE0 = k by omega, show 0x80 ≤ 0x80 + x by omega,
        show 0x80 + x ≤ 0xBF by omega⟩

/-- The lead of a character of four bytes: neither overlong nor past the last one. -/
theorem ofByte?_four {k x : Nat} (small : k < 5) (overlong : k = 0 → 16 ≤ x)
    (past : k = 4 → x < 16) (bound : x < 64) :
    ∃ l, Lead.ofByte? (0xF0 + k).toUInt8 = some l ∧ l.Announces 3 k x := by
  rw [ofByte?_toUInt8 (by omega), if_neg (by omega), if_neg (by omega), if_neg (by omega),
    if_neg (by omega), if_neg (by omega), if_neg (by omega)]
  by_cases first : k = 0
  · rw [if_pos (by omega)]
    have := overlong first
    exact ⟨_, rfl, rfl, first.symm, show 0x90 ≤ 0x80 + x by omega, show 0x80 + x ≤ 0xBF by omega⟩
  · rw [if_neg (by omega)]
    by_cases last : k = 4
    · rw [if_neg (by omega), if_pos (by omega)]
      have := past last
      exact ⟨_, rfl, rfl, last.symm, show 0x80 ≤ 0x80 + x by omega, show 0x80 + x ≤ 0x8F by omega⟩
    · rw [if_pos (by omega)]
      exact ⟨_, rfl, rfl, show 0xF0 + k - 0xF0 = k by omega, show 0x80 ≤ 0x80 + x by omega,
        show 0x80 + x ≤ 0xBF by omega⟩

/-- **A character is read back from its bytes**, whatever follows them. -/
theorem unitAt_encodeChar (c : Char) (rest : List UInt8) : ∃ first more,
    encodeChar c = first :: more ∧ unitAt first (more ++ rest) = (some c, more.length) := by
  have valid := toNat_valid c
  have number : Char.ofNat c.toNat = c := Char.ofNat_toNat c
  unfold encodeChar
  generalize c.toNat = n at valid number
  dsimp only
  split
  · refine ⟨_, _, rfl, ?_⟩
    rw [unitAt, ofByte?_toUInt8 (by omega), if_pos (by omega)]
    dsimp only
    rw [gather_zero, number]
    rfl
  · split
    · refine ⟨_, _, rfl, ?_⟩
      rw [unitAt, ofByte?_toUInt8 (by omega), if_neg (by omega), if_neg (by omega),
        if_pos (by omega)]
      dsimp only [List.cons_append]
      rw [gather_cons _ _ _ (by omega) (show 0x80 ≤ 0x80 + n % 64 by omega)
        (show 0x80 + n % 64 ≤ 0xBF by omega), gather_zero]
      have whole : (0xC0 + n / 64 - 0xC0) * 64 + n % 64 = n := by omega
      rw [whole, number]
      rfl
    · split
      · -- the bound on the second byte rules out what is overlong or a surrogate
        obtain ⟨l, lead, announced⟩ := ofByte?_three (k := n / 4096) (x := n / 64 % 64)
          (by omega) (by omega) (by omega) (by omega)
        refine ⟨_, _, rfl, ?_⟩
        rw [unitAt, lead]
        dsimp only [List.cons_append]
        rw [announced.more, announced.bits,
          gather_cons _ _ _ (by omega) announced.low announced.high,
          gather_cons _ _ _ (by omega) (show 0x80 ≤ 0x80 + n % 64 by omega)
            (show 0x80 + n % 64 ≤ 0xBF by omega), gather_zero]
        have whole : (n / 4096 * 64 + n / 64 % 64) * 64 + n % 64 = n := by omega
        rw [whole, number]
        rfl
      · obtain ⟨l, lead, announced⟩ := ofByte?_four (k := n / 262144) (x := n / 4096 % 64)
          (by omega) (by omega) (by omega) (by omega)
        refine ⟨_, _, rfl, ?_⟩
        rw [unitAt, lead]
        dsimp only [List.cons_append]
        rw [announced.more, announced.bits,
          gather_cons _ _ _ (by omega) announced.low announced.high,
          gather_cons _ _ _ (by omega) (show 0x80 ≤ 0x80 + n / 64 % 64 by omega)
            (show 0x80 + n / 64 % 64 ≤ 0xBF by omega),
          gather_cons _ _ _ (by omega) (show 0x80 ≤ 0x80 + n % 64 by omega)
            (show 0x80 + n % 64 ≤ 0xBF by omega), gather_zero]
        have whole : ((n / 262144 * 64 + n / 4096 % 64) * 64 + n / 64 % 64) * 64 + n % 64 = n := by
          omega
        rw [whole, number]
        rfl

/-- Bytes that belong to a unit are passed over. -/
theorem unitsFrom_length_append (more rest : List UInt8) :
    unitsFrom more.length (more ++ rest) = unitsFrom 0 rest := by
  induction more with
  | nil => rfl
  | cons b more ih => exact ih

/-- **The units of an encoded text are its characters.** -/
theorem units_encode (t : Text) : units (encode t) = t.map some := by
  induction t with
  | nil => rfl
  | cons c t ih =>
    obtain ⟨first, more, bytes, read⟩ := unitAt_encodeChar c (encode t)
    rw [encode_cons, bytes, List.cons_append, units, unitsFrom, read]
    dsimp only
    rw [unitsFrom_length_append, List.map_cons]
    exact congrArg _ ih

/-- **Decoding undoes encoding.** -/
theorem decode_encode (t : Text) : decode (encode t) = t := by
  rw [decode, units_encode]
  induction t with
  | nil => rfl
  | cons c t ih =>
    have kept : id (some c) = some c := rfl
    rw [List.map_cons, List.takeWhile_cons_of_pos rfl, List.filterMap_cons_some kept, ih]

end Utf8

end LineScript
