import LineScript.Proofs.Text.Utf8
import Mathlib.Data.List.Basic
/-!
# Bytes that are no text

Any bytes fall into characters and ill-formed parts, one after another. An
ill-formed part stands where no character does, and is as much of a character
as there is, or else a single byte (`IllFormed`). So there is one way to read
bytes as a text with U+FFFD for each such part (`Lossy`), and `lossy` is it
(`lossy_iff`).

What may follow the first byte of a character is what its lead admits
(`leads_cons_iff`): every byte within its bounds, up to the number announced.
The first unit of some bytes is found on these grounds (`exists_unit`).
-/

namespace LineScript

namespace Utf8

variable {b low high : UInt8} {more bits : Nat} {c : Char} {t : Text}
variable {bytes part rest front tail behind : List UInt8}

/-! ## What bytes fall into -/

/-- The bytes begin a character, or make up one. -/
def Leads (part : List UInt8) : Prop := ∃ c, part <+: encodeChar c

/-- An ill-formed part, with `rest` behind it: where no character stands, the
longest run of bytes that begins one, or a single byte. -/
structure IllFormed (part rest : List UInt8) : Prop where
  nonempty : part ≠ []
  noCharacter : ∀ c, ¬ encodeChar c <+: part ++ rest
  leads : part.length = 1 ∨ Leads part
  maximal : ∀ longer, longer <+: part ++ rest → part.length < longer.length → ¬ Leads longer

/-- The text some bytes are read as, with U+FFFD for each ill-formed part. -/
inductive Lossy : List UInt8 → Text → Prop where
  | nil : Lossy [] []
  | character (c : Char) {rest : List UInt8} {t : Text} (h : Lossy rest t) :
      Lossy (encodeChar c ++ rest) (c :: t)
  | illFormed {part rest : List UInt8} {t : Text} (bad : IllFormed part rest) (h : Lossy rest t) :
      Lossy (part ++ rest) ('\uFFFD' :: t)

/-- Of two ill-formed parts at one place neither is longer. -/
theorem IllFormed.length_le {part' rest' : List UInt8} (h : IllFormed part rest)
    (h' : IllFormed part' rest') (same : part ++ rest = part' ++ rest') :
    part'.length ≤ part.length := by
  apply Nat.le_of_not_lt
  intro longer
  have pos : 0 < part.length := List.length_pos_iff.2 h.nonempty
  have leads : Leads part' := by
    rcases h'.leads with one | leads
    · omega
    · exact leads
  refine h.maximal part' ?_ (by omega) leads
  rw [same]
  exact List.prefix_append part' rest'

/-! ## What a lead admits -/

/-- The bytes may come next, where `more` are to follow and the next is bounded
by `low` and `high`. -/
def Admits : (more : Nat) → (low high : UInt8) → List UInt8 → Prop
  | _, _, _, [] => True
  | 0, _, _, _ :: _ => False
  | more + 1, low, high, b :: rest => (low ≤ b ∧ b ≤ high) ∧ Admits more 0x80 0xBF rest

/-- The number that the six bits of each byte add up to, behind the first bits. -/
def sixes (bits : Nat) (tail : List UInt8) : Nat :=
  tail.foldl (fun n b => n * 64 + (b.toNat - 0x80)) bits

theorem sixes_cons (bits : Nat) (b : UInt8) (tail : List UInt8) :
    sixes bits (b :: tail) = sixes (bits * 64 + (b.toNat - 0x80)) tail := by
  simp only [sixes, List.foldl_cons]

theorem admits_nil (more : Nat) (low high : UInt8) : Admits more low high [] := by
  cases more <;> trivial

theorem Admits.length_le (h : Admits more low high tail) : tail.length ≤ more := by
  induction tail generalizing more low high with
  | nil => exact Nat.zero_le more
  | cons b tail ih =>
    cases more with
    | zero => exact absurd h id
    | succ more =>
      have := ih h.2
      simp only [List.length_cons]
      omega

/-- What is admitted is admitted byte by byte. -/
theorem Admits.of_append (h : Admits more low high (tail ++ behind)) : Admits more low high tail := by
  induction tail generalizing more low high with
  | nil => exact admits_nil more low high
  | cons b tail ih =>
    cases more with
    | zero => exact absurd h id
    | succ more => exact ⟨h.1, ih h.2⟩

/-- **It can be completed**, as long as there is a byte within the bounds. -/
theorem Admits.complete (h : Admits more low high tail) (some : low ≤ high) :
    ∃ behind, Admits more low high (tail ++ behind) ∧ (tail ++ behind).length = more := by
  induction tail generalizing more low high with
  | nil =>
    induction more generalizing low high with
    | zero => exact ⟨[], h, rfl⟩
    | succ more ih =>
      obtain ⟨behind, admitted, length⟩ := ih (admits_nil more 0x80 0xBF) (by decide)
      refine ⟨low :: behind, ⟨⟨UInt8.le_refl low, some⟩, admitted⟩, ?_⟩
      simpa using length
  | cons b tail ih =>
    cases more with
    | zero => exact absurd h id
    | succ more =>
      obtain ⟨behind, admitted, length⟩ := ih h.2 (by decide)
      refine ⟨behind, ⟨h.1, admitted⟩, ?_⟩
      simpa using length

/-- **What is gathered** is admitted, and ends with the character or before the
first byte that is not. -/
theorem exists_gather (more bits : Nat) (low high : UInt8) (taken : Nat) (bytes : List UInt8) :
    ∃ front behind, bytes = front ++ behind ∧ Admits more low high front ∧
      ((front.length = more ∧ gather more bits low high taken bytes =
          (some (Char.ofNat (sixes bits front)), taken + front.length)) ∨
        (front.length < more ∧
          gather more bits low high taken bytes = (none, taken + front.length) ∧
          ∀ longer, longer <+: bytes → front.length < longer.length →
            ¬ Admits more low high longer)) := by
  induction bytes generalizing more bits low high taken with
  | nil =>
    refine ⟨[], [], rfl, admits_nil more low high, ?_⟩
    cases more with
    | zero => exact .inl ⟨rfl, rfl⟩
    | succ more =>
      refine .inr ⟨Nat.succ_pos more, rfl, ?_⟩
      intro longer leads long
      have := leads.length_le
      simp only [List.length_nil] at this long
      omega
  | cons b bytes ih =>
    cases more with
    | zero => exact ⟨[], b :: bytes, rfl, trivial, .inl ⟨rfl, rfl⟩⟩
    | succ more =>
      by_cases inside : low ≤ b ∧ b ≤ high
      · have within : (low ≤ b && b ≤ high) = true := by
          simp only [Bool.and_eq_true, decide_eq_true_eq]
          exact inside
        obtain ⟨front, behind, rfl, admitted, found⟩ :=
          ih more (bits * 64 + (b.toNat - 0x80)) 0x80 0xBF (taken + 1)
        have step : gather (more + 1) bits low high taken (b :: (front ++ behind)) =
            gather more (bits * 64 + (b.toNat - 0x80)) 0x80 0xBF (taken + 1) (front ++ behind) := by
          rw [gather, if_neg (Nat.succ_ne_zero more), if_pos within, Nat.add_sub_cancel]
        have count : taken + 1 + front.length = taken + (b :: front).length := by
          simp only [List.length_cons]
          omega
        refine ⟨b :: front, behind, rfl, ⟨inside, admitted⟩, ?_⟩
        rw [step, ← count, sixes_cons]
        rcases found with ⟨all, gathered⟩ | ⟨few, gathered, stops⟩
        · refine .inl ⟨?_, gathered⟩
          simp only [List.length_cons, all]
        · refine .inr ⟨?_, gathered, ?_⟩
          · simp only [List.length_cons]
            omega
          · intro longer leads long longerAdmitted
            cases longer with
            | nil => simp at long
            | cons b' longer =>
              obtain ⟨rfl, leads'⟩ := List.cons_prefix_cons.1 leads
              exact stops longer leads' (by simpa using long) longerAdmitted.2
      · have outside : ¬ (low ≤ b && b ≤ high) = true := by
          simp only [Bool.and_eq_true, decide_eq_true_eq]
          exact inside
        refine ⟨[], b :: bytes, rfl, trivial, .inr ⟨Nat.succ_pos more, ?_, ?_⟩⟩
        · rw [gather, if_neg (Nat.succ_ne_zero more), if_neg outside]
          rfl
        · intro longer leads long admitted
          cases longer with
          | nil => simp at long
          | cons b' longer =>
            obtain ⟨rfl, -⟩ := List.cons_prefix_cons.1 leads
            exact inside admitted.1

/-! ## Characters and what their leads admit -/

/-- What a lead says of its byte: how many bytes follow, the bits it carries,
and bounds that rule out overlong forms, surrogates and what is past the last
character. -/
inductive Lead.Of (b : UInt8) : Lead → Prop where
  | one (ascii : b.toNat < 0x80) : Of b ⟨0, b.toNat, 0x80, 0xBF⟩
  | two (first : 0xC2 ≤ b.toNat) (last : b.toNat < 0xE0) : Of b ⟨1, b.toNat - 0xC0, 0x80, 0xBF⟩
  | three {low high : UInt8} (first : 0xE0 ≤ b.toNat) (last : b.toNat < 0xF0)
      (least : 0x80 ≤ low.toNat) (greatest : high.toNat ≤ 0xBF) (some : low ≤ high)
      (overlong : b.toNat = 0xE0 → 0xA0 ≤ low.toNat)
      (surrogate : b.toNat = 0xED → high.toNat ≤ 0x9F) : Of b ⟨2, b.toNat - 0xE0, low, high⟩
  | four {low high : UInt8} (first : 0xF0 ≤ b.toNat) (last : b.toNat < 0xF5)
      (least : 0x80 ≤ low.toNat) (greatest : high.toNat ≤ 0xBF) (some : low ≤ high)
      (overlong : b.toNat = 0xF0 → 0x90 ≤ low.toNat)
      (past : b.toNat = 0xF4 → high.toNat ≤ 0x8F) : Of b ⟨3, b.toNat - 0xF0, low, high⟩

theorem Lead.of_ofByte? {l : Lead} (h : Lead.ofByte? b = some l) : Lead.Of b l := by
  have number := ofByte?_toUInt8 b.toNat_lt
  rw [Nat.toUInt8_eq, UInt8.ofNat_toNat, h] at number
  split at number
  · next ascii =>
    obtain rfl := Option.some.inj number
    exact .one ascii
  split at number
  · cases number
  split at number
  · obtain rfl := Option.some.inj number
    exact .two (by omega) (by omega)
  split at number
  · obtain rfl := Option.some.inj number
    have bits : b.toNat - 0xE0 = 0 := by omega
    rw [← bits]
    exact .three (by omega) (by omega) (by decide) (by decide) (by decide) (fun _ => by decide)
      (fun last => by omega)
  split at number
  · obtain rfl := Option.some.inj number
    have bits : b.toNat - 0xE0 = 0xD := by omega
    rw [← bits]
    exact .three (by omega) (by omega) (by decide) (by decide) (by decide) (fun first => by omega)
      (fun _ => by decide)
  split at number
  · obtain rfl := Option.some.inj number
    exact .three (by omega) (by omega) (by decide) (by decide) (by decide) (fun first => by omega)
      (fun last => by omega)
  split at number
  · obtain rfl := Option.some.inj number
    have bits : b.toNat - 0xF0 = 0 := by omega
    rw [← bits]
    exact .four (by omega) (by omega) (by decide) (by decide) (by decide) (fun _ => by decide)
      (fun last => by omega)
  split at number
  · obtain rfl := Option.some.inj number
    exact .four (by omega) (by omega) (by decide) (by decide) (by decide) (fun first => by omega)
      (fun last => by omega)
  split at number
  · obtain rfl := Option.some.inj number
    have bits : b.toNat - 0xF0 = 4 := by omega
    rw [← bits]
    exact .four (by omega) (by omega) (by decide) (by decide) (by decide) (fun first => by omega)
      (fun _ => by decide)
  · cases number

/-- Some byte may follow. -/
theorem Lead.Of.low_le_high {l : Lead} (h : Lead.Of b l) : l.low ≤ l.high := by
  have bounds : (0x80 : UInt8) ≤ 0xBF := by decide
  cases h with
  | one | two => exact bounds
  | three _ _ _ _ some | four _ _ _ _ some => exact some

/-- A character is found by its number, if there is one. -/
theorem toNat_ofNat {n : Nat} (valid : n < 0xD800 ∨ (0xDFFF < n ∧ n < 0x110000)) :
    (Char.ofNat n).toNat = n := by
  have isValid : n.isValidChar := valid
  rw [Char.ofNat, dif_pos isValid]
  rfl

theorem toUInt8_of_eq {n : Nat} (h : n = b.toNat) : n.toUInt8 = b := by
  rw [h, Nat.toUInt8_eq, UInt8.ofNat_toNat]

/-- **What a lead admits makes up a character**, once it is complete. -/
theorem encodeChar_of_admits {l : Lead} (h : Lead.Of b l) (admitted : Admits l.more l.low l.high tail)
    (complete : tail.length = l.more) : encodeChar (Char.ofNat (sixes l.bits tail)) = b :: tail := by
  cases h with
  | one ascii =>
    obtain rfl := List.length_eq_zero_iff.1 complete
    have number : (Char.ofNat b.toNat).toNat = b.toNat := toNat_ofNat (by omega)
    have same : sixes b.toNat [] = b.toNat := rfl
    rw [same, encodeChar_of_lt (by omega), number, toUInt8_of_eq rfl]
  | two first last =>
    obtain ⟨x, rfl⟩ := List.length_eq_one_iff.1 complete
    obtain ⟨⟨above, below⟩, -⟩ := admitted
    have above : 0x80 ≤ x.toNat := UInt8.le_iff_toNat_le.1 above
    have below : x.toNat ≤ 0xBF := UInt8.le_iff_toNat_le.1 below
    simp only [sixes, List.foldl_cons, List.foldl_nil]
    rw [encodeChar, toNat_ofNat (by omega), if_neg (by omega), if_pos (by omega),
      toUInt8_of_eq (b := b) (by omega), toUInt8_of_eq (b := x) (by omega)]
  | three first last least greatest _ overlong surrogate =>
    obtain ⟨x, y, rfl⟩ := List.length_eq_two.1 complete
    obtain ⟨⟨above, below⟩, ⟨above', below'⟩, -⟩ := admitted
    rw [UInt8.le_iff_toNat_le] at above below
    have above' : 0x80 ≤ y.toNat := UInt8.le_iff_toNat_le.1 above'
    have below' : y.toNat ≤ 0xBF := UInt8.le_iff_toNat_le.1 below'
    dsimp only at above below
    simp only [sixes, List.foldl_cons, List.foldl_nil]
    rw [encodeChar, toNat_ofNat (by omega), if_neg (by omega), if_neg (by omega), if_pos (by omega),
      toUInt8_of_eq (b := b) (by omega), toUInt8_of_eq (b := x) (by omega),
      toUInt8_of_eq (b := y) (by omega)]
  | four first last least greatest _ overlong past =>
    obtain ⟨x, y, z, rfl⟩ := List.length_eq_three.1 complete
    obtain ⟨⟨above, below⟩, ⟨above', below'⟩, ⟨above'', below''⟩, -⟩ := admitted
    rw [UInt8.le_iff_toNat_le] at above below
    have above' : 0x80 ≤ y.toNat := UInt8.le_iff_toNat_le.1 above'
    have below' : y.toNat ≤ 0xBF := UInt8.le_iff_toNat_le.1 below'
    have above'' : 0x80 ≤ z.toNat := UInt8.le_iff_toNat_le.1 above''
    have below'' : z.toNat ≤ 0xBF := UInt8.le_iff_toNat_le.1 below''
    dsimp only at above below
    simp only [sixes, List.foldl_cons, List.foldl_nil]
    rw [encodeChar, toNat_ofNat (by omega), if_neg (by omega), if_neg (by omega), if_neg (by omega),
      toUInt8_of_eq (b := b) (by omega), toUInt8_of_eq (b := x) (by omega),
      toUInt8_of_eq (b := y) (by omega), toUInt8_of_eq (b := z) (by omega)]

/-- Every character is admitted by the lead of its first byte. -/
theorem admits_of_encodeChar (h : encodeChar c = b :: tail) :
    ∃ l, Lead.ofByte? b = some l ∧ Admits l.more l.low l.high tail ∧ tail.length = l.more := by
  obtain ⟨first, more, made, read⟩ := unitAt_encodeChar c []
  obtain ⟨rfl, rfl⟩ := List.cons.inj (made.symm.trans h)
  rw [List.append_nil, unitAt] at read
  split at read
  · cases read
  · next l lead =>
    obtain ⟨front, behind, rfl, admitted, ⟨complete, gathered⟩ | ⟨-, gathered, -⟩⟩ :=
      exists_gather l.more l.bits l.low l.high 0 more
    · rw [gathered, Prod.mk.injEq, List.length_append] at read
      have none : behind = [] := List.length_eq_zero_iff.1 (by omega)
      subst none
      rw [List.append_nil]
      exact ⟨l, lead, admitted, complete⟩
    · rw [gathered] at read
      cases read

/-- **Bytes begin a character** exactly if the first is a lead that admits the others. -/
theorem leads_cons_iff : Leads (b :: tail) ↔
    ∃ l, Lead.ofByte? b = some l ∧ Admits l.more l.low l.high tail := by
  constructor
  · rintro ⟨c, behind, whole⟩
    obtain ⟨l, lead, admitted, -⟩ := admits_of_encodeChar (c := c) (b := b) whole.symm
    exact ⟨l, lead, admitted.of_append⟩
  · rintro ⟨l, lead, admitted⟩
    have of := Lead.of_ofByte? lead
    obtain ⟨behind, complete, length⟩ := admitted.complete of.low_le_high
    refine ⟨Char.ofNat (sixes l.bits (tail ++ behind)), behind, ?_⟩
    rw [encodeChar_of_admits of complete length, List.cons_append]

/-! ## Reading any bytes -/

/-- What stands at the front of some bytes begins with the first of them. -/
theorem exists_cons_of_within (within : part <+: b :: rest) (some : part ≠ []) :
    ∃ tail, part = b :: tail ∧ tail <+: rest := by
  cases part with
  | nil => exact absurd rfl some
  | cons b' tail =>
    obtain ⟨rfl, behind⟩ := List.cons_prefix_cons.1 within
    exact ⟨tail, rfl, behind⟩

theorem encodeChar_ne_nil (c : Char) : encodeChar c ≠ [] := by
  obtain ⟨first, more, bytes, -⟩ := encodeChar_eq_cons c
  rw [bytes]
  exact List.cons_ne_nil first more

/-- A byte that is no lead is ill-formed by itself. -/
theorem illFormed_single (h : Lead.ofByte? b = none) (rest : List UInt8) : IllFormed [b] rest := by
  have bare : ∀ tail, ¬ Leads (b :: tail) := by
    intro tail leads
    obtain ⟨l, lead, -⟩ := leads_cons_iff.1 leads
    rw [h] at lead
    cases lead
  refine ⟨List.cons_ne_nil b [], ?_, .inl rfl, ?_⟩
  · intro c within
    obtain ⟨tail, made, -⟩ := exists_cons_of_within within (encodeChar_ne_nil c)
    exact bare tail ⟨c, made ▸ List.prefix_rfl⟩
  · intro longer within long leads
    obtain ⟨tail, rfl, -⟩ := exists_cons_of_within within (List.ne_nil_of_length_pos (by omega))
    exact bare tail leads

/-- A lead is ill-formed with what it admits, up to the first byte that it does
not, if that is no character yet. -/
theorem illFormed_of_stops {l : Lead} (lead : Lead.ofByte? b = some l)
    (admitted : Admits l.more l.low l.high front) (few : front.length < l.more)
    (stops : ∀ longer, longer <+: front ++ behind → front.length < longer.length →
      ¬ Admits l.more l.low l.high longer) : IllFormed (b :: front) behind := by
  refine ⟨List.cons_ne_nil b front, ?_, .inr (leads_cons_iff.2 ⟨l, lead, admitted⟩), ?_⟩
  · intro c within
    obtain ⟨tail, made, within⟩ := exists_cons_of_within within (encodeChar_ne_nil c)
    obtain ⟨l', lead', whole, complete⟩ := admits_of_encodeChar made
    obtain rfl := Option.some.inj (lead.symm.trans lead')
    exact stops tail within (by omega) whole
  · intro longer within long leads
    obtain ⟨tail, rfl, later⟩ := exists_cons_of_within within (List.ne_nil_of_length_pos (by omega))
    obtain ⟨l', lead', more⟩ := leads_cons_iff.1 leads
    obtain rfl := Option.some.inj (lead.symm.trans lead')
    exact stops tail later (by simpa using long) more

/-- **The first unit** of some bytes is a character, or an ill-formed part. -/
theorem exists_unit (b : UInt8) (rest : List UInt8) : ∃ front behind, rest = front ++ behind ∧
    ((∃ c, encodeChar c = b :: front ∧ unitAt b rest = (some c, front.length)) ∨
      (IllFormed (b :: front) behind ∧ unitAt b rest = (none, front.length))) := by
  cases lead : Lead.ofByte? b with
  | none =>
    refine ⟨[], rest, rfl, .inr ⟨illFormed_single lead rest, ?_⟩⟩
    rw [unitAt, lead]
    rfl
  | some l =>
    obtain ⟨front, behind, rfl, admitted, found⟩ := exists_gather l.more l.bits l.low l.high 0 rest
    have gathers : unitAt b (front ++ behind) =
        gather l.more l.bits l.low l.high 0 (front ++ behind) := by
      rw [unitAt, lead]
    rw [Nat.zero_add, ← gathers] at found
    refine ⟨front, behind, rfl, ?_⟩
    rcases found with ⟨complete, whole⟩ | ⟨few, part, stops⟩
    · have made := encodeChar_of_admits (Lead.of_ofByte? lead) admitted complete
      exact .inl ⟨_, made, whole⟩
    · exact .inr ⟨illFormed_of_stops lead admitted few stops, part⟩

/-- The units of some bytes are the first and those behind it. -/
theorem units_cons {unit : Option Char} (first : unitAt b (front ++ behind) = (unit, front.length)) :
    units (b :: (front ++ behind)) = unit :: units behind := by
  rw [units, unitsFrom, first]
  dsimp only
  rw [unitsFrom_length_append, units]

/-- An encoded text has nothing that would have to be replaced. -/
theorem lossy_encode (t : Text) : lossy (encode t) = t := by
  rw [lossy, units_encode, List.map_map]
  exact List.map_id t

theorem lossy_character (c : Char) (rest : List UInt8) :
    lossy (encodeChar c ++ rest) = c :: lossy rest := by
  obtain ⟨first, more, made, read⟩ := unitAt_encodeChar c rest
  rw [lossy, made, List.cons_append, units_cons read]
  rfl

/-- **An ill-formed part is replaced** by one U+FFFD. -/
theorem lossy_illFormed (h : IllFormed part rest) : lossy (part ++ rest) = '\uFFFD' :: lossy rest := by
  obtain ⟨b, tail, rfl⟩ := List.exists_cons_of_ne_nil h.nonempty
  obtain ⟨front, behind, split, found⟩ := exists_unit b (tail ++ rest)
  have whole : b :: tail ++ rest = b :: front ++ behind := by
    rw [List.cons_append, List.cons_append, split]
  rcases found with ⟨c, made, -⟩ | ⟨bad, read⟩
  · refine absurd ?_ (h.noCharacter c)
    rw [made, whole]
    exact List.prefix_append (b :: front) behind
  · -- both begin at the same byte, so they are the same
    have length : (b :: tail).length = (b :: front).length :=
      Nat.le_antisymm (bad.length_le h whole.symm) (h.length_le bad whole)
    obtain ⟨same, rfl⟩ := List.append_inj whole length
    rw [split] at read
    rw [whole, List.cons_append, lossy, units_cons read]
    rfl

/-- **Any bytes are read as one text**, and it is the one that `lossy` gives. -/
theorem lossy_iff : Lossy bytes t ↔ lossy bytes = t := by
  constructor
  · intro h
    induction h with
    | nil => rfl
    | character c _ ih => rw [lossy_character, ih]
    | illFormed bad _ ih => rw [lossy_illFormed bad, ih]
  · rintro rfl
    induction size : bytes.length using Nat.strongRecOn generalizing bytes with
    | _ n ih =>
      cases bytes with
      | nil => exact .nil
      | cons b rest =>
        obtain ⟨front, behind, rfl, found⟩ := exists_unit b rest
        simp only [List.length_cons, List.length_append] at size
        have later := ih behind.length (by omega) rfl
        rw [← List.cons_append]
        rcases found with ⟨c, made, -⟩ | ⟨bad, -⟩
        · rw [← made, lossy_character]
          exact .character c later
        · rw [lossy_illFormed bad]
          exact .illFormed bad later

/-- A character that lacks its last byte is replaced as a whole, and so is a
byte that continues nothing. -/
example : Lossy [0x61, 0xE2, 0x82, 0x62, 0x82] "a\uFFFDb\uFFFD".toList := by
  rw [lossy_iff]
  decide +kernel

end Utf8

end LineScript
