/-
# ClassWeave.Proofs.CanonicalText -- which bytes are the encoding of what they decode to

The decoder takes more than the encoder writes: a zero byte, and units in more bytes than
they need.  `canonical` looks for just these, one byte at a time.  Where bytes decode at
all, the text they decode to is encoded as the same bytes exactly when they are canonical
(`encode_eq_iff_canonical`): a unit that is spelt otherwise is encoded with another first
byte, so one of them anywhere shows.

`Overlong` names the sequences that spell a unit in too many bytes.  Bytes that decode are
canonical if no byte is zero and none of these sequences stands anywhere in them
(`canonical_iff_sparing`); a sequence starts wherever a byte leads, so it does not
matter where units begin.
-/
import ClassWeave.Proofs.ModifiedUtf8

set_option autoImplicit false

namespace ClassWeave.Text.ModifiedUtf8

/-- No unit is spelt by a zero byte or in more bytes than it needs: `C1` never leads, behind `C0`
comes only the second byte of the unit zero, and behind `E0` none below `A0`. -/
def canonical : List UInt8 → Bool
  | [] => true
  | b :: rest =>
    b != 0 && b != 0xC1 && (b != 0xC0 || rest.head? == some 0x80)
      && (b != 0xE0 || rest.head?.any fun c => 0xA0 ≤ c.toNat) && canonical rest

/-! ## Units -/

theorem continues_eq_true {b : UInt8} : continues b = true ↔ 0x80 ≤ b.toNat ∧ b.toNat < 0xC0 := by
  simp [continues]

/-- A byte that only continues says nothing about what is canonical. -/
theorem canonical_of_continues {c : UInt8} (goesOn : continues c = true) (rest : List UInt8) :
    canonical (c :: rest) = canonical rest := by
  obtain ⟨above, below⟩ := continues_eq_true.1 goesOn
  have other {b : UInt8} (lead : b.toNat < 0x80 ∨ 0xC0 ≤ b.toNat) : (c != b) = true := by
    rw [bne_iff_ne, ne_eq, ← UInt8.toNat_inj]
    omega
  simp [canonical, other (b := 0) (by decide), other (b := 0xC1) (by decide),
    other (b := 0xC0) (by decide), other (b := 0xE0) (by decide)]

theorem canonical_single {b : UInt8} (small : b.toNat < 0x80) (rest : List UInt8) :
    canonical (b :: rest) = (b != 0 && canonical rest) := by
  have other (lead : UInt8) (high : 0x80 ≤ lead.toNat) : (b != lead) = true := by
    rw [bne_iff_ne, ne_eq, ← UInt8.toNat_inj]
    omega
  simp [canonical, other 0xC1 (by decide), other 0xC0 (by decide),
    other 0xE0 (by decide)]

theorem canonical_pair {b c : UInt8} (lead : 0xC0 ≤ b.toNat ∧ b.toNat < 0xE0)
    (goesOn : continues c = true) (rest : List UInt8) :
    canonical (b :: c :: rest) = true ↔
      ¬ (0 < b.toNat % 32 * 64 + c.toNat % 64 ∧ b.toNat % 32 * 64 + c.toNat % 64 < 0x80) ∧
        canonical rest = true := by
  obtain ⟨above, below⟩ := continues_eq_true.1 goesOn
  rw [canonical, canonical_of_continues goesOn]
  simp only [Bool.and_eq_true, Bool.or_eq_true, bne_iff_ne, ne_eq, beq_iff_eq, List.head?_cons,
    Option.some.injEq, ← UInt8.toNat_inj, Option.any_some, decide_eq_true_eq]
  refine and_congr_left fun _ => ?_
  simp only [UInt8.reduceToNat]
  omega

theorem canonical_triple {b c d : UInt8} (lead : 0xE0 ≤ b.toNat ∧ b.toNat < 0xF0)
    (goesOn : continues c = true) (goesOn' : continues d = true) (rest : List UInt8) :
    canonical (b :: c :: d :: rest) = true ↔
      0x800 ≤ b.toNat % 16 * 4096 + c.toNat % 64 * 64 + d.toNat % 64 ∧ canonical rest = true := by
  obtain ⟨above, below⟩ := continues_eq_true.1 goesOn
  rw [canonical, canonical_of_continues goesOn, canonical_of_continues goesOn']
  simp only [Bool.and_eq_true, Bool.or_eq_true, bne_iff_ne, ne_eq, beq_iff_eq, List.head?_cons,
    Option.some.injEq, ← UInt8.toNat_inj, Option.any_some, decide_eq_true_eq]
  refine and_congr_left fun _ => ?_
  simp only [UInt8.reduceToNat]
  omega

/-- The first byte of a unit tells how many bytes it takes, so other bytes begin otherwise. -/
theorem unitBytes_append_single {b : UInt8} (small : b.toNat < 0x80) {tail rest : List UInt8} :
    unitBytes b.toNat ++ tail = b :: rest ↔ b ≠ 0 ∧ tail = rest := by
  unfold unitBytes
  by_cases zero : b = 0
  · subst zero
    simp
  · have positive : 0 < b.toNat := by
      have : b.toNat ≠ 0 := fun same => zero (UInt8.toNat_inj.1 same)
      omega
    rw [if_pos ⟨positive, small⟩, UInt8.ofNat_toNat]
    simp [zero]

theorem unitBytes_append_pair {b c : UInt8} (lead : 0xC0 ≤ b.toNat ∧ b.toNat < 0xE0)
    (goesOn : continues c = true) {tail rest : List UInt8} :
    unitBytes (b.toNat % 32 * 64 + c.toNat % 64) ++ tail = b :: c :: rest ↔
      ¬ (0 < b.toNat % 32 * 64 + c.toNat % 64 ∧ b.toNat % 32 * 64 + c.toNat % 64 < 0x80) ∧
        tail = rest := by
  obtain ⟨above, below⟩ := continues_eq_true.1 goesOn
  generalize spelt : b.toNat % 32 * 64 + c.toNat % 64 = u
  unfold unitBytes
  by_cases one : 0 < u ∧ u < 0x80
  · have first : UInt8.ofNat u ≠ b := by
      rw [ne_eq, ← UInt8.toNat_inj, toNat_ofNat_byte (by omega)]
      omega
    rw [if_pos one]
    simp [first, one]
  · have first : UInt8.ofNat (0xC0 + u / 64) = b := by
      rw [← UInt8.toNat_inj, toNat_ofNat_byte (by omega)]
      omega
    have second : UInt8.ofNat (0x80 + u % 64) = c := by
      rw [← UInt8.toNat_inj, toNat_ofNat_byte (by omega)]
      omega
    rw [if_neg one, if_pos (by omega), first, second]
    simp [one]

theorem unitBytes_append_triple {b c d : UInt8} (lead : 0xE0 ≤ b.toNat ∧ b.toNat < 0xF0)
    (goesOn : continues c = true) (goesOn' : continues d = true) {tail rest : List UInt8} :
    unitBytes (b.toNat % 16 * 4096 + c.toNat % 64 * 64 + d.toNat % 64) ++ tail =
        b :: c :: d :: rest ↔
      0x800 ≤ b.toNat % 16 * 4096 + c.toNat % 64 * 64 + d.toNat % 64 ∧ tail = rest := by
  obtain ⟨above, below⟩ := continues_eq_true.1 goesOn
  obtain ⟨above', below'⟩ := continues_eq_true.1 goesOn'
  generalize spelt : b.toNat % 16 * 4096 + c.toNat % 64 * 64 + d.toNat % 64 = u
  unfold unitBytes
  -- A unit that fits into fewer bytes is written with another first byte.
  by_cases one : 0 < u ∧ u < 0x80
  · have first : UInt8.ofNat u ≠ b := by
      rw [ne_eq, ← UInt8.toNat_inj, toNat_ofNat_byte (by omega)]
      omega
    have short : ¬ 0x800 ≤ u := by omega
    rw [if_pos one]
    simp [first, short]
  · rw [if_neg one]
    by_cases two : u < 0x800
    · have first : UInt8.ofNat (0xC0 + u / 64) ≠ b := by
        rw [ne_eq, ← UInt8.toNat_inj, toNat_ofNat_byte (by omega)]
        omega
      rw [if_pos two, List.cons_append, List.cons.injEq]
      simp only [first, false_and, Nat.not_le.2 two]
    · have first : UInt8.ofNat (0xE0 + u / 4096) = b := by
        rw [← UInt8.toNat_inj, toNat_ofNat_byte (by omega)]
        omega
      have second : UInt8.ofNat (0x80 + u / 64 % 64) = c := by
        rw [← UInt8.toNat_inj, toNat_ofNat_byte (by omega)]
        omega
      have third : UInt8.ofNat (0x80 + u % 64) = d := by
        rw [← UInt8.toNat_inj, toNat_ofNat_byte (by omega)]
        omega
      rw [if_neg two, first, second, third]
      simp [Nat.not_lt.1 two]

/-- The units that bytes spell are 16-bit, and their encoding is the same bytes if these are
canonical. -/
theorem unitsOfBytes_canonical {acc : List Nat} {bytes : List UInt8} {units : List Nat}
    (spelt : unitsOfBytes acc bytes = .ok units) :
    ∃ own, units = acc.reverse ++ own ∧ (∀ u ∈ own, u < 0x10000) ∧
      (own.flatMap unitBytes = bytes ↔ canonical bytes = true) := by
  -- By the sequences that the reader takes: what is read before does not matter to a sequence.
  fun_induction unitsOfBytes acc bytes with
  | case1 acc =>
    cases spelt
    exact ⟨[], (List.append_nil _).symm, List.forall_mem_nil _, by simp [canonical]⟩
  | case2 acc b rest small ih =>
    obtain ⟨own, rfl, narrow, same⟩ := ih spelt
    refine ⟨b.toNat :: own, by simp, List.forall_mem_cons.2 ⟨by omega, narrow⟩, ?_⟩
    rw [List.flatMap_cons, unitBytes_append_single small, canonical_single small, same]
    simp
  | case3 => cases spelt
  | case4 acc b _ lead c rest goesOn ih =>
    obtain ⟨own, rfl, narrow, same⟩ := ih spelt
    refine ⟨(b.toNat % 32 * 64 + c.toNat % 64) :: own, by simp,
      List.forall_mem_cons.2 ⟨by omega, narrow⟩, ?_⟩
    rw [List.flatMap_cons, unitBytes_append_pair lead goesOn, canonical_pair lead goesOn, same]
  | case5 => cases spelt
  | case6 acc b _ _ lead c d rest goesOn ih =>
    obtain ⟨first, second⟩ := Bool.and_eq_true_iff.1 goesOn
    obtain ⟨own, rfl, narrow, same⟩ := ih spelt
    refine ⟨(b.toNat % 16 * 4096 + c.toNat % 64 * 64 + d.toNat % 64) :: own, by simp,
      List.forall_mem_cons.2 ⟨by omega, narrow⟩, ?_⟩
    rw [List.flatMap_cons, unitBytes_append_triple lead first second,
      canonical_triple lead first second, same]
  | case7 => cases spelt
  | case8 => cases spelt
  | case9 => cases spelt

/-! ## Characters -/

theorem toNat_ofNat_char {n : Nat} (valid : n.isValidChar) : (Char.ofNat n).toNat = n := by
  rw [Char.ofNat, dif_pos valid]
  rfl

/-- Characters have the units that they were put together from. -/
theorem flatMap_units_of_charsOfUnits {acc : List Char} {spelt : List Nat} {chars : List Char}
    (narrow : ∀ u ∈ spelt, u < 0x10000) (paired : charsOfUnits acc spelt = .ok chars) :
    ∃ own, chars = acc.reverse ++ own ∧ own.flatMap units = spelt := by
  fun_induction charsOfUnits acc spelt with
  | case1 acc =>
    cases paired
    exact ⟨[], (List.append_nil _).symm, rfl⟩
  | case2 acc u high v rest low ih =>
    obtain ⟨own, rfl, same⟩ := ih (fun w among => narrow w (by simp [among])) paired
    refine ⟨Char.ofNat (0x10000 + (u - 0xD800) * 0x400 + (v - 0xDC00)) :: own, by simp, ?_⟩
    -- Two halves put together give a character beyond the basic plane, which is taken apart again.
    have valid : (0x10000 + (u - 0xD800) * 0x400 + (v - 0xDC00)).isValidChar := by
      right
      omega
    have number : (Char.ofNat (0x10000 + (u - 0xD800) * 0x400 + (v - 0xDC00))).toNat =
        0x10000 + (u - 0xD800) * 0x400 + (v - 0xDC00) := toNat_ofNat_char valid
    rw [List.flatMap_cons, same, units, number, if_neg (by omega)]
    simp only [List.cons_append, List.nil_append, List.cons.injEq, and_true]
    omega
  | case3 => cases paired
  | case4 => cases paired
  | case5 => cases paired
  | case6 acc u rest single notLow ih =>
    obtain ⟨small, others⟩ := List.forall_mem_cons.1 narrow
    obtain ⟨own, rfl, same⟩ := ih others paired
    refine ⟨Char.ofNat u :: own, by simp, ?_⟩
    have valid : u.isValidChar := by
      unfold Nat.isValidChar
      omega
    have number : (Char.ofNat u).toNat = u := toNat_ofNat_char valid
    rw [List.flatMap_cons, same, units, number, if_pos small]
    rfl

/-- Where bytes decode, they are what the text is encoded as exactly if they are canonical. -/
theorem encode_eq_iff_canonical {bytes : List UInt8} {text : String}
    (decoded : decode bytes = .ok text) : encode text = bytes ↔ canonical bytes = true := by
  unfold decode at decoded
  split at decoded
  · cases decoded
  · rename_i spelt found
    split at decoded
    · cases decoded
    · rename_i chars paired
      cases decoded
      obtain ⟨own, rfl, narrow, same⟩ := unitsOfBytes_canonical found
      obtain ⟨own', rfl, units⟩ := flatMap_units_of_charsOfUnits narrow paired
      rw [← same, encode, ← List.flatMap_assoc, String.toList_ofList, units]

theorem canonical_encode (text : String) : canonical (encode text) = true :=
  (encode_eq_iff_canonical (decode_encode_eq text)).1 rfl

example : canonical [0xC0, 0x80, 0x41] = true ∧ canonical [0xC1, 0x81] = false := by decide

/-! ## Overlong sequences -/

/-- A sequence of two or three bytes for a unit that the format has in fewer.  The unit zero is not
among those that take one byte. -/
inductive Overlong : List UInt8 → Prop
  | pair {b c : UInt8} (lead : 0xC0 ≤ b.toNat ∧ b.toNat < 0xE0) (goesOn : continues c = true)
      (single : 0 < b.toNat % 32 * 64 + c.toNat % 64 ∧ b.toNat % 32 * 64 + c.toNat % 64 < 0x80) :
      Overlong [b, c]
  | triple {b c d : UInt8} (lead : 0xE0 ≤ b.toNat ∧ b.toNat < 0xF0) (goesOn : continues c = true)
      (goesOn' : continues d = true)
      (small : b.toNat % 16 * 4096 + c.toNat % 64 * 64 + d.toNat % 64 < 0x800) : Overlong [b, c, d]

/-- No byte is zero, and no unit is spelt in more bytes than it needs. -/
def Sparing (bytes : List UInt8) : Prop :=
  0 ∉ bytes ∧ ∀ sequence, sequence <:+: bytes → ¬ Overlong sequence

theorem sparing_nil : Sparing [] := by
  refine ⟨List.not_mem_nil, fun sequence within overlong => ?_⟩
  rw [List.infix_nil.1 within] at overlong
  cases overlong

theorem sparing_cons {b : UInt8} {rest : List UInt8} : Sparing (b :: rest) ↔
    b ≠ 0 ∧ (∀ sequence, sequence <+: b :: rest → ¬ Overlong sequence) ∧ Sparing rest := by
  simp only [Sparing, List.mem_cons, not_or, List.infix_cons_iff, or_imp, forall_and]
  rw [and_and_and_comm, and_assoc, ne_comm]

/-- Only a byte from `C0` up begins an overlong sequence. -/
theorem sparing_plain {b : UInt8} (plain : b.toNat < 0xC0) (rest : List UInt8) :
    Sparing (b :: rest) ↔ b ≠ 0 ∧ Sparing rest := by
  have none_ : ∀ sequence, sequence <+: b :: rest → ¬ Overlong sequence := by
    rintro sequence ahead (⟨lead, _⟩ | ⟨lead, _⟩)
    · obtain rfl := (List.cons_prefix_cons.1 ahead).1
      omega
    · obtain rfl := (List.cons_prefix_cons.1 ahead).1
      omega
  rw [sparing_cons]
  exact and_congr_right fun _ => and_iff_right none_

theorem sparing_of_continues {c : UInt8} (goesOn : continues c = true) (rest : List UInt8) :
    Sparing (c :: rest) ↔ Sparing rest := by
  obtain ⟨above, below⟩ := continues_eq_true.1 goesOn
  rw [sparing_plain below, and_iff_right]
  rintro rfl
  exact absurd above (by decide)

theorem sparing_pair {b c : UInt8} (lead : 0xC0 ≤ b.toNat ∧ b.toNat < 0xE0)
    (goesOn : continues c = true) (rest : List UInt8) :
    Sparing (b :: c :: rest) ↔
      ¬ (0 < b.toNat % 32 * 64 + c.toNat % 64 ∧ b.toNat % 32 * 64 + c.toNat % 64 < 0x80) ∧
        Sparing rest := by
  have positive : b ≠ 0 := by
    rintro rfl
    exact absurd lead.1 (by decide)
  rw [sparing_cons, sparing_of_continues goesOn, and_iff_right positive]
  refine and_congr_left fun _ => ⟨fun none_ single => ?_, fun needed sequence ahead overlong => ?_⟩
  · exact none_ [b, c] ⟨rest, rfl⟩ (.pair lead goesOn single)
  · cases overlong with
    | pair _ _ single =>
      simp only [List.cons_prefix_cons] at ahead
      obtain ⟨rfl, rfl, _⟩ := ahead
      exact needed single
    | triple high =>
      obtain ⟨rfl, _⟩ := List.cons_prefix_cons.1 ahead
      omega

theorem sparing_triple {b c d : UInt8} (lead : 0xE0 ≤ b.toNat ∧ b.toNat < 0xF0)
    (goesOn : continues c = true) (goesOn' : continues d = true) (rest : List UInt8) :
    Sparing (b :: c :: d :: rest) ↔
      0x800 ≤ b.toNat % 16 * 4096 + c.toNat % 64 * 64 + d.toNat % 64 ∧ Sparing rest := by
  have positive : b ≠ 0 := by
    rintro rfl
    exact absurd lead.1 (by decide)
  rw [sparing_cons, sparing_of_continues goesOn, sparing_of_continues goesOn',
    and_iff_right positive]
  refine and_congr_left fun _ => ⟨fun none_ => ?_, fun needed sequence ahead overlong => ?_⟩
  · refine Nat.le_of_not_lt fun small => ?_
    exact none_ [b, c, d] ⟨rest, rfl⟩ (.triple lead goesOn goesOn' small)
  · cases overlong with
    | pair low =>
      obtain ⟨rfl, _⟩ := List.cons_prefix_cons.1 ahead
      omega
    | triple _ _ _ small =>
      simp only [List.cons_prefix_cons] at ahead
      obtain ⟨rfl, rfl, rfl, _⟩ := ahead
      exact Nat.not_lt.2 needed small

/-- Bytes that spell units are canonical if they are sparing. -/
theorem canonical_iff_sparing {acc : List Nat} {bytes : List UInt8} {units : List Nat}
    (spelt : unitsOfBytes acc bytes = .ok units) : canonical bytes = true ↔ Sparing bytes := by
  fun_induction unitsOfBytes acc bytes with
  | case1 => exact iff_of_true rfl sparing_nil
  | case2 acc b rest small ih =>
    rw [canonical_single small, sparing_plain (by omega), ← ih spelt]
    simp
  | case3 => cases spelt
  | case4 acc b _ lead c rest goesOn ih =>
    rw [canonical_pair lead goesOn, sparing_pair lead goesOn, ih spelt]
  | case5 => cases spelt
  | case6 acc b _ _ lead c d rest goesOn ih =>
    obtain ⟨first, second⟩ := Bool.and_eq_true_iff.1 goesOn
    rw [canonical_triple lead first second, sparing_triple lead first second, ih spelt]
  | case7 => cases spelt
  | case8 => cases spelt
  | case9 => cases spelt

theorem encode_eq_iff_sparing {bytes : List UInt8} {text : String}
    (decoded : decode bytes = .ok text) : encode text = bytes ↔ Sparing bytes := by
  rw [encode_eq_iff_canonical decoded]
  unfold decode at decoded
  split at decoded
  · cases decoded
  · exact canonical_iff_sparing ‹_›

/-- No byte of an encoding leads four bytes. -/
theorem unitBytes_lt {u : Nat} (small : u < 0x10000) {b : UInt8} (among : b ∈ unitBytes u) :
    b.toNat < 0xF0 := by
  unfold unitBytes at among
  split at among
  · obtain rfl := List.mem_singleton.1 among
    rw [toNat_ofNat_byte (by omega)]
    omega
  split at among
  all_goals
    simp only [List.mem_cons, List.not_mem_nil, or_false] at among
    rcases among with rfl | rfl | rfl
    all_goals
      rw [toNat_ofNat_byte (by omega)]
      omega

theorem encode_lt {text : String} {b : UInt8} (among : b ∈ encode text) : b.toNat < 0xF0 := by
  obtain ⟨c, _, within⟩ := List.mem_flatMap.1 among
  obtain ⟨u, known, within⟩ := List.mem_flatMap.1 within
  exact unitBytes_lt (units_small c u known) within

/-- **Text is encoded in one way, without zero bytes**, and is read back from it.  Bytes from which a
text is read are its encoding exactly if none is zero and no sequence among them is overlong. -/
theorem encode_eq_iff_no_overlong :
    (∀ text, decode (encode text) = .ok text ∧ 0 ∉ encode text ∧
      ∀ b ∈ encode text, b.toNat < 0xF0) ∧
    ∀ bytes text, decode bytes = .ok text →
      (encode text = bytes ↔
        0 ∉ bytes ∧ ∀ sequence, sequence <:+: bytes → ¬ Overlong sequence) := by
  refine ⟨fun text => ⟨decode_encode_eq text, ?_, fun b => encode_lt⟩, fun bytes text decoded => ?_⟩
  · exact ((encode_eq_iff_sparing (decode_encode_eq text)).1 rfl).1
  · exact encode_eq_iff_sparing decoded

/-- The character zero takes two bytes and one outside of the basic plane six; a letter that is
spelt in two bytes is read, but encoded in one. -/
theorem encode_eq_iff_no_overlong_mixed :
    let bytes := [0xC0, 0x80, 0x41, 0xED, 0xA0, 0xBD, 0xED, 0xB8, 0x80]
    let longer := [0x42, 0xC1, 0x81]
    decode bytes = .ok "\x00A😀" ∧ encode "\x00A😀" = bytes ∧ 0 ∉ bytes ∧
      (∀ sequence, sequence <:+: bytes → ¬ Overlong sequence) ∧
      decode longer = .ok "BA" ∧ Overlong [0xC1, 0x81] ∧ encode "BA" ≠ longer := by
  intro bytes longer
  have same : encode "\x00A😀" = bytes := by decide +kernel
  have decoded : decode bytes = .ok "\x00A😀" := same ▸ decode_encode_eq _
  have decoded' : decode longer = .ok "BA" := rfl
  have overlong : Overlong [0xC1, 0x81] := .pair (by decide) (by decide) (by decide)
  obtain ⟨zeroless, sparing⟩ := (encode_eq_iff_no_overlong.2 bytes _ decoded).1 same
  refine ⟨decoded, same, zeroless, sparing, decoded', overlong, fun same => ?_⟩
  exact ((encode_eq_iff_no_overlong.2 longer _ decoded').1 same).2 _ ⟨[0x42], [], rfl⟩ overlong

end ClassWeave.Text.ModifiedUtf8
