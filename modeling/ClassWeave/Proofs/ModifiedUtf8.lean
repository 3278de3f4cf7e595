/-
# ClassWeave.Proofs.ModifiedUtf8 -- decoding gives back what was encoded

A unit is read back from its bytes and a character from its units, whatever stands
behind them; so is a whole text.
-/
import ClassWeave.Text.ModifiedUtf8

set_option autoImplicit false

namespace ClassWeave.Text.ModifiedUtf8

theorem toNat_ofNat_byte {n : Nat} (small : n < 256) : (UInt8.ofNat n).toNat = n := by
  simpa using small

theorem unitsOfBytes_unitBytes (acc : List Nat) {u : Nat} (small : u < 0x10000)
    (rest : List UInt8) :
    unitsOfBytes acc (unitBytes u ++ rest) = unitsOfBytes (u :: acc) rest := by
  unfold unitBytes
  -- One case for each length of the encoding; zero takes the two bytes of the middle one.
  by_cases one : 0 < u ∧ u < 0x80
  · rw [if_pos one]
    have byte := toNat_ofNat_byte (n := u) (by omega)
    rw [List.cons_append, List.nil_append, unitsOfBytes.eq_def]
    simp only [byte, if_pos one.2]
  · rw [if_neg one]
    have last := toNat_ofNat_byte (n := 0x80 + u % 64) (by omega)
    by_cases two : u < 0x800
    · rw [if_pos two]
      have lead := toNat_ofNat_byte (n := 0xC0 + u / 64) (by omega)
      have joined : (0xC0 + u / 64) % 32 * 64 + (0x80 + u % 64) % 64 = u := by omega
      have goesOn : continues (UInt8.ofNat (0x80 + u % 64)) = true := by
        rw [continues, last, Bool.and_eq_true, decide_eq_true_eq, decide_eq_true_eq]
        omega
      simp only [List.cons_append, List.nil_append]
      rw [unitsOfBytes, lead, if_neg (by omega), if_pos (by omega)]
      simp only [goesOn, if_true, last, joined]
    · rw [if_neg two]
      have lead := toNat_ofNat_byte (n := 0xE0 + u / 4096) (by omega)
      have middle := toNat_ofNat_byte (n := 0x80 + u / 64 % 64) (by omega)
      have joined : (0xE0 + u / 4096) % 16 * 4096 + (0x80 + u / 64 % 64) % 64 * 64
          + (0x80 + u % 64) % 64 = u := by omega
      have goesOn : (continues (UInt8.ofNat (0x80 + u / 64 % 64)) &&
          continues (UInt8.ofNat (0x80 + u % 64))) = true := by
        simp only [continues, middle, last, Bool.and_eq_true, decide_eq_true_eq]
        omega
      simp only [List.cons_append, List.nil_append]
      rw [unitsOfBytes, lead, if_neg (by omega), if_neg (by omega), if_pos (by omega)]
      simp only [goesOn, if_true, middle, last, joined]

theorem unitsOfBytes_flatMap : ∀ (units acc : List Nat), (∀ u ∈ units, u < 0x10000) →
    unitsOfBytes acc (units.flatMap unitBytes) = .ok (acc.reverse ++ units)
  | [], acc, _ => by rw [List.append_nil]; rfl
  | u :: units, acc, small => by
    rw [List.flatMap_cons, unitsOfBytes_unitBytes acc (small u List.mem_cons_self),
      unitsOfBytes_flatMap units (u :: acc) fun v among => small v (List.mem_cons_of_mem _ among),
      List.reverse_cons, List.append_assoc]
    rfl

/-- No character lies in the range of the surrogates. -/
theorem toNat_valid (c : Char) : c.toNat < 0xD800 ∨ 0xDFFF < c.toNat ∧ c.toNat < 0x110000 :=
  c.valid

theorem units_small (c : Char) : ∀ u ∈ units c, u < 0x10000 := by
  have valid := toNat_valid c
  intro u among
  unfold units at among
  split at among
  · simp only [List.mem_singleton] at among
    omega
  · simp only [List.mem_cons, List.not_mem_nil, or_false] at among
    omega

theorem charsOfUnits_units (acc : List Char) (c : Char) (rest : List Nat) :
    charsOfUnits acc (units c ++ rest) = charsOfUnits (c :: acc) rest := by
  have valid := toNat_valid c
  unfold units
  by_cases basic : c.toNat < 0x10000
  · rw [if_pos basic, List.cons_append, List.nil_append, charsOfUnits.eq_def]
    simp only [Char.ofNat_toNat]
    rw [if_neg (by omega), if_neg (by omega)]
  · rw [if_neg basic]
    have joined : 0x10000 + (0xD800 + (c.toNat - 0x10000) / 0x400 - 0xD800) * 0x400
        + (0xDC00 + (c.toNat - 0x10000) % 0x400 - 0xDC00) = c.toNat := by omega
    simp only [List.cons_append, List.nil_append]
    rw [charsOfUnits, if_pos (by omega)]
    simp only [joined, Char.ofNat_toNat]
    rw [if_pos (by omega)]

theorem charsOfUnits_flatMap : ∀ (chars acc : List Char),
    charsOfUnits acc (chars.flatMap units) = .ok (acc.reverse ++ chars)
  | [], acc => by rw [List.append_nil]; rfl
  | c :: chars, acc => by
    rw [List.flatMap_cons, charsOfUnits_units, charsOfUnits_flatMap chars (c :: acc),
      List.reverse_cons, List.append_assoc]
    rfl

/-- A text is read back from its encoding. -/
theorem decode_encode_eq (s : String) : decode (encode s) = .ok s := by
  have small : ∀ u ∈ s.toList.flatMap units, u < 0x10000 := by
    intro u among
    obtain ⟨c, _, within⟩ := List.mem_flatMap.1 among
    exact units_small c u within
  rw [decode, encode, ← List.flatMap_assoc, unitsOfBytes_flatMap _ [] small]
  simp only [List.reverse_nil, List.nil_append, charsOfUnits_flatMap, String.ofList_toList]

end ClassWeave.Text.ModifiedUtf8
