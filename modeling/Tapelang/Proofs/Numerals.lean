import Tapelang.Code.Document

/-!
# Integers as numerals

The decimal form of a number is made of digits, has no leading zero, and its digits add up to the
number (`decimal_spec`). So an integer is written as a JSON number (`Json.isNumber_signed`) and read
back as it was, if it fits into 64 bits (`int64?_signed`).
-/

namespace Tapelang

/-! ## Decimal digits -/

/-- The decimal digit of value `d`. -/
def digit (d : Nat) : UInt8 := (Nat.digitChar d).toUInt8

theorem digit_spec {d : Nat} (h : d < 10) :
    Json.isDigit (digit d) = true ∧ (digit d).toNat - 48 = d ∧ (digit d = 48 → d = 0) ∧
      digit d ≠ 45 := by
  have hall : ∀ d < 10, Json.isDigit (digit d) = true ∧ (digit d).toNat - 48 = d ∧
      (digit d = 48 → d = 0) ∧ digit d ≠ 45 := by decide
  exact hall d h

theorem decimal_of_lt {n : Nat} (h : n < 10) : decimal n = [digit n] := by
  rw [decimal, Nat.toDigits_of_lt_base h]
  rfl

theorem decimal_of_le {n : Nat} (h : 10 ≤ n) :
    decimal n = decimal (n / 10) ++ [digit (n % 10)] := by
  have hd : n % 10 < 10 := Nat.mod_lt n (by decide)
  have ha := Nat.toDigits_append_toDigits (b := 10) (n := n / 10) (by decide) (by omega) hd
  rw [Nat.div_add_mod] at ha
  rw [decimal, ← ha, Nat.toDigits_of_lt_base hd, List.map_append]
  rfl

/-- The number that digits add up to. -/
def digitSum (digits : Bytes) : Nat := digits.foldl (fun n b => 10 * n + (b.toNat - 48)) 0

/-- **The decimal form of a number**: digits that add up to it, the first of which is zero for zero
only. -/
theorem decimal_spec (n : Nat) :
    (∀ b ∈ decimal n, Json.isDigit b = true) ∧ digitSum (decimal n) = n ∧
      ∃ b rest, decimal n = b :: rest ∧ (b = 48 → n = 0) ∧ b ≠ 45 := by
  induction n using Nat.strongRecOn with
  | ind n ih =>
    by_cases h : n < 10
    · obtain ⟨hdigit, hvalue, hzero, hminus⟩ := digit_spec h
      rw [decimal_of_lt h]
      refine ⟨fun b hb => ?_, ?_, _, [], rfl, hzero, hminus⟩
      · rw [List.mem_singleton.1 hb, hdigit]
      · simp [digitSum, hvalue]
    · obtain ⟨hdigits, hsum, b, rest, heq, hzero, hminus⟩ := ih (n / 10) (by omega)
      obtain ⟨hdigit, hvalue, -⟩ := digit_spec (d := n % 10) (Nat.mod_lt n (by decide))
      rw [decimal_of_le (by omega)]
      refine ⟨fun b hb => ?_, ?_, b, rest ++ [digit (n % 10)], by rw [heq]; rfl, fun hb => ?_,
        hminus⟩
      · rcases List.mem_append.1 hb with hb | hb
        · exact hdigits b hb
        · rw [List.mem_singleton.1 hb, hdigit]
      · rw [digitSum] at hsum ⊢
        rw [List.foldl_append, hsum, List.foldl_cons, List.foldl_nil, hvalue]
        omega
      · have := hzero hb
        omega

/-! ## JSON numbers -/

namespace Json

theorem isMagnitude_decimal (n : Nat) : isMagnitude (decimal n) = true := by
  obtain ⟨hdigits, -, b, rest, heq, hzero, -⟩ := decimal_spec n
  by_cases hn : n = 0
  · subst hn
    rfl
  · have hdrop : dropDigits? (decimal n) = some [] := by
      have hall : (decimal n).dropWhile isDigit = [] := by
        have hd : (decimal n ++ []).dropWhile isDigit = [].dropWhile isDigit :=
          List.dropWhile_append_of_pos hdigits
        simpa using hd
      have hhead : (decimal n).head?.any isDigit = true := by
        rw [heq]
        exact hdigits b (heq ▸ List.mem_cons_self)
      rw [dropDigits?, if_pos hhead, hall]
    unfold isMagnitude
    split
    · rename_i rest' he
      rw [heq, List.cons.injEq] at he
      exact absurd (hzero he.1) hn
    · rw [hdrop]
      rfl

/-- An integer is written as a number. -/
theorem isNumber_signed (n : Int) : isNumber (signed n) = true := by
  cases n with
  | ofNat n =>
    obtain ⟨-, -, b, rest, heq, -, hminus⟩ := decimal_spec n
    have hm := isMagnitude_decimal n
    simp only [signed]
    unfold isNumber
    split
    · rename_i he
      rw [heq, List.cons.injEq] at he
      exact absurd he.1 hminus
    · exact hm
  | negSucc n => exact isMagnitude_decimal (n + 1)

/-- Every byte of an integer may stand in a number, and there is one. -/
theorem signed_numeral (n : Int) :
    (∀ b ∈ signed n, isNumeral b = true) ∧ signed n ≠ [] := by
  have hdigit : ∀ b, isDigit b = true → isNumeral b = true := by
    intro b hb
    simp [isNumeral, hb]
  cases n with
  | ofNat n =>
    obtain ⟨hdigits, -, b, rest, heq, -⟩ := decimal_spec n
    exact ⟨fun b hb => hdigit b (hdigits b hb), by simp [signed, heq]⟩
  | negSucc n =>
    refine ⟨fun b hb => ?_, by simp [signed]⟩
    rcases List.mem_cons.1 hb with rfl | hb
    · decide
    · exact hdigit b ((decimal_spec (n + 1)).1 b hb)

end Json

/-! ## Reading -/

/-- The integers of 64 bits. -/
def IsInt64 (n : Int) : Prop := -0x8000000000000000 ≤ n ∧ n < 0x8000000000000000

/-- **An integer of 64 bits** is read as it was written. -/
theorem int64?_signed {n : Int} (h : IsInt64 n) : int64? (signed n) = some n := by
  unfold IsInt64 at h
  have hdecimal : ∀ n : Nat, (decimal n ≠ [] ∧ (decimal n).all Json.isDigit = true) ∧
      (decimal n).foldl (fun n b => 10 * n + (b.toNat - 48)) 0 = n := by
    intro n
    obtain ⟨hdigits, hsum, b, rest, heq, -⟩ := decimal_spec n
    exact ⟨⟨by simp [heq], List.all_eq_true.2 hdigits⟩, hsum⟩
  cases n with
  | ofNat n =>
    obtain ⟨-, -, b, rest, heq, -, hminus⟩ := decimal_spec n
    obtain ⟨hok, hsum⟩ := hdecimal n
    simp only [signed]
    unfold int64?
    split
    · rename_i hx
      split at hx
      · rename_i he
        rw [heq, List.cons.injEq] at he
        exact absurd he.1 hminus
      · cases hx
        rw [if_pos hok, hsum]
        simp only [Bool.false_eq_true, if_false]
        exact if_pos h
  | negSucc n =>
    obtain ⟨hok, hsum⟩ := hdecimal (n + 1)
    have hs : signed (Int.negSucc n) = 45 :: decimal (n + 1) := rfl
    rw [hs, int64?]
    simp only
    rw [if_pos hok, hsum]
    simp only [if_true]
    rw [if_pos (by omega)]
    rfl

end Tapelang
