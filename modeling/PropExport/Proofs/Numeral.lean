import PropExport.Numeral

/-!
# The numeral of a number

A natural number is written in decimal digits, and reading them gives the number back.
-/

namespace PropExport.Numeral

private theorem toList_toString (n : Nat) : (toString n).toList = Nat.toDigits 10 n := by
  rw [Nat.toString_eq_ofList_toDigits, String.toList_ofList]

/-- Numbers are written in digits. -/
theorem isDigit_of_mem_toString {n : Nat} {c : Char} (h : c ∈ (toString n).toList) :
    c.isDigit = true := by
  rw [toList_toString] at h
  exact Nat.isDigit_of_mem_toDigits (by decide) (by decide) h

/-- A numeral starts with a digit. -/
theorem exists_toString_eq (n : Nat) :
    ∃ c cs, (toString n).toList = c :: cs ∧ c.isDigit = true := by
  cases hdigits : (toString n).toList with
  | nil =>
    rw [toList_toString] at hdigits
    exact absurd hdigits Nat.toDigits_ne_nil
  | cons c cs =>
    exact ⟨c, cs, rfl, isDigit_of_mem_toString (hdigits ▸ List.mem_cons_self)⟩

/-- A number is that of its digits. -/
theorem ofDigits_toString (n : Nat) : ofDigits (toString n).toList = n := by
  rw [toList_toString]
  exact Nat.ofDigitChars_ten_toDigits

/-- The numeral of a positive number does not start with zero. -/
theorem head?_toDigits_ne {n : Nat} (hn : 0 < n) : (Nat.toDigits 10 n).head? ≠ some '0' := by
  induction n using Nat.strongRecOn with
  | ind n ih =>
    rw [Nat.toDigits_eq_if (by decide)]
    split
    · simpa using Nat.ne_of_gt hn
    · have hrest := ih (n / 10) (by omega) (by omega)
      rwa [List.head?_append, Option.or_of_isSome (by simp [Nat.toDigits_ne_nil])]

/-- A numeral of more than one digit does not start with zero. -/
theorem ne_zero_of_toString_eq {n : Nat} {c : Char} {cs : List Char}
    (h : (toString n).toList = c :: cs) (hcs : 0 < cs.length) : c ≠ '0' := by
  rintro rfl
  rw [toList_toString] at h
  obtain _ | n := n
  · cases (Nat.toDigits_zero 10).symm.trans h
    simp at hcs
  · exact head?_toDigits_ne (Nat.succ_pos n) (by rw [h]; rfl)

private theorem dropPlus_of_isDigit {c : Char} (h : c.isDigit = true) (cs : List Char) :
    dropPlus (c :: cs) = c :: cs := by
  have hplus : c ≠ '+' := by rintro rfl; simp at h
  simp [dropPlus, hplus]

/-- A number is read back from its numeral. -/
theorem parse_toString (n : Nat) : parse (toString n) = .ok n := by
  obtain ⟨c, cs, htext, hc⟩ := exists_toString_eq n
  have hdigits : ∀ d ∈ c :: cs, d.isDigit = true :=
    fun d hd => isDigit_of_mem_toString (htext ▸ hd)
  have hall : (c :: cs).all (fun d => d.isDigit || d == '_') = true :=
    List.all_eq_true.mpr fun d hd => by simp [hdigits d hd]
  have hunderscore : c ≠ '_' := by rintro rfl; simp at hc
  have hvalue : ofDigits ((c :: cs).filter Char.isDigit) = n := by
    rw [List.filter_eq_self.mpr hdigits, ← htext, ofDigits_toString]
  rw [parse, htext, dropPlus_of_isDigit hc]
  split
  · next heq => cases heq
  · next heq => exact absurd (List.cons.inj heq).1 hunderscore
  · rw [if_pos hall, hvalue]

end PropExport.Numeral
