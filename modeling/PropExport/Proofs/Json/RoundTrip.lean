import PropExport.Json.Printer
import PropExport.Proofs.Numeral

/-!
# Reading what was written

A value that is built from texts, natural numbers of 64 bits, arrays and objects is read back as it
was written, whatever blanks the layout puts between its parts. Each scanning function is given the
written form followed by any text that does not carry on a number, and gives back that text.
-/

namespace PropExport.Json

/-- Blanks in front of a text do not count. -/
theorem dropBlanks_append {blanks : List Char} (h : blanks.all isBlank = true) (cs : List Char) :
    dropBlanks (blanks ++ cs) = dropBlanks cs := by
  unfold dropBlanks
  rw [List.dropWhile_append_of_pos (by simpa using h)]

private theorem dropBlanks_cons {c : Char} (h : isBlank c = false) (cs : List Char) :
    dropBlanks (c :: cs) = c :: cs := by
  unfold dropBlanks
  rw [List.dropWhile_cons_of_neg (by simp [h])]

private theorem eq_of_isBlank {c : Char} (h : isBlank c = true) :
    c = ' ' ∨ c = '\n' ∨ c = '\t' ∨ c = '\r' := by
  simpa [isBlank, or_assoc] using h

private theorem isBlank_of_isDigit {c : Char} (h : c.isDigit = true) : isBlank c = false := by
  cases hblank : isBlank c with
  | false => rfl
  | true => obtain rfl | rfl | rfl | rfl := eq_of_isBlank hblank <;> simp at h

section Strings

/-- The two hexadecimal digits of a control character. -/
private theorem hex4?_control : ∀ n < 0x20,
    hex4? '0' '0' (Nat.digitChar (n / 16)) (Nat.digitChar (n % 16)) = some n := by
  decide

/-- A character that needs no escape is one unit. -/
private theorem scanUnits_cons {c : Char} (hquote : c ≠ '"') (hbackslash : c ≠ '\\')
    (hcontrol : ¬ c.toNat < 0x20) (done : List Nat) (rest : List Char) :
    scanUnits done (c :: rest) = scanUnits (c.toNat :: done) rest := by
  rw [scanUnits, if_neg hcontrol] <;> simp_all

/-- Each character is one unit, however it is escaped. -/
theorem scanUnits_escapeChar (done : List Nat) (c : Char) (rest : List Char) :
    scanUnits done (escapeChar c ++ rest) = scanUnits (c.toNat :: done) rest := by
  unfold escapeChar
  split
  -- seven characters have an escape of their own
  iterate 7 · simp [scanUnits, unescape?]
  next hquote hbackslash _ _ _ _ _ =>
    split
    · next hcontrol => simp [scanUnits, hex4?_control c.toNat hcontrol]
    · next hcontrol => exact scanUnits_cons hquote hbackslash hcontrol done rest

/-- An escaped text gives its characters as units, up to the closing quote. -/
theorem scanUnits_flatMap (done : List Nat) (cs rest : List Char) :
    scanUnits done (cs.flatMap escapeChar ++ '"' :: rest) =
      some (done.reverse ++ cs.map Char.toNat, rest) := by
  induction cs generalizing done with
  | nil => simp [scanUnits]
  | cons c cs ih =>
    rw [List.flatMap_cons, List.append_assoc, scanUnits_escapeChar, ih]
    simp

private theorem toNat_not_surrogate (c : Char) : c.toNat < 0xd800 ∨ 0xdfff < c.toNat :=
  c.valid.imp_right And.left

/-- No character is half of a surrogate pair. -/
theorem ofUnits?_map_toNat (cs : List Char) : ofUnits? (cs.map Char.toNat) = some cs := by
  induction cs with
  | nil => rfl
  | cons c cs ih =>
    have hvalid := toNat_not_surrogate c
    have hhigh : isHighSurrogate c.toNat = false := by
      simp only [isHighSurrogate, Bool.and_eq_false_iff, decide_eq_false_iff_not]
      omega
    have hlow : isLowSurrogate c.toNat = false := by
      simp only [isLowSurrogate, Bool.and_eq_false_iff, decide_eq_false_iff_not]
      omega
    rw [List.map_cons, ofUnits?.eq_def]
    simp [hhigh, hlow, ih, Char.ofNat_toNat]

private theorem toList_quoted (s : String) :
    (quoted s).toList = '"' :: (s.toList.flatMap escapeChar ++ ['"']) := by
  simp [quoted]

/-- A text in quotes is read back. -/
theorem scanString_flatMap (s : String) (rest : List Char) :
    scanString (s.toList.flatMap escapeChar ++ '"' :: rest) = some (some s, rest) := by
  rw [scanString, scanUnits_flatMap]
  simp [ofUnits?_map_toNat]

end Strings

section Numbers

/-- A text that does not carry on a number in front of it. -/
def EndsNumber (rest : List Char) : Prop :=
  ∀ c ∈ rest.head?, c.isDigit = false ∧ c ≠ '.' ∧ c ≠ 'e' ∧ c ≠ 'E'

private theorem endsNumber_nil : EndsNumber [] := by
  simp [EndsNumber]

private theorem endsNumber_cons {c : Char} (h : c.isDigit = false ∧ c ≠ '.' ∧ c ≠ 'e' ∧ c ≠ 'E')
    (cs : List Char) : EndsNumber (c :: cs) := by
  rintro _ ⟨⟩
  exact h

private theorem endsNumber_append {blanks rest : List Char} (hblanks : blanks.all isBlank = true)
    (hrest : EndsNumber rest) : EndsNumber (blanks ++ rest) := by
  cases blanks with
  | nil => exact hrest
  | cons c blanks =>
    have hc : isBlank c = true := List.all_eq_true.mp hblanks c (by simp)
    refine endsNumber_cons ?_ _
    obtain rfl | rfl | rfl | rfl := eq_of_isBlank hc <;> decide

private theorem spanDigits_append {digits rest : List Char}
    (hdigits : ∀ c ∈ digits, c.isDigit = true) (hrest : EndsNumber rest) :
    spanDigits (digits ++ rest) = (digits, rest) := by
  have hstop : rest.takeWhile Char.isDigit = [] ∧ rest.dropWhile Char.isDigit = rest := by
    cases rest with
    | nil => exact ⟨rfl, rfl⟩
    | cons c cs => simp [(hrest c rfl).1]
  rw [spanDigits, List.takeWhile_append_of_pos hdigits, List.dropWhile_append_of_pos hdigits,
    hstop.1, hstop.2, List.append_nil]

private theorem scanFraction_of_endsNumber {rest : List Char} (h : EndsNumber rest) :
    scanFraction rest = some ([], rest) := by
  unfold scanFraction
  split
  · exact absurd rfl (h '.' rfl).2.1
  · rfl

private theorem scanExponent_of_endsNumber {rest : List Char} (h : EndsNumber rest) :
    scanExponent rest = some (none, rest) := by
  cases rest with
  | nil => rfl
  | cons c cs =>
    obtain ⟨_, _, hsmall, hlarge⟩ := h c rfl
    simp [scanExponent, hsmall, hlarge]

/-- Digits only make a number larger. -/
private theorem le_foldl_digits (n : Nat) (digits : List Char) :
    n ≤ digits.foldl (fun n c => 10 * n + Numeral.digitValue c) n := by
  induction digits generalizing n with
  | nil => exact Nat.le_refl n
  | cons c digits ih => exact Nat.le_trans (by omega) (ih (10 * n + Numeral.digitValue c))

/-- All digits are put behind a number if the result fits into 64 bits. -/
theorem fitDigits_of_lt {n : Nat} {digits : List Char}
    (h : digits.foldl (fun n c => 10 * n + Numeral.digitValue c) n < UInt64.size) :
    fitDigits n digits = (digits.foldl (fun n c => 10 * n + Numeral.digitValue c) n, []) := by
  induction digits generalizing n with
  | nil => rfl
  | cons c digits ih =>
    have hnext : 10 * n + Numeral.digitValue c < UInt64.size :=
      Nat.lt_of_le_of_lt (le_foldl_digits _ digits) h
    rw [fitDigits, if_pos hnext]
    exact ih h

/-- The double nearest to a number is at most half a unit of its last place away. -/
theorem nearestDouble_near (n : Nat) :
    2 * nearestDouble n ≤ 2 * n + Nat.pow 2 (n.log2 - 52) ∧
    2 * n ≤ 2 * nearestDouble n + Nat.pow 2 (n.log2 - 52) := by
  have hsplit : n / Nat.pow 2 (n.log2 - 52) * Nat.pow 2 (n.log2 - 52) +
      n % Nat.pow 2 (n.log2 - 52) = n := Nat.div_add_mod' n _
  have hrest : n % Nat.pow 2 (n.log2 - 52) < Nat.pow 2 (n.log2 - 52) :=
    Nat.mod_lt n (Nat.pow_pos (by decide))
  unfold nearestDouble
  dsimp only
  split
  · next hdown =>
    have hhalf : 2 * (n % Nat.pow 2 (n.log2 - 52)) ≤ Nat.pow 2 (n.log2 - 52) := by
      simp only [Bool.or_eq_true, decide_eq_true_eq, Bool.and_eq_true, beq_iff_eq] at hdown
      omega
    omega
  · next hup =>
    have hhalf : Nat.pow 2 (n.log2 - 52) ≤ 2 * (n % Nat.pow 2 (n.log2 - 52)) := by
      simp only [Bool.or_eq_true, decide_eq_true_eq, not_or] at hup
      omega
    rw [Nat.add_mul, Nat.one_mul]
    omega

/-- Rounding at most doubles a number. -/
theorem nearestDouble_le (n : Nat) : nearestDouble n ≤ 2 * n := by
  have hnear := (nearestDouble_near n).1
  by_cases hn : n = 0
  · subst hn
    have hunit : Nat.pow 2 ((0 : Nat).log2 - 52) = 1 := by decide
    omega
  · have hunit : Nat.pow 2 (n.log2 - 52) ≤ n :=
      Nat.le_trans (Nat.pow_le_pow_right (by decide) (Nat.sub_le _ _)) (Nat.log2_self_le hn)
    omega

/-- Digits whose number fits into 64 bits are in range. -/
theorem isOutOfRange_of_lt {digits : List Char} (h : Numeral.ofDigits digits < UInt64.size) :
    isOutOfRange digits [] 0 = false := by
  have hproduct : nearestDouble (Numeral.ofDigits digits) * nearestDouble (Nat.pow 10 0) <
      doubleBound := by
    calc nearestDouble (Numeral.ofDigits digits) * nearestDouble (Nat.pow 10 0)
      _ ≤ (2 * Numeral.ofDigits digits) * (2 * 1) :=
        Nat.mul_le_mul (nearestDouble_le _) (nearestDouble_le 1)
      _ ≤ (2 * UInt64.size) * (2 * 1) := by omega
      _ < doubleBound := by decide +kernel
  have hfit : fitDigits 0 digits = (Numeral.ofDigits digits, []) := fitDigits_of_lt h
  have hoverflow : overflowsDouble (Numeral.ofDigits digits) 0 = false := by
    rw [overflowsDouble, if_neg (by decide), if_neg (by decide)]
    exact decide_eq_false (Nat.not_le.mpr hproduct)
  simp [isOutOfRange, hfit, fitDigits, hoverflow]

-- The significand and the power of ten are rounded one by one: the first number would still round
-- to a finite double, and the second one would not.
example : isOutOfRange ['1'] "7976931348623158".toList 308 = true := by decide +kernel

example : isOutOfRange "179769313486231590".toList [] 291 = false := by decide +kernel

/-- A number is read back from its digits. -/
theorem scanNumber_toString {n : Nat} (hn : n < UInt64.size) {rest : List Char}
    (hrest : EndsNumber rest) :
    scanNumber ((toString n).toList ++ rest) = some (.nat n, rest) := by
  have hspan := spanDigits_append (fun _ => Numeral.isDigit_of_mem_toString (n := n)) hrest
  have hvalue := Numeral.ofDigits_toString n
  obtain ⟨c, cs, htext, hc⟩ := Numeral.exists_toString_eq n
  have hsign : c ≠ '-' := by rintro rfl; simp at hc
  rw [htext] at hvalue
  rw [htext, List.cons_append] at hspan ⊢
  unfold scanNumber
  simpa [hsign, hspan, hvalue, scanFraction_of_endsNumber hrest, scanExponent_of_endsNumber hrest,
    isOutOfRange_of_lt (hvalue.symm ▸ hn)] using Numeral.ne_zero_of_toString_eq htext

end Numbers

/-- A value is read back from its written form, whatever blanks stand before it and whatever follows
it, as long as that does not carry on a number. The written form starts with a character that a
reader of arrays takes for the start of an element. -/
structure ReadsBack (layout : Layout) (v : Json) : Prop where
  head : ∀ level, ∃ c cs, (v.written layout level).toList = c :: cs ∧ isBlank c = false ∧ c ≠ ']'
  scan : ∀ level n blanks rest, blanks.all isBlank = true → EndsNumber rest →
    2 * (v.written layout level).length ≤ n →
    scanValue n (blanks ++ ((v.written layout level).toList ++ rest)) = (v, rest)

section Brackets

variable {layout : Layout} {level n : Nat} {blanks : List Char}

private theorem endsNumber_furtherElems (vs : List Json) (rest : List Char) :
    EndsNumber ((furtherElems layout level vs).toList ++ rest) := by
  cases vs with
  | nil =>
    simp only [furtherElems, String.toList_append, List.append_assoc]
    exact endsNumber_append (layout.margin_blank level) (endsNumber_cons (by decide) _)
  | cons v vs =>
    simp only [furtherElems, String.toList_append, List.append_assoc]
    exact endsNumber_cons (by decide) _

private theorem endsNumber_furtherMembers (ms : List (String × Json)) (rest : List Char) :
    EndsNumber ((furtherMembers layout level ms).toList ++ rest) := by
  cases ms with
  | nil =>
    simp only [furtherMembers, String.toList_append, List.append_assoc]
    exact endsNumber_append (layout.margin_blank level) (endsNumber_cons (by decide) _)
  | cons m ms =>
    simp only [furtherMembers, String.toList_append, List.append_assoc]
    exact endsNumber_cons (by decide) _

/-- The elements of an array are read back up to the closing bracket. -/
theorem scanElems_written {v : Json} {vs : List Json} (h : ∀ w ∈ v :: vs, ReadsBack layout w)
    (hblanks : blanks.all isBlank = true)
    (hn : 2 * ((v.written layout (level + 1)).length + (furtherElems layout level vs).length) < n)
    (rest : List Char) :
    scanElems n (blanks ++ ((v.written layout (level + 1)).toList ++
      ((furtherElems layout level vs).toList ++ rest))) = (v :: vs, rest) := by
  induction vs generalizing v blanks n with
  | nil =>
    obtain _ | n := n
    · omega
    have hv := (h v (by simp)).scan (level + 1) n blanks
      ((furtherElems layout level []).toList ++ rest) hblanks (endsNumber_furtherElems [] rest)
      (by omega)
    have hclose : dropBlanks ((furtherElems layout level []).toList ++ rest) = ']' :: rest := by
      simp only [furtherElems, String.toList_append, List.append_assoc]
      rw [dropBlanks_append (layout.margin_blank level)]
      exact dropBlanks_cons rfl rest
    rw [scanElems, hv]
    simp only [hclose]
  | cons w ws ih =>
    obtain _ | n := n
    · omega
    have hlength : (furtherElems layout level (w :: ws)).length =
        1 + (layout.margin (level + 1)).length +
          ((w.written layout (level + 1)).length + (furtherElems layout level ws).length) := by
      have hcomma : ",".length = 1 := rfl
      simp only [furtherElems, String.length_append, hcomma]
      omega
    have hv := (h v (by simp)).scan (level + 1) n blanks
      ((furtherElems layout level (w :: ws)).toList ++ rest) hblanks
      (endsNumber_furtherElems (w :: ws) rest) (by omega)
    have hcomma : dropBlanks ((furtherElems layout level (w :: ws)).toList ++ rest) =
        ',' :: ((layout.margin (level + 1)).toList ++ ((w.written layout (level + 1)).toList ++
          ((furtherElems layout level ws).toList ++ rest))) := by
      simp only [furtherElems, String.toList_append, List.append_assoc]
      exact dropBlanks_cons rfl _
    have hws := ih (v := w) (n := n) (fun u hu => h u (List.mem_cons_of_mem v hu))
      (layout.margin_blank (level + 1)) (by omega)
    rw [scanElems, hv]
    simp only [hcomma, hws]

/-- Blanks in front of a text in quotes do not count. -/
private theorem dropBlanks_quoted (hblanks : blanks.all isBlank = true) (s : String)
    (rest : List Char) :
    dropBlanks (blanks ++ ((quoted s).toList ++ rest)) =
      '"' :: (s.toList.flatMap escapeChar ++ '"' :: rest) := by
  rw [dropBlanks_append hblanks, toList_quoted]
  simpa using dropBlanks_cons (by decide) _

/-- The members of an object are read back up to the closing bracket. -/
theorem scanMembers_written {k : String} {v : Json} {ms : List (String × Json)}
    (h : ∀ m ∈ (k, v) :: ms, ReadsBack layout m.2) (hblanks : blanks.all isBlank = true)
    (hn : 2 * ((v.written layout (level + 1)).length + (furtherMembers layout level ms).length) < n)
    (rest : List Char) :
    scanMembers n (blanks ++ ((quoted k).toList ++ (':' :: (layout.gap.toList ++
      ((v.written layout (level + 1)).toList ++
        ((furtherMembers layout level ms).toList ++ rest)))))) = ((k, v) :: ms, rest) := by
  have hcolon (text : List Char) : dropBlanks (':' :: text) = ':' :: text :=
    dropBlanks_cons rfl text
  induction ms generalizing k v blanks n with
  | nil =>
    obtain _ | n := n
    · omega
    have hv := (h (k, v) (by simp)).scan (level + 1) n layout.gap.toList
      ((furtherMembers layout level []).toList ++ rest) layout.gap_blank
      (endsNumber_furtherMembers [] rest) (by dsimp only; omega)
    have hclose : dropBlanks ((furtherMembers layout level []).toList ++ rest) = '}' :: rest := by
      simp only [furtherMembers, String.toList_append, List.append_assoc]
      rw [dropBlanks_append (layout.margin_blank level)]
      exact dropBlanks_cons rfl rest
    rw [scanMembers, dropBlanks_quoted hblanks]
    simp only [scanString_flatMap, hcolon, hv, hclose]
  | cons m ms ih =>
    obtain ⟨k', w⟩ := m
    obtain _ | n := n
    · omega
    have hlength : (furtherMembers layout level ((k', w) :: ms)).length =
        1 + (layout.margin (level + 1)).length + (quoted k').length + 1 + layout.gap.length +
          ((w.written layout (level + 1)).length + (furtherMembers layout level ms).length) := by
      have hcomma : ",".length = 1 := rfl
      have hcolon : ":".length = 1 := rfl
      simp only [furtherMembers, String.length_append, hcomma, hcolon]
      omega
    have hv := (h (k, v) (by simp)).scan (level + 1) n layout.gap.toList
      ((furtherMembers layout level ((k', w) :: ms)).toList ++ rest) layout.gap_blank
      (endsNumber_furtherMembers ((k', w) :: ms) rest) (by dsimp only; omega)
    have hcomma : dropBlanks ((furtherMembers layout level ((k', w) :: ms)).toList ++ rest) =
        ',' :: ((layout.margin (level + 1)).toList ++ ((quoted k').toList ++
          (':' :: (layout.gap.toList ++ ((w.written layout (level + 1)).toList ++
            ((furtherMembers layout level ms).toList ++ rest)))))) := by
      simp only [furtherMembers, String.toList_append, List.append_assoc]
      exact dropBlanks_cons rfl _
    have hms := ih (k := k') (v := w) (n := n) (fun u hu => h u (List.mem_cons_of_mem _ hu))
      (layout.margin_blank (level + 1)) (by omega)
    rw [scanMembers, dropBlanks_quoted hblanks]
    simp only [scanString_flatMap, hcolon, hv, hcomma, hms]

end Brackets

section Values

variable {layout : Layout}

/-- Blanks in front of a value do not count. -/
theorem scanValue_append {blanks : List Char} (hblanks : blanks.all isBlank = true) (n : Nat)
    (cs : List Char) : scanValue n (blanks ++ cs) = scanValue n cs := by
  cases n with
  | zero => rfl
  | succ n => rw [scanValue, scanValue, dropBlanks_append hblanks]

/-- A value whose written form is always the same. -/
private theorem readsBack_of_toList {v : Json} {c : Char} {cs : List Char}
    (htext : ∀ level, (v.written layout level).toList = c :: cs) (hblank : isBlank c = false)
    (hbracket : c ≠ ']')
    (hscan : ∀ n rest, EndsNumber rest → scanValue (n + 1) (c :: (cs ++ rest)) = (v, rest)) :
    ReadsBack layout v where
  head level := ⟨c, cs, htext level, hblank, hbracket⟩
  scan level n blanks rest hblanks hrest hn := by
    have hlength : (v.written layout level).length = cs.length + 1 := by
      rw [← String.length_toList, htext, List.length_cons]
    obtain _ | n := n
    · omega
    rw [scanValue_append hblanks, htext]
    exact hscan n rest hrest

private theorem readsBack_null : ReadsBack layout .null :=
  readsBack_of_toList (fun _ => by simp only [written, leaf]; rfl) rfl (by decide)
    fun _ _ _ => rfl

private theorem readsBack_bool (b : Bool) : ReadsBack layout (.bool b) := by
  cases b with
  | false =>
    exact readsBack_of_toList (fun _ => by simp only [written, leaf]; rfl) rfl (by decide)
      fun _ _ _ => rfl
  | true =>
    exact readsBack_of_toList (fun _ => by simp only [written, leaf]; rfl) rfl (by decide)
      fun _ _ _ => rfl

private theorem readsBack_str (s : String) : ReadsBack layout (.str s) := by
  refine readsBack_of_toList (fun _ => toList_quoted s) rfl (by decide) ?_
  intro n rest _
  rw [List.append_assoc, List.singleton_append, scanValue, dropBlanks_cons rfl]
  simp only [scanString_flatMap]

/-- A text that starts with a digit is read as a number. -/
private theorem scanValue_digit {c : Char} (hc : c.isDigit = true) (n : Nat) (cs : List Char) :
    scanValue (n + 1) (c :: cs) = (scanNumber (c :: cs)).getD (.fault, []) := by
  rw [scanValue, dropBlanks_cons (isBlank_of_isDigit hc)]
  split
  -- six characters open a value of another kind, and none of them is a digit
  iterate 6 · next heq => cases (List.cons.inj heq).1; simp at hc
  cases scanNumber (c :: cs) <;> rfl

private theorem readsBack_nat {n : Nat} (hn : n < UInt64.size) : ReadsBack layout (.nat n) := by
  obtain ⟨c, cs, htext, hc⟩ := Numeral.exists_toString_eq n
  have hbracket : c ≠ ']' := by rintro rfl; simp at hc
  refine readsBack_of_toList (fun _ => htext) (isBlank_of_isDigit hc) hbracket ?_
  intro fuel rest hrest
  rw [scanValue_digit hc, ← List.cons_append, ← htext, scanNumber_toString hn hrest]
  rfl

/-- A bracket that is not closed at once opens a row of elements. -/
private theorem scanValue_bracket {n : Nat} {text cs rest : List Char} {c : Char}
    {elems : List Json} (hfirst : dropBlanks text = c :: cs) (hbracket : c ≠ ']')
    (helems : scanElems n (c :: cs) = (elems, rest)) :
    scanValue (n + 1) ('[' :: text) = (.arr elems, rest) := by
  rw [scanValue, dropBlanks_cons rfl]
  simp only [hfirst]
  split
  · next heq => exact absurd (List.cons.inj heq).1 hbracket
  · rw [helems]

/-- An array is read back if its elements are. -/
theorem readsBack_arr {elems : List Json} (h : ∀ v ∈ elems, ReadsBack layout v) :
    ReadsBack layout (.arr elems) := by
  cases elems with
  | nil =>
    exact readsBack_of_toList (fun _ => by simp only [written, leaf]; rfl) rfl (by decide)
      fun _ _ _ => rfl
  | cons v vs =>
    have htext (level : Nat) : (written layout level (.arr (v :: vs))).toList =
        '[' :: ((layout.margin (level + 1)).toList ++ ((v.written layout (level + 1)).toList ++
          (furtherElems layout level vs).toList)) := by
      simp [written]
    refine ⟨fun level => ⟨_, _, htext level, rfl, by decide⟩, ?_⟩
    intro level n blanks rest hblanks _ hn
    have hlength : (written layout level (.arr (v :: vs))).length =
        1 + (layout.margin (level + 1)).length +
          ((v.written layout (level + 1)).length + (furtherElems layout level vs).length) := by
      rw [← String.length_toList, htext]
      simp only [List.length_cons, List.length_append, String.length_toList]
      omega
    obtain _ | n := n
    · omega
    -- the blanks after the bracket go, and the first element does not look like the closing bracket
    obtain ⟨c, cs, hhead, hblank, hbracket⟩ := (h v (by simp)).head (level + 1)
    have hfirst (text : List Char) : dropBlanks ((layout.margin (level + 1)).toList ++
        ((v.written layout (level + 1)).toList ++ text)) = c :: (cs ++ text) := by
      rw [dropBlanks_append (layout.margin_blank _), hhead]
      exact dropBlanks_cons hblank _
    rw [scanValue_append hblanks, htext, List.cons_append, List.append_assoc, List.append_assoc]
    refine scanValue_bracket (hfirst _) hbracket ?_
    have hfuel : 2 * ((v.written layout (level + 1)).length +
        (furtherElems layout level vs).length) < n := by omega
    have hnil : ([] : List Char).all isBlank = true := rfl
    simpa only [hhead, List.nil_append, List.cons_append] using scanElems_written h hnil hfuel rest

/-- A brace that a name follows opens a row of members. -/
private theorem scanValue_brace {n : Nat} {text cs rest : List Char}
    {members : List (String × Json)} (hfirst : dropBlanks text = '"' :: cs)
    (hmembers : scanMembers n ('"' :: cs) = (members, rest)) :
    scanValue (n + 1) ('\x7b' :: text) = (.obj members, rest) := by
  rw [scanValue, dropBlanks_cons rfl]
  simp only [hfirst]
  split
  · next heq => exact absurd (List.cons.inj heq).1 (by decide)
  · rw [hmembers]

/-- An object is read back if the values of its members are. -/
theorem readsBack_obj {members : List (String × Json)} (h : ∀ m ∈ members, ReadsBack layout m.2) :
    ReadsBack layout (.obj members) := by
  cases members with
  | nil =>
    exact readsBack_of_toList (fun _ => by simp only [written, leaf]; rfl) rfl (by decide)
      fun _ _ _ => rfl
  | cons m ms =>
    obtain ⟨k, v⟩ := m
    have htext (level : Nat) : (written layout level (.obj ((k, v) :: ms))).toList =
        '\x7b' :: ((layout.margin (level + 1)).toList ++ ((quoted k).toList ++ (':' ::
          (layout.gap.toList ++ ((v.written layout (level + 1)).toList ++
            (furtherMembers layout level ms).toList))))) := by
      simp [written]
    refine ⟨fun level => ⟨_, _, htext level, rfl, by decide⟩, ?_⟩
    intro level n blanks rest hblanks _ hn
    have hlength : (written layout level (.obj ((k, v) :: ms))).length =
        1 + (layout.margin (level + 1)).length + (quoted k).length + 1 + layout.gap.length +
          ((v.written layout (level + 1)).length + (furtherMembers layout level ms).length) := by
      rw [← String.length_toList, htext]
      simp only [List.length_cons, List.length_append, String.length_toList]
      omega
    obtain _ | n := n
    · omega
    have hfuel : 2 * ((v.written layout (level + 1)).length +
        (furtherMembers layout level ms).length) < n := by omega
    have hnil : ([] : List Char).all isBlank = true := rfl
    have hmembers := scanMembers_written h hnil hfuel rest
    simp only [toList_quoted, List.nil_append, List.cons_append, List.append_assoc] at hmembers
    rw [scanValue_append hblanks, htext]
    simp only [List.cons_append, List.append_assoc]
    exact scanValue_brace (dropBlanks_quoted (layout.margin_blank (level + 1)) k _) hmembers

end Values

private theorem everyElem_iff {p : Json → Bool} {elems : List Json} :
    everyElem p elems = true ↔ ∀ v ∈ elems, v.everywhere p = true := by
  induction elems with
  | nil => simp [everyElem]
  | cons v vs ih => rw [everyElem, Bool.and_eq_true, ih, List.forall_mem_cons]

private theorem everyMember_iff {p : Json → Bool} {members : List (String × Json)} :
    everyMember p members = true ↔ ∀ m ∈ members, m.2.everywhere p = true := by
  induction members with
  | nil => simp [everyMember]
  | cons m ms ih => rw [everyMember, Bool.and_eq_true, ih, List.forall_mem_cons]

/-- A value that is built from nothing, truth values, numbers of 64 bits and texts by arrays and
objects. -/
def isPlain (v : Json) : Bool :=
  v.everywhere fun
    | .nat n => n < UInt64.size
    | .numeral _ | .illegible | .fault => false
    | _ => true

/-- A number is plain exactly if it fits into 64 bits. -/
theorem isPlain_nat_iff {n : Nat} : (nat n).isPlain = true ↔ n < UInt64.size := by
  simp [isPlain, everywhere]

/-- An array is plain exactly if its elements are. -/
theorem isPlain_arr_iff {elems : List Json} :
    (arr elems).isPlain = true ↔ ∀ v ∈ elems, v.isPlain = true := by
  rw [isPlain, everywhere, Bool.true_and, everyElem_iff]
  rfl

/-- An array of encoded values is plain if every encoding is. -/
theorem isPlain_map {α : Type} {encode : α → Json} (h : ∀ x, (encode x).isPlain = true)
    (xs : List α) : (arr (xs.map encode)).isPlain = true := by
  rw [isPlain_arr_iff, List.forall_mem_map]
  exact fun x _ => h x

/-- An object is plain exactly if its members are. -/
theorem isPlain_obj_iff {members : List (String × Json)} :
    (obj members).isPlain = true ↔ ∀ m ∈ members, m.2.isPlain = true := by
  rw [isPlain, everywhere, Bool.true_and, everyMember_iff]
  rfl

/-- What holds of an array if it holds of the elements, of an object if it holds of the values in
it, and of every value without brackets, holds of every value. -/
theorem induct {motive : Json → Prop} (arr : ∀ elems, (∀ v ∈ elems, motive v) → motive (arr elems))
    (obj : ∀ members : List (String × Json), (∀ m ∈ members, motive m.2) → motive (obj members))
    (leaf : ∀ v, v.depth = 0 → motive v) : ∀ v, motive v
  | .arr elems => arr elems fun v _ => induct arr obj leaf v
  | .obj members => obj members fun m _ => induct arr obj leaf m.2
  | .null => leaf _ rfl
  | .bool _ => leaf _ rfl
  | .nat _ => leaf _ rfl
  | .numeral _ => leaf _ rfl
  | .str _ => leaf _ rfl
  | .illegible => leaf _ rfl
  | .fault => leaf _ rfl
termination_by v => sizeOf v
decreasing_by
  · have := List.sizeOf_lt_of_mem ‹_ ∈ elems›
    simp
    omega
  · have := List.sizeOf_lt_of_mem ‹_ ∈ members›
    have : sizeOf m.2 < sizeOf m := by
      rw [Prod.mk.sizeOf_spec]
      omega
    simp
    omega

/-- Every plain value is read back. -/
theorem readsBack_of_isPlain (layout : Layout) {v : Json} (h : v.isPlain = true) :
    ReadsBack layout v := by
  induction v using induct with
  | arr elems ih =>
    have helems := isPlain_arr_iff.mp h
    exact readsBack_arr fun v hv => ih v hv (helems v hv)
  | obj members ih =>
    have hmembers := isPlain_obj_iff.mp h
    exact readsBack_obj fun m hm => ih m hm (hmembers m hm)
  | leaf v hdepth =>
    cases v with
    | null => exact readsBack_null
    | bool b => exact readsBack_bool b
    | nat n => exact readsBack_nat (isPlain_nat_iff.mp h)
    | str s => exact readsBack_str s
    | arr elems => simp [depth] at hdepth
    | obj members => simp [depth] at hdepth
    | numeral _ => cases h
    | illegible => cases h
    | fault => cases h

/-- A test that follows from another one does so everywhere. -/
theorem everywhere_mono {p q : Json → Bool} (hpq : ∀ v, p v = true → q v = true) {v : Json}
    (h : v.everywhere p = true) : v.everywhere q = true := by
  induction v using induct with
  | arr elems ih =>
    rw [everywhere, Bool.and_eq_true, everyElem_iff] at h ⊢
    exact ⟨hpq _ h.1, fun v hv => ih v hv (h.2 v hv)⟩
  | obj members ih =>
    rw [everywhere, Bool.and_eq_true, everyMember_iff] at h ⊢
    exact ⟨hpq _ h.1, fun m hm => ih m hm (h.2 m hm)⟩
  | leaf v hdepth => cases v <;> simp_all [everywhere, depth]

/-- Every part of a plain value denotes something. -/
theorem isLegible_of_isPlain {v : Json} (h : v.isPlain = true) : v.isLegible = true := by
  refine everywhere_mono (fun w hw => ?_) h
  cases w <;> simp_all

end PropExport.Json

namespace PropExport

/-- Reading a document gives back the plain value it was written from, and nothing is left over. -/
theorem Document.read_written (layout : Json.Layout) {v : Json} (h : v.isPlain = true) :
    Document.read (v.written layout 0) = { root := v, isClosed := true } := by
  have hscan := (Json.readsBack_of_isPlain layout h).scan 0
    (2 * (v.written layout 0).toList.length + 2) [] [] rfl Json.endsNumber_nil
    (by rw [String.length_toList]; omega)
  rw [List.nil_append, List.append_nil] at hscan
  simp only [Document.read, hscan]
  rfl

end PropExport
