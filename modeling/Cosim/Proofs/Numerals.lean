import Cosim.Flag
import Mathlib.Tactic.IntervalCases

/-!
# Reading what was written

A number that is written in decimal or hexadecimal is read back as itself, as long as it
fits into 64 bits.

* `Numeral.digitsFrom_toDigits` reads digits back, in any base up to 16.
* `Numeral.signedMarked_repr` does so for a decimal with its sign, where the base is not known
  beforehand: a decimal has no leading zero and no underscore, so it announces no other base.
* `Hex.parseSetting_hex` does so for a word in hexadecimal with its mark.
-/

namespace Cosim

namespace Numeral

/-- The digits of a number are digits. -/
theorem exists_of_mem_toDigits {base n : Nat} (hbase : 1 < base) {c : Char}
    (hc : c ∈ Nat.toDigits base n) : ∃ d < base, c = Nat.digitChar d := by
  induction n using Nat.strong_induction_on with
  | h n ih =>
    by_cases hn : n < base
    · rw [Nat.toDigits_of_lt_base hn, List.mem_singleton] at hc
      exact ⟨n, hn, hc⟩
    · have hle : base ≤ n := Nat.le_of_not_lt hn
      rw [Nat.toDigits_of_base_le hbase hle, List.mem_append, List.mem_singleton] at hc
      rcases hc with hhigh | hlow
      · exact ih (n / base) (Nat.div_lt_self (by omega) hbase) hhigh
      · exact ⟨n % base, Nat.mod_lt n (by omega), hlow⟩

theorem toDigits_ne_nil {base n : Nat} (hbase : 1 < base) : Nat.toDigits base n ≠ [] := by
  rw [Nat.toDigits_eq_if hbase]
  split <;> simp

/-- Numbers other than zero have no leading zero. -/
theorem head?_toDigits {n : Nat} (hpos : 0 < n) :
    ∃ d, 0 < d ∧ d < 10 ∧ (Nat.toDigits 10 n).head? = some (Nat.digitChar d) := by
  induction n using Nat.strong_induction_on with
  | h n ih =>
    by_cases hn : n < 10
    · exact ⟨n, hpos, hn, by rw [Nat.toDigits_of_lt_base hn]; rfl⟩
    · obtain ⟨d, hd, hlt, hhead⟩ := ih (n / 10) (by omega) (by omega)
      refine ⟨d, hd, hlt, ?_⟩
      rw [Nat.toDigits_of_base_le (by omega) (by omega), List.head?_append, hhead]
      rfl

theorem digitValue_digitChar {d : Nat} (hd : d < 16) : digitValue (Nat.digitChar d) = some d := by
  interval_cases d <;> rfl

theorem digitChar_ne_underscore {d : Nat} (hd : d < 16) : Nat.digitChar d ≠ '_' := by
  interval_cases d <;> decide

theorem digitsFrom_append (base : Nat) (underscores : Bool) (acc : Nat) (cs ds : List Char) :
    digitsFrom base underscores acc (cs ++ ds) =
      (digitsFrom base underscores acc cs).bind (digitsFrom base underscores · ds) := by
  induction cs generalizing acc with
  | nil => rfl
  | cons c cs ih =>
    simp only [List.cons_append, digitsFrom]
    split
    · exact ih acc
    · split
      · rfl
      · split
        · rfl
        · split
          · rfl
          · exact ih _

/-- One more digit. -/
theorem digitsFrom_digitChar {base d acc : Nat} (underscores : Bool) (hbase : base ≤ 16)
    (hd : d < base) (hfits : acc * base + d < Nat.pow 2 64) :
    digitsFrom base underscores acc [Nat.digitChar d] = .ok (acc * base + d) := by
  have hnot : ¬ (underscores = true ∧ Nat.digitChar d = '_') := fun h =>
    digitChar_ne_underscore (by omega) h.2
  simp only [digitsFrom, if_neg hnot, digitValue_digitChar (show d < 16 by omega)]
  rw [if_neg (by omega), if_neg (by omega)]

/-- The digits of a number are read as the number. -/
theorem digitsFrom_toDigits {base : Nat} (underscores : Bool) (hbase : 1 < base)
    (hbase' : base ≤ 16) {n : Nat} (hn : n < Nat.pow 2 64) :
    digitsFrom base underscores 0 (Nat.toDigits base n) = .ok n := by
  induction n using Nat.strong_induction_on with
  | h n ih =>
    by_cases hlt : n < base
    · rw [Nat.toDigits_of_lt_base hlt, digitsFrom_digitChar underscores hbase' hlt (by omega)]
      simp
    · have hless : n / base < n := Nat.div_lt_self (by omega) hbase
      have hsplit : n / base * base + n % base = n := Nat.div_add_mod' n base
      rw [Nat.toDigits_of_base_le hbase (by omega), digitsFrom_append, ih _ hless (by omega)]
      have hlast : digitsFrom base underscores (n / base) [Nat.digitChar (n % base)] =
          .ok (n / base * base + n % base) :=
        digitsFrom_digitChar underscores hbase' (Nat.mod_lt n (by omega)) (by omega)
      rw [hsplit] at hlast
      exact hlast

/-! ## Decimals -/

/-- A decimal announces no base. -/
theorem unsignedMarked_toDigits {n : Nat} (hn : n < Nat.pow 2 64) :
    unsignedMarked (Nat.toDigits 10 n) = .ok n := by
  have hread := digitsFrom_toDigits true (by omega) (by omega : 10 ≤ 16) hn
  unfold unsignedMarked
  split
  · rename_i hnil
    exact absurd hnil (toDigits_ne_nil (by omega))
  · -- Zero has one digit, and other numbers begin with another one.
    rename_i mark rest hdigits
    by_cases hzero : n = 0
    · subst hzero
      cases hdigits
    · obtain ⟨d, hpos, hd, hhead⟩ := head?_toDigits (Nat.pos_of_ne_zero hzero)
      rw [hdigits, List.head?_cons, Option.some.injEq] at hhead
      interval_cases d <;> cases hhead
  · simp [hread]

/-- A decimal without sign. -/
theorem signedMarked_toDigits {n : Nat} (hn : n < Nat.pow 2 63) :
    signedMarked (Nat.toDigits 10 n) = .ok (n : Int) := by
  have hwide : Nat.pow 2 63 ≤ Nat.pow 2 64 := by decide
  have hread := unsignedMarked_toDigits (Nat.lt_of_lt_of_le hn hwide)
  have hdigit : ∀ c ∈ Nat.toDigits 10 n, c ≠ '-' ∧ c ≠ '+' := by
    intro c hc
    obtain ⟨d, hd, rfl⟩ := exists_of_mem_toDigits (by omega) hc
    interval_cases d <;> decide
  have hnil := toDigits_ne_nil (n := n) (show 1 < 10 by omega)
  generalize Nat.toDigits 10 n = cs at hread hdigit hnil
  cases cs with
  | nil => exact absurd rfl hnil
  | cons c cs =>
    obtain ⟨hminus, hplus⟩ := hdigit c List.mem_cons_self
    unfold signedMarked signedBy
    split
    rename_i negative digits hsign
    obtain ⟨rfl, rfl⟩ : negative = false ∧ digits = c :: cs := by
      split at hsign
      · rename_i rest heq
        exact absurd (List.cons.inj heq).1 hminus
      · rename_i rest heq
        exact absurd (List.cons.inj heq).1 hplus
      · exact ⟨(Prod.mk.inj hsign).1.symm, (Prod.mk.inj hsign).2.symm⟩
    simp only [List.isEmpty_cons, Bool.false_eq_true, if_false, hread]
    rw [if_neg (by omega)]

/-- A decimal behind a minus sign. -/
theorem signedMarked_minus {n : Nat} (hn : n ≤ Nat.pow 2 63) :
    signedMarked ('-' :: Nat.toDigits 10 n) = .ok (-(n : Int)) := by
  have hwide : Nat.pow 2 63 < Nat.pow 2 64 := by decide
  have hread := unsignedMarked_toDigits (Nat.lt_of_le_of_lt hn hwide)
  simp only [signedMarked, signedBy, List.isEmpty_cons, hread]
  rw [if_neg (by simp), if_pos trivial, if_neg (by omega)]

/-- An integer of 64 bits is read as itself. -/
theorem signedMarked_repr {n : Int} (hlow : -(Nat.pow 2 63 : Nat) ≤ n)
    (hhigh : n < (Nat.pow 2 63 : Nat)) : signedMarked (toString n).toList = .ok n := by
  rw [Int.toString_eq_repr, Int.repr_eq_if]
  split
  · rw [Nat.toList_repr, signedMarked_toDigits (by omega), Int.toNat_of_nonneg (by omega)]
  · rw [String.toList_append, Nat.toList_repr]
    have hread := signedMarked_minus (n := (-n).toNat) (by omega)
    rw [Int.toNat_of_nonneg (by omega), Int.neg_neg] at hread
    exact hread

/-- A signed numeral of 64 bits is between the least and the greatest integer of that width. -/
theorem signedMarked_bounds {cs : List Char} {n : Int} (hread : signedMarked cs = .ok n) :
    -(Nat.pow 2 63 : Nat) ≤ n ∧ n < (Nat.pow 2 63 : Nat) := by
  have hpos : 0 < Nat.pow 2 63 := by decide
  unfold signedMarked signedBy at hread
  split at hread
  rename_i negative _ _
  split at hread
  · cases hread
  · split at hread
    · cases hread
    · cases negative with
      | true =>
        rw [if_pos rfl] at hread
        split at hread
        · cases hread
        · cases hread
          omega
      | false =>
        rw [if_neg Bool.false_ne_true] at hread
        split at hread
        · cases hread
        · cases hread
          omega

end Numeral

/-! ## Hexadecimal -/

/-- A text without white space is not trimmed. -/
theorem Text.trimBlanks_eq {cs : List Char} (hcs : ∀ c ∈ cs, isBlank c = false) :
    trimBlanks cs = cs := by
  have hdrop : ∀ ds : List Char, (∀ c ∈ ds, isBlank c = false) → ds.dropWhile isBlank = ds := by
    intro ds hds
    cases ds with
    | nil => rfl
    | cons d ds => rw [List.dropWhile_cons, hds d List.mem_cons_self]; rfl
  unfold trimBlanks
  rw [hdrop cs hcs, hdrop cs.reverse (fun c hc => hcs c (List.mem_reverse.mp hc)),
    List.reverse_reverse]

theorem Text.toList_hex (w : UInt64) :
    (Text.hex w).toList = '0' :: 'x' :: Nat.toDigits 16 w.toNat := by
  have hlength : 1 - (Nat.toDigits 16 w.toNat).length = 0 := by
    have hnil := Numeral.toDigits_ne_nil (n := w.toNat) (show 1 < 16 by omega)
    have hpos := List.length_pos_iff.mpr hnil
    omega
  simp [Text.hex, Text.hexDigits, hlength]

namespace Hex

theorem dropMark_of_not_mem {mark cs : List Char} {c : Char} (hc : c ∈ mark) (hcs : c ∉ cs) :
    dropMark mark cs = cs := by
  rw [dropMark, if_neg]
  intro hprefix
  exact hcs ((List.isPrefixOf_iff_prefix.mp hprefix).subset hc)

/-- A word in hexadecimal is read as itself. -/
theorem parse_hex (w : UInt64) : parse (Text.hex w) = .ok w := by
  have hdigit : ∀ c ∈ Nat.toDigits 16 w.toNat, Text.isBlank c = false ∧ c ≠ 'X' := by
    intro c hc
    obtain ⟨d, hd, rfl⟩ := Numeral.exists_of_mem_toDigits (by omega) hc
    interval_cases d <;> decide
  have htrim : Text.trimBlanks (Text.hex w).toList = '0' :: 'x' :: Nat.toDigits 16 w.toNat := by
    rw [Text.toList_hex]
    apply Text.trimBlanks_eq
    intro c hc
    rcases List.mem_cons.mp hc with rfl | hc
    · decide
    · rcases List.mem_cons.mp hc with rfl | hc
      · decide
      · exact (hdigit c hc).1
  have hmark : dropMark ['0', 'x'] ('0' :: 'x' :: Nat.toDigits 16 w.toNat) =
      Nat.toDigits 16 w.toNat := by
    simp [dropMark]
  have hplain : dropMark ['0', 'X'] (Nat.toDigits 16 w.toNat) = Nat.toDigits 16 w.toNat :=
    dropMark_of_not_mem (c := 'X') (by simp) fun hc => (hdigit 'X' hc).2 rfl
  have hnil : (Nat.toDigits 16 w.toNat).isEmpty = false := by
    rw [List.isEmpty_eq_false_iff]
    exact Numeral.toDigits_ne_nil (by omega)
  have hread : Numeral.unsigned 16 (Nat.toDigits 16 w.toNat) = .ok w.toNat := by
    rw [Numeral.unsigned, if_neg (by simp [hnil])]
    exact Numeral.digitsFrom_toDigits false (by omega) (by omega) w.toNat_lt
  simp [parse, htrim, hmark, hplain, hnil, hread]

theorem parseSetting_hex (w : UInt64) : parseSetting (Text.hex w) = .ok w := by
  rw [parseSetting, parse_hex]

end Hex

end Cosim
