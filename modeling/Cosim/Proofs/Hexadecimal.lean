import Cosim.Proofs.Numerals

/-!
# The texts that are read as hexadecimal

A hexadecimal numeral is one or more digits, with or without a mark before them, and with white
space around it.  The grammar is said here without the reader that accepts it.

* `Hex.Digits` relates digits to their value, and `Hex.Digits.unsigned_eq` says that the reader
  finds that value, or that it does not fit into 64 bits.
* `Hex.Written` relates a text to the value that is written there, given the marks that may stand
  before the digits.
* `Hex.Reads` says what becomes of a text that is read as a setting, and
  `Hex.reads_every_numeral` when.  The two forms of the mark are taken off one after the other, so
  a text may have both of them (`Hex.reads_second_mark`).
-/

namespace Cosim

namespace Hex

/-! ## The grammar -/

/-- The digit, in either case, has this value. -/
def IsDigit (c : Char) (d : Nat) : Prop :=
  "0123456789abcdef".toList[d]? = some c ∨ "0123456789ABCDEF".toList[d]? = some c

/-- The characters are one or more digits, and this is their value. -/
inductive Digits : List Char → Nat → Prop where
  | one {c : Char} {d : Nat} (hc : IsDigit c d) : Digits [c] d
  | more {cs : List Char} {n : Nat} {c : Char} {d : Nat} (hcs : Digits cs n) (hc : IsDigit c d) :
      Digits (cs ++ [c]) (16 * n + d)

/-- A numeral may have no mark, or one, in either case. -/
def marks : List (List Char) := [[], ['0', 'x'], ['0', 'X']]

/-- Both marks, one behind the other. -/
def twoMarks : List Char := ['0', 'x', '0', 'X']

/-- The text is digits of this value behind one of the marks, with white space around them. -/
def Written (marks : List (List Char)) (text : String) (n : Nat) : Prop :=
  ∃ left mark digits right, text.toList = left ++ (mark ++ digits) ++ right ∧
    (∀ c ∈ left ++ right, Text.isBlank c = true) ∧ mark ∈ marks ∧ Digits digits n

variable {c : Char} {d n : Nat} {cs ds : List Char}

/-! ## Digits -/

theorem IsDigit.lt (hc : IsDigit c d) : d < 16 := by
  rcases hc with hc | hc <;> exact (List.getElem?_eq_some_iff.mp hc).1

/-- The reader knows the digits of the base by their codes. -/
theorem digitValue_iff : Numeral.digitValue c = some d ∧ d < 16 ↔ IsDigit c d := by
  constructor
  · rintro ⟨hvalue, hd⟩
    have hcode : c.toNat = 48 + d ∧ d < 10 ∨ c.toNat = 87 + d ∧ 10 ≤ d ∨
        c.toNat = 55 + d ∧ 10 ≤ d := by
      unfold Numeral.digitValue at hvalue
      split at hvalue
      · rename_i hrange
        have hlow : 48 ≤ c.toNat := hrange.1
        have hhigh : c.toNat ≤ 57 := hrange.2
        have hsame : c.toNat - 48 = d := Option.some.inj hvalue
        omega
      · split at hvalue
        · rename_i hrange
          have hlow : 97 ≤ c.toNat := hrange.1
          have hsame : c.toNat - 97 + 10 = d := Option.some.inj hvalue
          omega
        · split at hvalue
          · rename_i hrange
            have hlow : 65 ≤ c.toNat := hrange.1
            have hsame : c.toNat - 65 + 10 = d := Option.some.inj hvalue
            omega
          · cases hvalue
    rw [← Char.ofNat_toNat c]
    rcases hcode with ⟨hcode, hsmall⟩ | ⟨hcode, hlarge⟩ | ⟨hcode, hlarge⟩
    · rw [hcode]
      interval_cases d <;> exact .inl rfl
    · rw [hcode]
      interval_cases d <;> exact .inl rfl
    · rw [hcode]
      interval_cases d <;> exact .inr rfl
  · intro hc
    have hd := hc.lt
    refine ⟨?_, hd⟩
    rcases hc with hc | hc
    · interval_cases d <;> cases hc <;> rfl
    · interval_cases d <;> cases hc <;> rfl

/-- Digits are no white space, and no mark ends with one. -/
theorem IsDigit.plain (hc : IsDigit c d) : Text.isBlank c = false ∧ c ≠ 'x' ∧ c ≠ 'X' := by
  have hd := hc.lt
  rcases hc with hc | hc
  · interval_cases d <;> cases hc <;> decide
  · interval_cases d <;> cases hc <;> decide

theorem Digits.plain (hcs : Digits cs n) :
    ∀ c ∈ cs, Text.isBlank c = false ∧ c ≠ 'x' ∧ c ≠ 'X' := by
  induction hcs with
  | one hc =>
    intro c hmem
    rw [List.mem_singleton.mp hmem]
    exact hc.plain
  | more hcs hc ih =>
    intro c hmem
    rcases List.mem_append.mp hmem with hmem | hmem
    · exact ih c hmem
    · rw [List.mem_singleton.mp hmem]
      exact hc.plain

theorem Digits.ne_nil (hcs : Digits cs n) : cs ≠ [] := by
  cases hcs <;> simp

/-- The reader takes one more digit, as long as the value fits. -/
theorem digitsFrom_cons (acc : Nat) (hc : IsDigit c d) (cs : List Char) :
    Numeral.digitsFrom 16 false acc (c :: cs) =
      if Nat.pow 2 64 ≤ acc * 16 + d then .error .outOfRange
      else Numeral.digitsFrom 16 false (acc * 16 + d) cs := by
  obtain ⟨hvalue, hd⟩ := digitValue_iff.mpr hc
  simp only [Numeral.digitsFrom, hvalue, Bool.false_eq_true, false_and, if_false,
    if_neg (Nat.not_le_of_lt hd)]

/-- The reader finds the value of digits, unless it does not fit. -/
theorem Digits.digitsFrom_eq (hcs : Digits cs n) :
    Numeral.digitsFrom 16 false 0 cs =
      if n < Nat.pow 2 64 then .ok n else .error .outOfRange := by
  induction hcs with
  | @one c d hc =>
    have hd : d < Nat.pow 2 64 := Nat.lt_trans hc.lt (by decide)
    rw [digitsFrom_cons 0 hc, Nat.zero_mul, Nat.zero_add, if_neg (Nat.not_le_of_lt hd), if_pos hd]
    rfl
  | @more cs n c d hcs hc ih =>
    rw [Numeral.digitsFrom_append, ih]
    by_cases hn : n < Nat.pow 2 64
    · rw [if_pos hn]
      show Numeral.digitsFrom 16 false n [c] = _
      rw [digitsFrom_cons n hc, Nat.mul_comm 16 n]
      by_cases hlarge : Nat.pow 2 64 ≤ n * 16 + d
      · rw [if_pos hlarge, if_neg (Nat.not_lt_of_le hlarge)]
      · rw [if_neg hlarge, if_pos (Nat.lt_of_not_le hlarge)]
        rfl
    · rw [if_neg hn, if_neg (by omega)]
      rfl

theorem Digits.unsigned_eq (hcs : Digits cs n) :
    Numeral.unsigned 16 cs = if n < Nat.pow 2 64 then .ok n else .error .outOfRange := by
  rw [Numeral.unsigned, if_neg (by simpa using hcs.ne_nil), hcs.digitsFrom_eq]

/-- What the reader accepts begins with a digit. -/
theorem exists_digit {acc : Nat} (hread : Numeral.digitsFrom 16 false acc (c :: cs) = .ok n) :
    ∃ d, IsDigit c d ∧ Numeral.digitsFrom 16 false (acc * 16 + d) cs = .ok n := by
  cases hvalue : Numeral.digitValue c with
  | none => simp [Numeral.digitsFrom, hvalue] at hread
  | some d =>
    by_cases hd : 16 ≤ d
    · simp [Numeral.digitsFrom, hvalue, hd] at hread
    · have hc : IsDigit c d := digitValue_iff.mp ⟨hvalue, Nat.lt_of_not_le hd⟩
      rw [digitsFrom_cons acc hc] at hread
      split at hread
      · cases hread
      · exact ⟨d, hc, hread⟩

/-- What the reader accepts behind some digits are digits. -/
theorem Digits.of_digitsFrom {acc : Nat} (hds : Digits ds acc)
    (hread : Numeral.digitsFrom 16 false acc cs = .ok n) : Digits (ds ++ cs) n := by
  induction cs generalizing ds acc with
  | nil =>
    cases hread
    rwa [List.append_nil]
  | cons c cs ih =>
    obtain ⟨d, hc, hrest⟩ := exists_digit hread
    rw [Nat.mul_comm acc 16] at hrest
    have hmore := ih (hds.more hc) hrest
    rwa [List.append_assoc] at hmore

/-- The reader of unsigned numerals accepts digits whose value fits, and nothing else. -/
theorem unsigned_eq_ok_iff :
    Numeral.unsigned 16 cs = .ok n ↔ Digits cs n ∧ n < Nat.pow 2 64 := by
  constructor
  · intro hread
    cases cs with
    | nil => cases hread
    | cons c cs =>
      have hread : Numeral.digitsFrom 16 false 0 (c :: cs) = .ok n := hread
      obtain ⟨d, hc, hrest⟩ := exists_digit hread
      rw [Nat.zero_mul, Nat.zero_add] at hrest
      have hdigits : Digits (c :: cs) n := (Digits.one hc).of_digitsFrom hrest
      refine ⟨hdigits, ?_⟩
      rw [hdigits.digitsFrom_eq] at hread
      split at hread
      · assumption
      · cases hread
  · rintro ⟨hdigits, hn⟩
    rw [hdigits.unsigned_eq, if_pos hn]

/-! ## White space and marks -/

/-- White space before a character that is none. -/
theorem dropWhile_isBlank {left : List Char} (hleft : ∀ c ∈ left, Text.isBlank c = true)
    (hc : Text.isBlank c = false) (cs : List Char) :
    (left ++ c :: cs).dropWhile Text.isBlank = c :: cs := by
  rw [List.dropWhile_append_of_pos hleft, List.dropWhile_cons, hc]
  rfl

/-- Trimming takes off the white space on both sides. -/
theorem trimBlanks_between {left right : List Char}
    (hblank : ∀ c ∈ left ++ right, Text.isBlank c = true) (hnil : cs ≠ [])
    (hplain : ∀ c ∈ cs, Text.isBlank c = false) :
    Text.trimBlanks (left ++ cs ++ right) = cs := by
  have hleft : (left ++ cs ++ right).dropWhile Text.isBlank = cs ++ right := by
    obtain ⟨c, rest, rfl⟩ := List.exists_cons_of_ne_nil hnil
    rw [List.append_assoc]
    exact dropWhile_isBlank (fun c hc => hblank c (List.mem_append_left _ hc))
      (hplain c List.mem_cons_self) (rest ++ right)
  have hright : (cs ++ right).reverse.dropWhile Text.isBlank = cs.reverse := by
    obtain ⟨c, rest, hreverse⟩ := List.exists_cons_of_ne_nil (mt List.reverse_eq_nil_iff.mp hnil)
    have hmem : c ∈ cs := List.mem_reverse.mp (by simp [hreverse])
    rw [List.reverse_append, hreverse]
    refine dropWhile_isBlank (fun c hc => hblank c ?_) (hplain c hmem) rest
    exact List.mem_append_right _ (List.mem_reverse.mp hc)
  rw [Text.trimBlanks, hleft, hright, List.reverse_reverse]

/-- What trimming takes off is white space. -/
theorem exists_trimBlanks (cs : List Char) :
    ∃ left right, cs = left ++ Text.trimBlanks cs ++ right ∧
      ∀ c ∈ left ++ right, Text.isBlank c = true := by
  have hsplit : cs.takeWhile Text.isBlank ++ cs.dropWhile Text.isBlank = cs :=
    List.takeWhile_append_dropWhile
  have hsplit' : ((cs.dropWhile Text.isBlank).reverse.takeWhile Text.isBlank) ++
      ((cs.dropWhile Text.isBlank).reverse.dropWhile Text.isBlank) =
        (cs.dropWhile Text.isBlank).reverse :=
    List.takeWhile_append_dropWhile
  refine ⟨cs.takeWhile Text.isBlank,
    ((cs.dropWhile Text.isBlank).reverse.takeWhile Text.isBlank).reverse, ?_, fun c hc => ?_⟩
  · rw [Text.trimBlanks, List.append_assoc, ← List.reverse_append, hsplit', List.reverse_reverse,
      hsplit]
  · have hall := fun l : List Char => List.all_takeWhile (p := Text.isBlank) (l := l)
    rcases List.mem_append.mp hc with hc | hc
    · exact List.all_eq_true.mp (hall _) c hc
    · exact List.all_eq_true.mp (hall _) c (List.mem_reverse.mp hc)

/-- A mark is taken off, or there is none. -/
theorem dropMark_cases (mark cs : List Char) :
    cs = mark ++ dropMark mark cs ∨ dropMark mark cs = cs := by
  unfold dropMark
  split
  · rename_i hfront
    obtain ⟨rest, rfl⟩ := List.isPrefixOf_iff_prefix.mp hfront
    exact .inl (by simp)
  · exact .inr rfl

/-- What is left of a text when white space and marks are taken off. -/
def bare (text : String) : List Char :=
  dropMark ['0', 'X'] (dropMark ['0', 'x'] (Text.trimBlanks text.toList))

/-- Only marks and white space are taken off. -/
theorem written_of_bare {text : String} (hdigits : Digits (bare text) n) :
    Written (marks ++ [twoMarks]) text n := by
  obtain ⟨left, right, hsplit, hblank⟩ := exists_trimBlanks text.toList
  have hmarks : ∃ mark ∈ marks ++ [twoMarks], Text.trimBlanks text.toList = mark ++ bare text := by
    unfold bare
    generalize Text.trimBlanks text.toList = core
    rcases dropMark_cases ['0', 'x'] core with hlower | hlower <;>
      rcases dropMark_cases ['0', 'X'] (dropMark ['0', 'x'] core) with hupper | hupper
    · refine ⟨twoMarks, by simp, ?_⟩
      rw [hupper] at hlower
      exact hlower
    · refine ⟨['0', 'x'], by simp [marks], ?_⟩
      rwa [hupper]
    · refine ⟨['0', 'X'], by simp [marks], ?_⟩
      rwa [hlower] at hupper ⊢
    · exact ⟨[], by simp [marks], by rw [hupper, hlower]; rfl⟩
  obtain ⟨mark, hmark, hcore⟩ := hmarks
  rw [hcore] at hsplit
  exact ⟨left, mark, bare text, right, hsplit, hblank, hmark, hdigits⟩

theorem dropMark_append (mark cs : List Char) : dropMark mark (mark ++ cs) = cs := by
  rw [dropMark, if_pos (List.isPrefixOf_iff_prefix.mpr (List.prefix_append mark cs)),
    List.drop_left]

/-- White space around digits and marks is taken off. -/
theorem trimBlanks_of_written {left mark digits right : List Char} (hdigits : Digits digits n)
    (hblank : ∀ c ∈ left ++ right, Text.isBlank c = true) (hmark : mark ∈ marks ++ [twoMarks]) :
    Text.trimBlanks (left ++ (mark ++ digits) ++ right) = mark ++ digits := by
  have hplain : ∀ mark ∈ marks ++ [twoMarks], ∀ c ∈ mark, Text.isBlank c = false := by
    simp [marks, twoMarks, Text.isBlank]
  refine trimBlanks_between hblank (by simp [hdigits.ne_nil]) fun c hc => ?_
  rcases List.mem_append.mp hc with hc | hc
  · exact hplain mark hmark c hc
  · exact (hdigits.plain c hc).1

/-- Digits are left when white space and marks are taken off. -/
theorem digits_of_written {text : String} (hwritten : Written (marks ++ [twoMarks]) text n) :
    Digits (bare text) n := by
  obtain ⟨left, mark, digits, right, htext, hblank, hmark, hdigits⟩ := hwritten
  have htrim := trimBlanks_of_written hdigits hblank hmark
  have hx : 'x' ∉ digits := fun hmem => (hdigits.plain 'x' hmem).2.1 rfl
  have hX : 'X' ∉ digits := fun hmem => (hdigits.plain 'X' hmem).2.2 rfl
  have hlower : ∀ ds : List Char, 'x' ∉ ds → dropMark ['0', 'x'] ds = ds := fun ds hds =>
    dropMark_of_not_mem (c := 'x') (by simp) hds
  have hupper : dropMark ['0', 'X'] digits = digits := dropMark_of_not_mem (c := 'X') (by simp) hX
  have hbare : bare text = digits := by
    rw [bare, htext, htrim]
    have hcases : mark = [] ∨ mark = ['0', 'x'] ∨ mark = ['0', 'X'] ∨ mark = twoMarks := by
      simpa [marks] using hmark
    rcases hcases with rfl | rfl | rfl | rfl
    · rw [List.nil_append, hlower digits hx, hupper]
    · rw [dropMark_append, hupper]
    · rw [hlower _ (by simp [hx]), dropMark_append]
    · show dropMark ['0', 'X'] (dropMark ['0', 'x'] (['0', 'x'] ++ (['0', 'X'] ++ digits))) = digits
      rw [dropMark_append, dropMark_append]
  rwa [hbare]

theorem written_iff_digits {text : String} :
    Written (marks ++ [twoMarks]) text n ↔ Digits (bare text) n :=
  ⟨digits_of_written, written_of_bare⟩

/-- A text that does not begin with both marks has one of them, or none. -/
theorem written_iff_of_single {text : String} (hone : ¬ twoMarks <+: Text.trimBlanks text.toList) :
    Written marks text n ↔ Written (marks ++ [twoMarks]) text n := by
  constructor
  · rintro ⟨left, mark, digits, right, htext, hblank, hmark, hdigits⟩
    exact ⟨left, mark, digits, right, htext, hblank, List.mem_append_left _ hmark, hdigits⟩
  · rintro ⟨left, mark, digits, right, htext, hblank, hmark, hdigits⟩
    refine ⟨left, mark, digits, right, htext, hblank, ?_, hdigits⟩
    rcases List.mem_append.mp hmark with hsingle | hdouble
    · exact hsingle
    · have htrim := trimBlanks_of_written hdigits hblank hmark
      rw [← htext, List.mem_singleton.mp hdouble] at htrim
      exact absurd (htrim ▸ List.prefix_append twoMarks digits) hone

/-! ## Reading -/

/-- Digits are read, unless their value is too large. -/
theorem parse_of_digits {text : String} (hdigits : Digits (bare text) n) :
    parse text = if n < Nat.pow 2 64 then .ok (UInt64.ofNat n)
      else .error (.numeral "strconv.ParseUint" (String.ofList (bare text)) .outOfRange) := by
  have hnil : (bare text).isEmpty = false := by simpa using hdigits.ne_nil
  unfold bare at hnil hdigits ⊢
  simp only [parse, hnil, Bool.false_eq_true, if_false, hdigits.unsigned_eq]
  by_cases hn : n < Nat.pow 2 64
  · simp only [if_pos hn]
  · simp only [if_neg hn]

/-- What is read are digits. -/
theorem digits_of_parse {text : String} {w : UInt64} (hread : parse text = .ok w) :
    Digits (bare text) w.toNat := by
  unfold parse at hread
  dsimp only at hread
  split at hread
  · cases hread
  · split at hread
    · rename_i n hunsigned
      obtain ⟨hdigits, hn⟩ := unsigned_eq_ok_iff.mp hunsigned
      cases hread
      rwa [UInt64.toNat_ofNat_of_lt' hn]
    · cases hread

/-- What becomes of a text that is read, where digits may stand behind these marks. -/
structure Reads (marks : List (List Char)) (text : String) : Prop where
  /-- It is read exactly if it is a numeral of 64 bits, and then as what is written. -/
  value_iff : ∀ w : UInt64, parse text = .ok w ↔ Written marks text w.toNat
  /-- A numeral of more bits is out of range. -/
  too_large : ∀ n, Written marks text n → Nat.pow 2 64 ≤ n →
    ∃ digits, parse text = .error (.numeral "strconv.ParseUint" digits .outOfRange)
  /-- Anything else is refused. -/
  refused : (∀ n, ¬ Written marks text n) → ∃ e, parse text = .error e
  /-- A setting takes the value, or keeps the one that it had. -/
  assigned : ∀ old, (∀ w, parse text = .ok w → assign old text = (w, none)) ∧
    ∀ e, parse text = .error e →
      assign old text = (old, some (.within s!"invalid hexadecimal {Text.quoted text}" e))

theorem reads_of_written {marks : List (List Char)} {text : String}
    (hwritten : ∀ n, Written marks text n ↔ Digits (bare text) n) : Reads marks text where
  value_iff := by
    intro w
    rw [hwritten]
    refine ⟨digits_of_parse, fun hdigits => ?_⟩
    rw [parse_of_digits hdigits, if_pos w.toNat_lt, UInt64.ofNat_toNat]
  too_large := by
    intro n hn hlarge
    exact ⟨_, by rw [parse_of_digits ((hwritten n).mp hn), if_neg (Nat.not_lt_of_le hlarge)]⟩
  refused := by
    intro hnone
    cases hread : parse text with
    | ok w => exact absurd ((hwritten _).mpr (digits_of_parse hread)) (hnone _)
    | error e => exact ⟨e, rfl⟩
  assigned := by
    refine fun old => ⟨fun w hread => ?_, fun e hread => ?_⟩
    · simp only [assign, parseSetting, hread]
    · simp only [assign, parseSetting, hread]

/-- Every text is read by the grammar, where one mark may stand behind the other.  The grammar with
a single mark is what is read of all texts but those that begin with both. -/
theorem reads_every_numeral (text : String) :
    Reads (marks ++ [twoMarks]) text ∧
      (¬ twoMarks <+: Text.trimBlanks text.toList → Reads marks text) :=
  ⟨reads_of_written fun _ => written_iff_digits,
    fun hone => reads_of_written fun _ => (written_iff_of_single hone).trans written_iff_digits⟩

/-- The greatest value, with a leading zero and white space around it, and the first that is too
large. -/
theorem reads_every_numeral_at_the_limit :
    parse " 0X0ffffffffFFFFFFFF\n" = .ok 18446744073709551615 ∧
      (∃ digits, parse "0x10000000000000000" =
        .error (.numeral "strconv.ParseUint" digits .outOfRange)) ∧
      ∃ e, assign 7 "0x10000000000000000" = (7, some e) := by
  have hgreatest : Digits "0ffffffffFFFFFFFF".toList 18446744073709551615 :=
    (unsigned_eq_ok_iff.mp rfl).1
  have hsixteen : Digits "1000000000000000".toList 1152921504606846976 :=
    (unsigned_eq_ok_iff.mp rfl).1
  have hlarge : Digits "10000000000000000".toList 18446744073709551616 :=
    hsixteen.more (c := '0') (d := 0) (.inl rfl)
  obtain ⟨-, hreads⟩ := reads_every_numeral " 0X0ffffffffFFFFFFFF\n"
  obtain ⟨-, hreads'⟩ := reads_every_numeral "0x10000000000000000"
  have hsingle := hreads (by decide)
  have hsingle' := hreads' (by decide)
  obtain ⟨digits, hrange⟩ := hsingle'.too_large 18446744073709551616
    ⟨[], ['0', 'x'], _, [], rfl, by simp, by simp [marks], hlarge⟩ (by decide)
  refine ⟨(hsingle.value_iff 18446744073709551615).mpr ?_, ⟨digits, hrange⟩, _,
    (hsingle'.assigned 7).2 _ hrange⟩
  exact ⟨[' '], ['0', 'X'], _, ['\n'], rfl, by simp [Text.isBlank], by simp [marks], hgreatest⟩

/-- A second mark is read where the grammar has none. -/
theorem reads_second_mark : parse "0x0X1" = .ok 1 ∧ ∀ n, ¬ Written marks "0x0X1" n := by
  refine ⟨rfl, ?_⟩
  rintro n ⟨left, mark, digits, right, htext, hblank, hmark, hdigits⟩
  have htrim := trimBlanks_of_written hdigits hblank (List.mem_append_left _ hmark)
  rw [← htext] at htrim
  have hX : 'X' ∉ digits := fun hmem => (hdigits.plain 'X' hmem).2.2 rfl
  have hcases : mark = [] ∨ mark = ['0', 'x'] ∨ mark = ['0', 'X'] := by simpa [marks] using hmark
  -- The digits would hold the second mark, or the text would begin with it.
  rcases hcases with rfl | rfl | rfl
  · have hdigits : "0x0X1".toList = digits := htrim
    exact hX (by rw [← hdigits]; decide)
  · have hdigits : "0X1".toList = digits := (List.cons.inj (List.cons.inj htrim).2).2
    exact hX (by rw [← hdigits]; decide)
  · have hmark : 'x' = 'X' := (List.cons.inj (List.cons.inj htrim).2).1
    exact absurd hmark (by decide)

end Hex

end Cosim
