import Cosim.Record
import Mathlib.Data.Nat.Bitwise
import Mathlib.Tactic.Ring

/-!
# The record format in both directions

A record has 38 fields of different widths at fixed offsets, with padding between them.
Writing puts the fields in a row; reading looks each of them up at its offset.

* `wordOfBytes_wordBytes` and `wordBytes_wordOfBytes` are the two directions for one word.
* `CoreState.ofBytes_encode` says that reading undoes writing.
* `CoreState.normalForm` is what counts of a buffer: its padding cleared and its flags made
  0 or 1.  `CoreState.encode_ofBytes` says that writing what was read gives exactly that.
* `CoreState.encodeInto_eq` says that fields written one by one at their offsets make up the
  record.
* `CoreState.codec_exact` puts the two directions together.
-/

namespace Cosim

/-! ## Words -/

/-- A value and a byte shifted above it share no bit. -/
theorem lor_shiftLeft {low i : Nat} (byte : Nat) (hlow : low < 2 ^ i) :
    low ||| byte <<< i = low + byte * 2 ^ i := by
  rw [Nat.lor_comm, ← Nat.shiftLeft_add_eq_or_of_lt hlow, Nat.shiftLeft_eq, Nat.add_comm]

/-- A byte can be shifted by seven places of a word. -/
theorem shiftLeft_mod (b : UInt8) {i : Nat} (hi : i ≤ 56) :
    (b.toNat <<< i) % 2 ^ 64 = b.toNat <<< i := by
  refine Nat.mod_eq_of_lt ?_
  rw [Nat.shiftLeft_eq]
  calc b.toNat * 2 ^ i < 2 ^ 8 * 2 ^ i :=
        Nat.mul_lt_mul_of_pos_right b.toNat_lt (Nat.two_pow_pos i)
    _ ≤ 2 ^ 8 * 2 ^ 56 := Nat.mul_le_mul_left _ (Nat.pow_le_pow_right (by omega) hi)
    _ = 2 ^ 64 := by norm_num

/-- The number that eight little-endian bytes stand for. -/
theorem toNat_wordOfBytes (b₀ b₁ b₂ b₃ b₄ b₅ b₆ b₇ : UInt8) (rest : List UInt8) :
    (wordOfBytes (b₀ :: b₁ :: b₂ :: b₃ :: b₄ :: b₅ :: b₆ :: b₇ :: rest)).toNat =
      b₀.toNat + b₁.toNat * 2 ^ 8 + b₂.toNat * 2 ^ 16 + b₃.toNat * 2 ^ 24 + b₄.toNat * 2 ^ 32 +
        b₅.toNat * 2 ^ 40 + b₆.toNat * 2 ^ 48 + b₇.toNat * 2 ^ 56 := by
  have h₀ := b₀.toNat_lt
  have h₁ := b₁.toNat_lt
  have h₂ := b₂.toNat_lt
  have h₃ := b₃.toNat_lt
  have h₄ := b₄.toNat_lt
  have h₅ := b₅.toNat_lt
  have h₆ := b₆.toNat_lt
  simp only [wordOfBytes, UInt64.toNat_or, UInt64.toNat_shiftLeft, UInt8.toNat_toUInt64,
    UInt64.reduceToNat, Nat.reduceMod]
  rw [shiftLeft_mod b₁ (by omega), shiftLeft_mod b₂ (by omega), shiftLeft_mod b₃ (by omega),
    shiftLeft_mod b₄ (by omega), shiftLeft_mod b₅ (by omega), shiftLeft_mod b₆ (by omega),
    shiftLeft_mod b₇ (by omega)]
  -- From the low bytes up, each byte stands above the sum of the ones before it.
  rw [lor_shiftLeft b₁.toNat (by omega), lor_shiftLeft b₂.toNat (by omega),
    lor_shiftLeft b₃.toNat (by omega), lor_shiftLeft b₄.toNat (by omega),
    lor_shiftLeft b₅.toNat (by omega), lor_shiftLeft b₆.toNat (by omega),
    lor_shiftLeft b₇.toNat (by omega)]

/-- Reading undoes writing, whatever follows the word. -/
theorem wordOfBytes_wordBytes (w : UInt64) (rest : List UInt8) :
    wordOfBytes (wordBytes w ++ rest) = w := by
  have hw := w.toNat_lt
  apply UInt64.toNat_inj.mp
  simp only [wordBytes, List.cons_append, List.nil_append, toNat_wordOfBytes]
  simp only [UInt64.toNat_toUInt8, UInt64.toNat_shiftRight, UInt64.reduceToNat, Nat.reduceMod,
    Nat.shiftRight_eq_div_pow]
  omega

/-- Writing undoes reading. -/
theorem wordBytes_wordOfBytes {b : List UInt8} (hlong : 8 ≤ b.length) :
    wordBytes (wordOfBytes b) = b.take 8 := by
  rcases b with _ | ⟨b₀, _ | ⟨b₁, _ | ⟨b₂, _ | ⟨b₃, _ | ⟨b₄, _ | ⟨b₅, _ | ⟨b₆, _ |
    ⟨b₇, rest⟩⟩⟩⟩⟩⟩⟩⟩
  case cons.cons.cons.cons.cons.cons.cons.cons =>
    have h₀ := b₀.toNat_lt
    have h₁ := b₁.toNat_lt
    have h₂ := b₂.toNat_lt
    have h₃ := b₃.toNat_lt
    have h₄ := b₄.toNat_lt
    have h₅ := b₅.toNat_lt
    have h₆ := b₆.toNat_lt
    have h₇ := b₇.toNat_lt
    have hvalue := toNat_wordOfBytes b₀ b₁ b₂ b₃ b₄ b₅ b₆ b₇ rest
    generalize wordOfBytes _ = w at hvalue
    simp only [wordBytes, List.take_succ_cons, List.take_zero, List.cons.injEq, and_true]
    refine ⟨?_, ?_, ?_, ?_, ?_, ?_, ?_, ?_⟩
    all_goals
      apply UInt8.toNat_inj.mp
      simp only [UInt64.toNat_toUInt8, UInt64.toNat_shiftRight, UInt64.reduceToNat, Nat.reduceMod,
        Nat.shiftRight_eq_div_pow, hvalue]
      omega
  all_goals simp at hlong

theorem length_flatMap_wordBytes (ws : List UInt64) :
    (ws.flatMap wordBytes).length = 8 * ws.length := by
  induction ws with
  | nil => rfl
  | cons w ws ih => simp [ih]; omega

/-- The word at a position of a row of words. -/
theorem wordOfBytes_flatMap (ws : List UInt64) (i : Nat) (hi : i < ws.length) :
    wordOfBytes ((ws.flatMap wordBytes).drop (8 * i)) = ws[i] := by
  induction ws generalizing i with
  | nil => simp at hi
  | cons w ws ih =>
    cases i with
    | zero => simpa using wordOfBytes_wordBytes w (ws.flatMap wordBytes)
    | succ i =>
      have hskip : ((w :: ws).flatMap wordBytes).drop (8 * (i + 1)) =
          (ws.flatMap wordBytes).drop (8 * i) := by
        rw [List.flatMap_cons, show 8 * (i + 1) = (wordBytes w).length + 8 * i by simp; omega,
          List.drop_append]
        simp
      rw [hskip, ih i (by simpa using hi)]
      rfl

/-- A row of bytes is the row of its words. -/
theorem flatMap_wordBytes_ofFn (n : Nat) (b : List UInt8) (hlength : b.length = 8 * n) :
    (List.ofFn fun i : Fin n => wordOfBytes (b.drop (8 * i.val))).flatMap wordBytes = b := by
  induction n generalizing b with
  | zero =>
    have hnil : b = [] := by simpa using hlength
    simp [hnil]
  | succ n ih =>
    have hrest := ih (b.drop 8) (by simp [hlength]; omega)
    rw [List.ofFn_succ, List.flatMap_cons]
    simp only [List.drop_drop] at hrest
    simp only [Fin.val_zero, Nat.mul_zero, List.drop_zero, Fin.val_succ, Nat.mul_add, Nat.mul_one]
    rw [wordBytes_wordOfBytes (by omega)]
    simp only [Nat.add_comm _ 8]
    rw [hrest, List.take_append_drop]

namespace CoreState

/-! ## Reading what was written -/

@[simp] theorem length_encode (s : CoreState) : s.encode.length = 296 := by
  simp only [encode, List.length_append, List.length_cons, List.length_nil, List.length_replicate,
    wordBytes_length, length_flatMap_wordBytes, Vector.length_toList]
  rfl

theorem flagByte_ne_zero (b : Bool) : (flagByte b != 0) = b := by cases b <;> rfl

/-- The registers stand behind the first 48 bytes. -/
theorem drop_encode (s : CoreState) (i : Nat) :
    s.encode.drop (48 + 8 * i) = (s.regs.toList.flatMap wordBytes).drop (8 * i) := by
  rw [← List.drop_drop]
  rfl

/-- Reading a record gives the state that was written. -/
theorem ofBytes_encode (s : CoreState) : ofBytes s.encode = s := by
  have hpc : wordOfBytes (s.encode.drop 8) = s.trap.pc := wordOfBytes_wordBytes _ _
  have hcycles : wordOfBytes (s.encode.drop 16) = s.trap.cycles := wordOfBytes_wordBytes _ _
  have hinstrs : wordOfBytes (s.encode.drop 24) = s.trap.instrs := wordOfBytes_wordBytes _ _
  have hregs : (Vector.ofFn fun i : Fin numRegs => wordOfBytes (s.encode.drop (48 + 8 * i.val))) =
      s.regs := by
    apply Vector.ext
    intro i hi
    rw [Vector.getElem_ofFn, drop_encode, wordOfBytes_flatMap _ i (by simpa using hi)]
    simp
  have htrap : (ofBytes s.encode).trap = s.trap := by
    simp only [ofBytes, hpc, hcycles, hinstrs]
    show TrapEvent.mk (flagByte s.trap.hasTrap != 0) s.trap.code _ _ _ = _
    rw [flagByte_ne_zero]
  have hcommit : (ofBytes s.encode).commit = s.commit := by
    show Commit.mk (flagByte s.commit.valid != 0) s.commit.count = _
    rw [flagByte_ne_zero]
  show CoreState.mk (ofBytes s.encode).trap (ofBytes s.encode).commit _ = _
  rw [htrap, hcommit, hregs]

/-! ## The normal form of a buffer -/

/-- The byte is padding: written as zero and never read. -/
def isPadding (i : Nat) : Bool :=
  (2 ≤ i && i ≤ 7) || (32 ≤ i && i ≤ 39) || (42 ≤ i && i ≤ 47)

/-- The byte is a flag: any value but zero means yes. -/
def isFlag (i : Nat) : Bool := i == 0 || i == 40

/-- What counts of the byte at a position. -/
def normalByte (i : Nat) (byte : UInt8) : UInt8 :=
  if isPadding i then 0 else if isFlag i && byte != 0 then 1 else byte

/-- A buffer with its padding cleared and its flags made 0 or 1. -/
def normalForm (b : List UInt8) : List UInt8 := b.mapIdx normalByte

/-- Padding is zero and flags are 0 or 1. -/
def IsNormal (b : List UInt8) : Prop :=
  ∀ i byte, b[i]? = some byte →
    (isPadding i = true → byte = 0) ∧ (isFlag i = true → byte = 0 ∨ byte = 1)

theorem normalByte_eq_self_iff (i : Nat) (byte : UInt8) :
    normalByte i byte = byte ↔
      (isPadding i = true → byte = 0) ∧ (isFlag i = true → byte = 0 ∨ byte = 1) := by
  have hdisjoint : isPadding i = true → isFlag i = false := by
    simp only [isPadding, isFlag, Bool.or_eq_true, Bool.and_eq_true, decide_eq_true_eq,
      Bool.or_eq_false_iff, beq_eq_false_iff_ne]
    omega
  unfold normalByte
  by_cases hpadding : isPadding i = true
  · simp only [hpadding, hdisjoint hpadding, if_true, forall_const, Bool.false_eq_true,
      IsEmpty.forall_iff, and_true]
    exact eq_comm
  · by_cases hzero : byte = 0
    · simp [hpadding, hzero]
    · by_cases hflag : isFlag i = true
      · simp [hpadding, hflag, hzero, eq_comm (a := (1 : UInt8))]
      · simp [hpadding, hflag]

theorem normalForm_eq_self_iff (b : List UInt8) : normalForm b = b ↔ IsNormal b := by
  unfold normalForm IsNormal
  constructor
  · intro hsame i byte hbyte
    rw [← normalByte_eq_self_iff]
    have hat := congrArg (·[i]?) hsame
    simpa [List.getElem?_mapIdx, hbyte] using hat
  · intro hnormal
    apply List.ext_getElem?
    intro i
    cases hbyte : b[i]? with
    | none => simp [List.getElem?_mapIdx, hbyte]
    | some byte =>
      simp [List.getElem?_mapIdx, hbyte, (normalByte_eq_self_iff i byte).mpr (hnormal i byte hbyte)]

/-- Padding is cleared. -/
theorem mapIdx_padding (l : List UInt8) (k : Nat)
    (hpadding : ∀ i < l.length, isPadding (i + k) = true) :
    l.mapIdx (fun i => normalByte (i + k)) = List.replicate l.length 0 := by
  apply List.ext_getElem
  · simp
  intro i hi _
  have hclear := hpadding i (by simpa using hi)
  simp [normalByte, hclear]

/-- What is neither padding nor a flag is kept. -/
theorem mapIdx_plain (l : List UInt8) (k : Nat)
    (hplain : ∀ i < l.length, isPadding (i + k) = false ∧ isFlag (i + k) = false) :
    l.mapIdx (fun i => normalByte (i + k)) = l := by
  apply List.ext_getElem
  · simp
  intro i hi _
  obtain ⟨hpadding, hflag⟩ := hplain i (by simpa using hi)
  simp [normalByte, hpadding, hflag]

/-- A flag, a byte that is kept, and padding up to the next word. -/
theorem mapIdx_head {l : List UInt8} (hlength : l.length = 8) {k : Nat} (hk : k = 0 ∨ k = 40) :
    l.mapIdx (fun i => normalByte (i + k)) =
      [flagByte (l.getD 0 0 != 0), l.getD 1 0] ++ List.replicate 6 0 := by
  obtain ⟨flag, byte, padding, rfl⟩ : ∃ flag byte padding, l = flag :: byte :: padding := by
    rcases l with _ | ⟨flag, _ | ⟨byte, padding⟩⟩ <;> simp_all
  have hpadding : padding.length = 6 := by simpa using hlength
  have hclear := mapIdx_padding padding (k + 2) (by
    intro i hi
    rcases hk with rfl | rfl <;> simp [isPadding] <;> omega)
  have hflag : normalByte k flag = flagByte (flag != 0) := by
    rcases hk with rfl | rfl <;> by_cases hzero : flag = 0 <;>
      simp [normalByte, isPadding, isFlag, flagByte, hzero]
  have hkept : normalByte (1 + k) byte = byte := by
    rcases hk with rfl | rfl <;> simp [normalByte, isPadding, isFlag]
  rw [hpadding] at hclear
  simp only [List.mapIdx_cons, Nat.zero_add, hflag, hkept, List.getD_cons_zero, List.getD_cons_succ,
    List.cons_append, List.nil_append, List.cons.injEq, true_and]
  rw [← hclear]
  congr 1
  funext i
  congr 1
  omega

/-- The normal form, field by field. -/
theorem normalForm_eq {b : List UInt8} (hlength : b.length = 296) :
    normalForm b =
      [flagByte (b.getD 0 0 != 0), b.getD 1 0] ++ List.replicate 6 0 ++ (b.drop 8).take 24 ++
        List.replicate 8 0 ++ [flagByte (b.getD 40 0 != 0), b.getD 41 0] ++ List.replicate 6 0 ++
        b.drop 48 := by
  have hpieces : b = b.take 8 ++ ((b.drop 8).take 24 ++ ((b.drop 32).take 8 ++
      ((b.drop 40).take 8 ++ b.drop 48))) := by
    rw [← List.drop_drop (i := 8) (j := 40), List.take_append_drop]
    rw [← List.drop_drop (i := 8) (j := 32), List.take_append_drop]
    rw [← List.drop_drop (i := 24) (j := 8), List.take_append_drop, List.take_append_drop]
  have htrap := mapIdx_head (l := b.take 8) (by simp [hlength]) (.inl rfl)
  have hwords := mapIdx_plain ((b.drop 8).take 24) 8 (by
    intro i hi
    simp only [List.length_take, List.length_drop, hlength] at hi
    simp [isPadding, isFlag]
    omega)
  have hreserved := mapIdx_padding ((b.drop 32).take 8) 32 (by
    intro i hi
    simp only [List.length_take, List.length_drop, hlength] at hi
    simp [isPadding]
    omega)
  have hcommit := mapIdx_head (l := (b.drop 40).take 8) (by simp [hlength]) (.inr rfl)
  have hregs := mapIdx_plain (b.drop 48) 48 (by
    intro i hi
    simp [isPadding, isFlag])
  conv_lhs => rw [hpieces]
  simp only [normalForm, List.mapIdx_append, List.length_take, List.length_drop, hlength,
    Nat.reduceSub, Nat.reduceLeDiff, Nat.min_eq_left, Nat.add_assoc, Nat.reduceAdd]
  simp only [Nat.add_zero] at htrap
  rw [htrap, hwords, hreserved, hcommit, hregs]
  simp [List.getD_eq_getElem?_getD, hlength]

/-- Writing what was read gives the normal form of the buffer. -/
theorem encode_ofBytes {b : List UInt8} (hlength : b.length = 296) :
    (ofBytes b).encode = normalForm b := by
  have hwords : wordBytes (wordOfBytes (b.drop 8)) ++ wordBytes (wordOfBytes (b.drop 16)) ++
      wordBytes (wordOfBytes (b.drop 24)) = (b.drop 8).take 24 := by
    rw [wordBytes_wordOfBytes (by simp [hlength]), wordBytes_wordOfBytes (by simp [hlength]),
      wordBytes_wordOfBytes (by simp [hlength]), show 24 = 8 + 8 + 8 from rfl, List.take_add,
      List.take_add, List.drop_drop, List.drop_drop]
  have hregs : ((ofBytes b).regs.toList).flatMap wordBytes = b.drop 48 := by
    rw [← flatMap_wordBytes_ofFn 31 (b.drop 48) (by simp [hlength])]
    simp [ofBytes, numRegs, Vector.toList_ofFn, List.drop_drop]
  rw [normalForm_eq hlength, ← hwords, ← hregs]
  simp only [encode, List.append_assoc]
  rfl

theorem decode_eq {b : List UInt8} (hlength : b.length = 296) : decode b = .ok (ofBytes b) := by
  simp [decode, recordSize, hlength]

/-- Buffers describe the same state exactly when they have the same normal form. -/
theorem ofBytes_eq_iff {b b' : List UInt8} (hb : b.length = 296) (hb' : b'.length = 296) :
    ofBytes b = ofBytes b' ↔ normalForm b = normalForm b' := by
  rw [← encode_ofBytes hb, ← encode_ofBytes hb']
  constructor
  · intro hsame
    rw [hsame]
  · intro hsame
    rw [← ofBytes_encode (ofBytes b), hsame, ofBytes_encode]

/-! ## Writing over a buffer -/

/-- What stands before and behind the bytes replaced is kept. -/
theorem overwrite_append {front old data rest : List UInt8} {offset : Nat}
    (hfront : front.length = offset) (hold : old.length = data.length) :
    overwrite (front ++ (old ++ rest)) offset data = front ++ (data ++ rest) := by
  subst hfront
  rw [overwrite, List.take_left, ← hold, ← List.drop_drop, List.drop_left, List.drop_left,
    List.append_assoc]

/-- The fields before the registers fill the first 48 bytes of a cleared buffer. -/
theorem putHead_append (s : CoreState) (rest : List UInt8) :
    s.putHead (List.replicate 48 0 ++ rest) = s.encode.take 48 ++ rest := by
  cases hflag : s.trap.hasTrap <;> cases hvalid : s.commit.valid <;>
    simp [putHead, overwrite, encode, wordBytes, flagByte, hflag, hvalid, List.replicate_succ]

/-- Registers fill the bytes from their offset on, in a row. -/
theorem putRegs_append (ws : List UInt64) {i : Nat} {front old rest : List UInt8}
    (hfront : front.length = 48 + 8 * i) (hold : old.length = 8 * ws.length) :
    putRegs (front ++ (old ++ rest)) i ws = front ++ (ws.flatMap wordBytes ++ rest) := by
  induction ws generalizing i front old with
  | nil =>
    obtain rfl : old = [] := by simpa using hold
    rfl
  | cons w ws ih =>
    have hword : (old.take 8).length = (wordBytes w).length := by
      simp only [List.length_take, hold, List.length_cons, wordBytes_length]
      omega
    have hwritten : overwrite (front ++ (old ++ rest)) (48 + 8 * i) (wordBytes w) =
        (front ++ wordBytes w) ++ (old.drop 8 ++ rest) := by
      rw [← List.take_append_drop 8 old, List.append_assoc, overwrite_append hfront hword]
      simp
    rw [putRegs, hwritten, ih (i := i + 1)]
    · simp
    · simp [hfront]
      omega
    · simp [hold]
      omega

/-- Writing over a buffer replaces its start and keeps the rest, whatever it held. -/
theorem encodeInto_eq (s : CoreState) {buffer : List UInt8} (hlong : 296 ≤ buffer.length) :
    s.encodeInto buffer = .ok (s.encode ++ buffer.drop 296) := by
  have hindex : Fault.checkIndex (recordSize - 1) buffer.length = .ok 295 :=
    Fault.checkIndex_of_lt (i := 295) (by omega)
  have hcleared : overwrite buffer 0 (List.replicate recordSize 0) =
      List.replicate 48 0 ++ (List.replicate 248 0 ++ buffer.drop 296) := by
    rw [← List.append_assoc, List.replicate_append_replicate, overwrite, List.take_zero,
      List.nil_append, List.length_replicate, Nat.zero_add, recordSize]
  have hregs : (List.replicate 248 (0 : UInt8)).length = 8 * s.regs.toList.length := by
    rw [List.length_replicate, Vector.length_toList, numRegs]
  have hhead : (s.encode.take 48).length = 48 + 8 * 0 := by simp
  simp only [encodeInto, hindex, bind, Except.bind, pure, Except.pure, hcleared, putHead_append]
  rw [putRegs_append _ hhead hregs, ← List.append_assoc]
  have hwhole : s.encode.take 48 ++ s.regs.toList.flatMap wordBytes = s.encode := by
    rw [← List.take_append_drop 48 s.encode]
    exact congrArg _ (s.drop_encode 0).symm
  rw [hwhole]

/-- The two directions of the record format.  Every state is written as 296 bytes, 297 with
its core, that read back as the state and do not depend on what the buffer held before.
Every buffer of 296 bytes is read, and written back in its normal form; no other buffer is
read. -/
theorem codec_exact :
    (∀ (s : CoreState) (core : UInt8),
      (encodeChunk core s).length = 297 ∧ (encodeChunk core s).getLast? = some core ∧
      decode ((encodeChunk core s).take 296) = .ok s ∧
      ∀ buffer : List UInt8, 296 ≤ buffer.length → ∃ written, s.encodeInto buffer = .ok written ∧
        written.length = buffer.length ∧ written.take 296 = (encodeChunk core s).take 296 ∧
        written.drop 296 = buffer.drop 296) ∧
    (∀ b : List UInt8, b.length = 296 → ∃ s, decode b = .ok s ∧ s.encode = normalForm b ∧
      (s.encode = b ↔ IsNormal b)) ∧
    (∀ b b' : List UInt8, b.length = 296 → b'.length = 296 →
      (decode b = decode b' ↔ normalForm b = normalForm b')) ∧
    (∀ b : List UInt8, b.length ≠ 296 → decode b = .error (.recordSize b.length)) := by
  have htake : ∀ (s : CoreState) (rest : List UInt8), (s.encode ++ rest).take 296 = s.encode := by
    intro s rest
    exact List.take_left' s.length_encode
  refine ⟨fun s core => ⟨?_, ?_, ?_, fun buffer hlong => ?_⟩, fun b hb => ?_, fun b b' hb hb' => ?_,
    fun b hb => ?_⟩
  · simp [encodeChunk]
  · simp [encodeChunk]
  · rw [encodeChunk, htake, decode_eq s.length_encode, ofBytes_encode]
  · refine ⟨_, s.encodeInto_eq hlong, ?_, ?_, ?_⟩
    · rw [List.length_append, length_encode, List.length_drop]
      omega
    · rw [encodeChunk, htake, htake]
    · exact List.drop_left' s.length_encode
  · refine ⟨_, decode_eq hb, encode_ofBytes hb, ?_⟩
    rw [encode_ofBytes hb, normalForm_eq_self_iff]
  · rw [decode_eq hb, decode_eq hb', Except.ok.injEq, ofBytes_eq_iff hb hb']
  · simp [decode, recordSize, hb]

/-- A buffer full of ones, longer than a record, takes a record.  Read as a record itself it
is no normal form, and three bytes are no record. -/
theorem codec_exact_ones :
    let s : CoreState := { trap := { hasTrap := true, code := 3, pc := 0x80000000 } }
    let buffer : List UInt8 := List.replicate 300 255
    let ones : List UInt8 := List.replicate 296 255
    (296 ≤ buffer.length ∧ ∃ written, s.encodeInto buffer = .ok written ∧
      written.drop 296 = [255, 255, 255, 255]) ∧
    (∃ t, decode ones = .ok t ∧ t.encode ≠ ones ∧ decode ones = decode t.encode) ∧
    decode [1, 2, 3] = .error (.recordSize 3) := by
  intro s buffer ones
  obtain ⟨hwrite, hread, hsame, hrefuse⟩ := codec_exact
  have hlong : 296 ≤ buffer.length := by rw [List.length_replicate]; omega
  have hones : ones.length = 296 := List.length_replicate
  refine ⟨⟨hlong, ?_⟩, ?_, hrefuse [1, 2, 3] (by decide)⟩
  · obtain ⟨written, hwritten, -, -, hrest⟩ := (hwrite s 0).2.2.2 buffer hlong
    exact ⟨written, hwritten, hrest.trans List.drop_replicate⟩
  · obtain ⟨t, ht, hnormal, hself⟩ := hread ones hones
    refine ⟨t, ht, fun heq => ?_, (hsame ones t.encode hones t.length_encode).mpr ?_⟩
    · obtain ⟨-, hflag⟩ := hself.mp heq 0 255 rfl
      exact absurd (hflag rfl) (by decide)
    · rw [← hnormal, ← encode_ofBytes t.length_encode, ofBytes_encode]

end CoreState

end Cosim
