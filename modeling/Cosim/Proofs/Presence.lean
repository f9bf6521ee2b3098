import Cosim.Proofs.Snapshot

/-!
# The word of those who have reported

A snapshot has a slot for each core.  It can also be kept as a row of records and one word with
a bit for each core that has reported, and then a look at a slot becomes a test of a bit.

* `Snapshot.presence` packs the cores that have reported into one word, and `Snapshot.Packed` says
  how puts, resets and the count look there.
* `Rollcall` is the row of records with its word, and `Rollcall.Keeps` ties it to the snapshot
  that it stands for.
* `Rollcall.Keeps.put` and `Rollcall.Keeps.reset` are the steps of the two together, and
  `Rollcall.Keeps.agrees` says that whoever asks is told the same by both.
-/

namespace Cosim

namespace Snapshot

variable {s s' : Snapshot} {core : Int} {state : CoreState}

/-! ## Bits -/

theorem getLsbD_bit (core : Nat) {i : Nat} (hi : i < maxCores) :
    (BitVec.twoPow maxCores core).getLsbD i = (i == core) := by
  rw [BitVec.getLsbD_twoPow, Bool.eq_iff_iff]
  simp only [Bool.and_eq_true, decide_eq_true_eq, beq_iff_eq]
  omega

/-- A bit is tested with a word that has no other. -/
theorem and_bit_ne_zero {word : BitVec maxCores} {core : Nat} (hcore : core < maxCores) :
    word &&& BitVec.twoPow maxCores core ≠ BitVec.ofNat maxCores 0 ↔ word.getLsbD core = true := by
  constructor
  · intro hne
    by_contra hclear
    refine hne (BitVec.eq_of_getLsbD_eq fun i hi => ?_)
    rw [BitVec.getLsbD_and, getLsbD_bit core hi, BitVec.getLsbD_zero]
    by_cases hsame : i = core
    · subst hsame
      simp [hclear]
    · simp [hsame]
  · intro hset hzero
    have hbit := congrArg (fun x => BitVec.getLsbD x core) hzero
    simp only [BitVec.getLsbD_and, getLsbD_bit core hcore, hset, BitVec.getLsbD_zero] at hbit
    simp at hbit

/-- The bits of a word, counted. -/
theorem cpopNatRec_eq_countP {w : Nat} (word : BitVec w) (k : Nat) :
    word.cpopNatRec k 0 = (List.range k).countP word.getLsbD := by
  induction k with
  | zero => rfl
  | succ k ih =>
    rw [BitVec.cpopNatRec_succ, BitVec.cpopNatRec_add, ih, List.range_succ, List.countP_append]
    cases hbit : word.getLsbD k <;> simp [hbit]

/-- The word with the bits of those numbers below `k` that are chosen. -/
def pack (chosen : Nat → Bool) (k : Nat) : BitVec maxCores :=
  (List.range k).foldl
    (fun word i => if chosen i then word ||| BitVec.twoPow maxCores i else word)
    (BitVec.ofNat maxCores 0)

theorem getLsbD_pack (chosen : Nat → Bool) (k : Nat) {i : Nat} (hi : i < maxCores) :
    (pack chosen k).getLsbD i = (decide (i < k) && chosen i) := by
  induction k with
  | zero => simp [pack]
  | succ k ih =>
    have hpack : pack chosen (k + 1) =
        if chosen k then pack chosen k ||| BitVec.twoPow maxCores k else pack chosen k := by
      simp [pack, List.range_succ, List.foldl_append]
    rw [hpack]
    by_cases hsame : i = k
    · subst hsame
      cases hchosen : chosen i with
      | false => simp [ih]
      | true => simp [ih, getLsbD_bit i hi]
    · have hlt : decide (i < k + 1) = decide (i < k) := by
        simp only [decide_eq_decide]
        omega
      rw [hlt, ← ih]
      split
      · rw [BitVec.getLsbD_or, getLsbD_bit k hi, beq_false_of_ne hsame, Bool.or_false]
      · rfl

/-! ## The cores that have reported -/

/-- The cores that have reported, a bit for each. -/
def presence (s : Snapshot) : BitVec maxCores := pack (fun core => s.has core) s.cores

theorem getLsbD_presence {core : Nat} (hcore : core < maxCores) :
    s.presence.getLsbD core = s.has core := by
  rw [presence, getLsbD_pack _ _ hcore, Bool.and_eq_right_iff_imp]
  intro hhas
  have := (core_lt_of_has hhas).2
  simpa using this

/-- A put that succeeds sets the bit of its core. -/
theorem presence_put (hput : s.put core state = .ok s') :
    s'.presence = s.presence ||| BitVec.twoPow maxCores core.toNat := by
  have hnonneg : 0 ≤ core := by
    unfold put at hput
    split at hput
    · cases hput
    · omega
  refine BitVec.eq_of_getLsbD_eq fun i hi => ?_
  rw [BitVec.getLsbD_or, getLsbD_presence hi, getLsbD_presence hi, has_put hput,
    getLsbD_bit core.toNat hi]
  congr 1
  rw [Bool.eq_iff_iff, beq_iff_eq, beq_iff_eq]
  omega

theorem presence_reset (s : Snapshot) : s.reset.presence = BitVec.ofNat maxCores 0 := by
  refine BitVec.eq_of_getLsbD_eq fun i hi => ?_
  rw [getLsbD_presence hi, has_reset, BitVec.getLsbD_zero]

/-- The number of cores that have reported is the number of bits set. -/
theorem cpop_presence (hcores : s.cores ≤ maxCores) : s.presence.cpop.toNat = s.filled := by
  obtain ⟨rest, hrest⟩ := Nat.exists_eq_add_of_le hcores
  rw [BitVec.toNat_cpop, cpopNatRec_eq_countP, filled_eq_countP]
  have hbits : (List.range maxCores).countP s.presence.getLsbD =
      (List.range maxCores).countP fun core : Nat => s.has core :=
    List.countP_congr fun core hcore => by rw [getLsbD_presence (List.mem_range.mp hcore)]
  -- Above the cores of the snapshot nothing is set.
  have hnone : ((List.range rest).map (s.cores + ·)).countP (fun core : Nat => s.has core) = 0 := by
    rw [List.countP_eq_zero]
    intro core hcore hhas
    obtain ⟨i, -, rfl⟩ := List.mem_map.mp hcore
    have := (core_lt_of_has hhas).2
    omega
  rw [hbits, hrest, List.range_add, List.countP_append, hnone, Nat.add_zero]

/-- The word of a snapshot, in which every core has its bit. -/
structure Packed (s : Snapshot) : Prop where
  has_iff : ∀ core : Nat, core < s.cores →
    (s.has core = true ↔ s.presence &&& BitVec.twoPow maxCores core ≠ BitVec.ofNat maxCores 0)
  no_other : ∀ i, s.presence.getLsbD i = true → i < s.cores
  put_eq : ∀ core state s', s.put core state = .ok s' →
    s'.presence = s.presence ||| BitVec.twoPow maxCores core.toNat
  reset_eq : s.reset.presence = BitVec.ofNat maxCores 0
  filled_eq : s.filled = s.presence.cpop.toNat

theorem packed (hcores : s.cores ≤ maxCores) : s.Packed where
  has_iff := by
    intro core hcore
    have hbit : core < maxCores := by omega
    rw [and_bit_ne_zero hbit, getLsbD_presence hbit]
  no_other := by
    intro i hset
    have hi : i < maxCores := BitVec.lt_of_getLsbD hset
    rw [getLsbD_presence hi] at hset
    have := (core_lt_of_has hset).2
    omega
  put_eq := fun _ _ _ hput => presence_put hput
  reset_eq := presence_reset s
  filled_eq := (cpop_presence hcores).symm

end Snapshot

/-! ## A row of records and a word -/

/-- A snapshot kept as a row of records, with one word that has a bit for each core that has
reported. -/
structure Rollcall where
  /-- The number the exchange gave the snapshot when it was last published. -/
  seq : UInt64 := 0
  /-- The record of each core; the zero record until the core reports. -/
  records : Array CoreState
  present : BitVec maxCores := BitVec.ofNat maxCores 0
deriving DecidableEq

namespace Rollcall

/-- No core of so many has reported. -/
def create (cores : Int) : Except Fault Rollcall :=
  if 1 ≤ cores ∧ cores ≤ maxCores then .ok { records := Array.replicate cores.toNat {} }
  else .error (.snapshotCores cores)

def cores (r : Rollcall) : Nat := r.records.size

/-- The word with no bit but that of a core. -/
def bit (core : Int) : BitVec maxCores := BitVec.twoPow maxCores core.toNat

def put (r : Rollcall) (core : Int) (state : CoreState) : Except Error Rollcall :=
  if core < 0 ∨ r.cores ≤ core then .error (.coreRange core r.cores)
  else if r.present &&& bit core ≠ BitVec.ofNat maxCores 0 then .error (.duplicateCore core.toNat)
  else .ok { r with records := r.records.set! core.toNat state, present := r.present ||| bit core }

def has (r : Rollcall) (core : Int) : Bool :=
  if core < 0 ∨ r.cores ≤ core then false else r.present &&& bit core != BitVec.ofNat maxCores 0

/-- The number of bits set. -/
def filled (r : Rollcall) : Nat := r.present.cpop.toNat

def complete (r : Rollcall) : Bool := r.filled == r.cores

def reset (r : Rollcall) : Rollcall :=
  { r with records := Array.replicate r.cores {}, present := BitVec.ofNat maxCores 0 }

/-- The rollcall has the records of the snapshot, and its word says whose they are. -/
structure Keeps (r : Rollcall) (s : Snapshot) : Prop where
  within : s.cores ≤ maxCores
  seq_eq : r.seq = s.seq
  records_eq : r.records.toList = s.records
  present_eq : r.present = s.presence

theorem keeps_create {n : Int} (hlow : 1 ≤ n) (hhigh : n ≤ maxCores) :
    ∃ r s, create n = .ok r ∧ Snapshot.create n = .ok s ∧ r.Keeps s := by
  refine ⟨_, _, if_pos ⟨hlow, hhigh⟩, if_pos ⟨hlow, hhigh⟩, ?_, rfl, ?_, ?_⟩
  · simp only [Snapshot.cores, Array.size_replicate]
    omega
  · simp [Snapshot.records]
  · exact (Snapshot.presence_reset { slots := Array.replicate n.toNat none }).symm.trans (by
      simp [Snapshot.reset, Snapshot.cores])

namespace Keeps

variable {r : Rollcall} {s : Snapshot}

theorem cores_eq (h : r.Keeps s) : r.cores = s.cores := by
  have hlength := congrArg List.length h.records_eq
  simpa [cores, Snapshot.cores, Snapshot.records] using hlength

/-- A core in range has reported exactly if its bit is set. -/
theorem bit_ne_zero (h : r.Keeps s) {core : Int} (hlow : 0 ≤ core) (hhigh : core < s.cores) :
    r.present &&& bit core ≠ BitVec.ofNat maxCores 0 ↔ s.has core = true := by
  have hcore : core.toNat < maxCores := by
    have := h.within
    omega
  rw [h.present_eq, bit, Snapshot.and_bit_ne_zero hcore, Snapshot.getLsbD_presence hcore,
    Int.toNat_of_nonneg hlow]

theorem has_eq (h : r.Keeps s) (core : Int) : r.has core = s.has core := by
  unfold has
  rw [h.cores_eq]
  split
  · rename_i hout
    symm
    rw [← Bool.not_eq_true]
    intro hhas
    have := Snapshot.core_lt_of_has hhas
    omega
  · rename_i hin
    rw [Bool.eq_iff_iff, bne_iff_ne]
    exact h.bit_ne_zero (by omega) (by omega)

theorem filled_eq (h : r.Keeps s) : r.filled = s.filled := by
  rw [filled, h.present_eq, Snapshot.cpop_presence h.within]

/-- A put is refused by both with the same error, or taken by both. -/
theorem put (h : r.Keeps s) (core : Int) (state : CoreState) :
    (∃ e, r.put core state = .error e ∧ s.put core state = .error e) ∨
      ∃ r' s', r.put core state = .ok r' ∧ s.put core state = .ok s' ∧ r'.Keeps s' := by
  by_cases hrange : core < 0 ∨ s.cores ≤ core
  · refine .inl ⟨_, ?_, if_pos hrange⟩
    rw [Rollcall.put, h.cores_eq, if_pos hrange]
  have htest : r.present &&& bit core ≠ BitVec.ofNat maxCores 0 ↔ s.has core = true :=
    h.bit_ne_zero (by omega) (by omega)
  cases hhas : s.has core with
  | true =>
    refine .inl ⟨.duplicateCore core.toNat, ?_, ?_⟩
    · rw [Rollcall.put, h.cores_eq, if_neg hrange, if_pos (htest.mpr hhas)]
    · rw [Snapshot.put, if_neg hrange, if_pos hhas]
  | false =>
    have hput : s.put core state =
        .ok { s with slots := s.slots.set! core.toNat (some state) } := by
      rw [Snapshot.put, if_neg hrange, if_neg (by simp [hhas])]
    have hput' : r.put core state = .ok { r with
        records := r.records.set! core.toNat state, present := r.present ||| bit core } := by
      rw [Rollcall.put, h.cores_eq, if_neg hrange, if_neg (by simp [htest, hhas])]
    refine .inr ⟨_, _, hput', hput, ?_, h.seq_eq, ?_, ?_⟩
    · simpa [Snapshot.cores] using h.within
    · simp [Snapshot.records, h.records_eq, List.map_set]
    · rw [Snapshot.presence_put hput, h.present_eq, bit]

theorem reset (h : r.Keeps s) : r.reset.Keeps s.reset where
  within := by simpa [Snapshot.cores, Snapshot.reset] using h.within
  seq_eq := h.seq_eq
  records_eq := by simp [Rollcall.reset, Snapshot.records, Snapshot.reset, h.cores_eq]
  present_eq := (Snapshot.presence_reset s).symm

end Keeps

/-- Whoever asks is told the same by both. -/
structure Agrees (r : Rollcall) (s : Snapshot) : Prop where
  keeps : r.Keeps s
  has_eq : ∀ core, r.has core = s.has core
  filled_eq : r.filled = s.filled
  complete_eq : r.complete = s.complete
  refused_iff : ∀ core state e, r.put core state = .error e ↔ s.put core state = .error e

theorem Keeps.agrees {r : Rollcall} {s : Snapshot} (h : r.Keeps s) : r.Agrees s where
  keeps := h
  has_eq := h.has_eq
  filled_eq := h.filled_eq
  complete_eq := by rw [complete, h.filled_eq, h.cores_eq, Snapshot.complete]
  refused_iff := by
    intro core state e
    rcases h.put core state with ⟨e', hr, hs⟩ | ⟨r', s', hr, hs, -⟩ <;> simp [hr, hs]

end Rollcall

end Cosim
