import Cosim.Proofs.Snapshot
import Mathlib.Data.List.Basic

/-!
# Streams as sequences of blocks

What a byte stream means, said without the workers that read it.  A stream is
cut into whole records, `cores` records in a row make a block, and a block in
which every core reports once makes a snapshot.

* `Stream.records` are the whole records of a stream; bytes left over at its end
  belong to none.
* `Stream.isBad` marks a record that names an impossible core, or a core that
  has already reported in the same block.  `Stream.firstBad` is the first one.
* `Stream.states` lists the states that a block reports, in core order.
-/

namespace Cosim.Stream

/-- One record: the core that it names, and that core's state. -/
abbrev Record := Nat × CoreState

/-- The record that a chunk of bytes holds. -/
def parse (chunk : List UInt8) : Record :=
  ((chunk.getD recordSize 0).toNat, CoreState.ofBytes (chunk.take recordSize))

/-- The whole records of a stream. -/
def records (bytes : List UInt8) : List Record :=
  (List.range (bytes.length / chunkSize)).map fun i =>
    parse ((bytes.drop (chunkSize * i)).take chunkSize)

/-- The records that came before record `i` in its block. -/
def before (cores : Nat) (rs : List Record) (i : Nat) : List Record :=
  (rs.drop (i / cores * cores)).take (i % cores)

/-- The records of block `i`. -/
def block (cores : Nat) (rs : List Record) (i : Nat) : List Record :=
  (rs.drop (i * cores)).take cores

/-- Record `i` names a core that there is not, or one that has reported. -/
def isBad (cores : Nat) (rs : List Record) (i : Nat) : Bool :=
  match rs[i]? with
  | none => false
  | some r => decide (cores ≤ r.1) || (before cores rs i).any fun old => old.1 == r.1

/-- The first bad record; the number of records if there is none. -/
def firstBad (cores : Nat) (rs : List Record) : Nat :=
  ((List.range rs.length).find? (isBad cores rs)).getD rs.length

/-- Why the first bad record is refused. -/
def refusal (cores : Nat) (rs : List Record) : Option Error :=
  rs[firstBad cores rs]?.map fun r =>
    if cores ≤ r.1 then .coreIndex r.1 cores else .duplicateCore r.1

/-- The states that a block reports, in core order. -/
def states (cores : Nat) (block : List Record) : List CoreState :=
  (List.range cores).map fun core => (block.lookup core).getD {}

/-- The states that the complete blocks report, block by block. -/
def blocks (cores : Nat) (rs : List Record) : List (List CoreState) :=
  (List.range (rs.length / cores)).map fun i => states cores (block cores rs i)

/-- A stream of whole records in which each block has a core at most once and names
only cores that there are.  The last block may be incomplete. -/
structure WellFormed (cores : Nat) (bytes : List UInt8) : Prop where
  whole : chunkSize ∣ bytes.length
  core_lt : ∀ r ∈ records bytes, r.1 < cores
  distinct : ∀ i, ((block cores (records bytes) i).map Prod.fst).Nodup

variable {cores : Nat} {rs : List Record} {i : Nat}

/-! ## Records -/

@[simp] theorem length_records (bytes : List UInt8) :
    (records bytes).length = bytes.length / chunkSize := by
  simp [records]

/-- The record whose chunk starts at its place in the stream. -/
theorem getElem?_records {bytes chunk rest : List UInt8}
    (hdrop : bytes.drop (chunkSize * i) = chunk ++ rest) (hlen : chunk.length = chunkSize) :
    (records bytes)[i]? = some (parse chunk) := by
  have hsize := congrArg List.length hdrop
  rw [List.length_drop, List.length_append, hlen] at hsize
  have hlt : i < bytes.length / chunkSize := by
    rw [Nat.lt_div_iff_mul_lt (by decide)]
    simp only [chunkSize] at *
    omega
  simp only [records, List.getElem?_map, List.getElem?_range hlt, Option.map_some, hdrop]
  rw [← hlen, List.take_left]

/-! ## Positions in a block -/

theorem length_before (hi : i ≤ rs.length) : (before cores rs i).length = i % cores := by
  have := Nat.div_add_mod' i cores
  simp only [before, List.length_take, List.length_drop]
  omega

/-- A block that ends before the stream does is whole. -/
theorem length_block (hi : i < rs.length / cores) : (block cores rs i).length = cores := by
  have hle := Nat.mul_le_of_le_div cores (i + 1) rs.length hi
  rw [Nat.add_mul, Nat.one_mul] at hle
  simp only [block, List.length_take, List.length_drop]
  omega

/-- A record and those before it in its block. -/
theorem take_succ_before {r : Record} (hr : rs[i]? = some r) :
    (rs.drop (i / cores * cores)).take (i % cores + 1) = before cores rs i ++ [r] := by
  rw [List.take_add_one, List.getElem?_drop, Nat.div_add_mod', hr]
  rfl

theorem succ_div_of_mod_ne_zero (hmod : (i + 1) % cores ≠ 0) : (i + 1) / cores = i / cores := by
  rw [Nat.succ_div, if_neg (by rwa [Nat.dvd_iff_mod_eq_zero])]
  rfl

/-- The next record joins its block, unless it completes it. -/
theorem before_succ {r : Record} (hr : rs[i]? = some r) (hmod : (i + 1) % cores ≠ 0) :
    before cores rs (i + 1) = before cores rs i ++ [r] := by
  have hdiv := succ_div_of_mod_ne_zero hmod
  have hsucc : (i + 1) % cores = i % cores + 1 := by
    have h₁ := Nat.div_add_mod (i + 1) cores
    have h₂ := Nat.div_add_mod i cores
    rw [hdiv] at h₁
    omega
  rw [before, hdiv, hsucc, take_succ_before hr]

/-- Where a block ends, the records so far are a whole number of blocks. -/
theorem succ_div_of_mod_eq_zero (hmod : (i + 1) % cores = 0) :
    (i + 1) / cores = i / cores + 1 ∧ i % cores + 1 = cores := by
  have hdiv : (i + 1) / cores = i / cores + 1 := by
    rw [Nat.succ_div, if_pos (Nat.dvd_iff_mod_eq_zero.mpr hmod)]
  refine ⟨hdiv, ?_⟩
  have h₁ := Nat.div_add_mod (i + 1) cores
  have h₂ := Nat.div_add_mod i cores
  rw [hdiv, Nat.mul_add] at h₁
  omega

/-- A record ends its block if it is the last one that fits. -/
theorem succ_mod_eq_zero_iff : (i + 1) % cores = 0 ↔ i % cores + 1 = cores := by
  refine ⟨fun hmod => (succ_div_of_mod_eq_zero hmod).2, fun hlast => ?_⟩
  have hsplit : i + 1 = cores * (i / cores + 1) := by
    rw [Nat.mul_add, Nat.mul_one]
    have := Nat.div_add_mod i cores
    omega
  rw [hsplit, Nat.mul_mod_right]

/-- The record that completes a block. -/
theorem block_of_succ {r : Record} (hr : rs[i]? = some r) (hmod : (i + 1) % cores = 0) :
    block cores rs (i / cores) = before cores rs i ++ [r] := by
  rw [← take_succ_before hr, (succ_div_of_mod_eq_zero hmod).2]
  rfl

@[simp] theorem length_states (cores : Nat) (block : List Record) :
    (states cores block).length = cores := by
  simp [states]

@[simp] theorem length_blocks (cores : Nat) (rs : List Record) :
    (blocks cores rs).length = rs.length / cores := by
  simp [blocks]

theorem getElem?_blocks (hi : i < rs.length / cores) :
    (blocks cores rs)[i]? = some (states cores (block cores rs i)) := by
  simp [blocks, hi]

/-! ## Bad records -/

theorem isBad_iff {r : Record} (hr : rs[i]? = some r) :
    isBad cores rs i = true ↔ cores ≤ r.1 ∨ ∃ old, (r.1, old) ∈ before cores rs i := by
  simp only [isBad, hr, Bool.or_eq_true, decide_eq_true_eq, List.any_eq_true, beq_iff_eq]
  refine or_congr_right ⟨?_, ?_⟩
  · rintro ⟨⟨core, old⟩, hmem, rfl⟩
    exact ⟨old, hmem⟩
  · rintro ⟨old, hmem⟩
    exact ⟨(r.1, old), hmem, rfl⟩

theorem lt_length_of_isBad (h : isBad cores rs i = true) : i < rs.length := by
  by_contra hge
  rw [isBad, List.getElem?_eq_none (by omega)] at h
  cases h

theorem firstBad_le : firstBad cores rs ≤ rs.length := by
  unfold firstBad
  cases hfind : (List.range rs.length).find? (isBad cores rs) with
  | none => exact Nat.le_refl _
  | some i => exact Nat.le_of_lt (List.mem_range.mp (List.mem_of_find?_eq_some hfind))

/-- No record before the first bad one is bad. -/
theorem le_firstBad (hgood : ∀ k < i, isBad cores rs k = false) (hi : i ≤ rs.length) :
    i ≤ firstBad cores rs := by
  unfold firstBad
  cases hfind : (List.range rs.length).find? (isBad cores rs) with
  | none => exact hi
  | some j =>
    by_contra hlt
    have hbad := List.find?_some hfind
    rw [hgood j (by simpa using hlt)] at hbad
    cases hbad

/-- The first bad record is the one that is bad after none was. -/
theorem firstBad_eq (hgood : ∀ k < i, isBad cores rs k = false)
    (hbad : isBad cores rs i = true) : firstBad cores rs = i := by
  have hlt := lt_length_of_isBad hbad
  have hfind : (List.range rs.length).find? (isBad cores rs) = some i := by
    rw [List.find?_range_eq_some]
    exact ⟨hbad, by simpa using hlt, fun j hj => by simp [hgood j hj]⟩
  simp [firstBad, hfind]

theorem firstBad_eq_length (hgood : ∀ k < rs.length, isBad cores rs k = false) :
    firstBad cores rs = rs.length :=
  Nat.le_antisymm firstBad_le (le_firstBad hgood (Nat.le_refl _))

theorem refusal_of_isBad {r : Record} (hr : rs[i]? = some r)
    (hgood : ∀ k < i, isBad cores rs k = false) (hbad : isBad cores rs i = true) :
    refusal cores rs =
      some (if cores ≤ r.1 then .coreIndex r.1 cores else .duplicateCore r.1) := by
  simp [refusal, firstBad_eq hgood hbad, hr]

/-- Past the last record every block is empty. -/
theorem block_eq_nil (hi : rs.length ≤ i) : block cores rs i = [] := by
  rcases Nat.eq_zero_or_pos cores with rfl | hpos
  · simp [block]
  · have hend : rs.length ≤ i * cores := Nat.le_trans hi (Nat.le_mul_of_pos_right i hpos)
    rw [block, List.drop_eq_nil_of_le hend, List.take_nil]

theorem wellFormed_iff {bytes : List UInt8} :
    WellFormed cores bytes ↔
      chunkSize ∣ bytes.length ∧ (∀ r ∈ records bytes, r.1 < cores) ∧
        ∀ i < (records bytes).length, ((block cores (records bytes) i).map Prod.fst).Nodup := by
  refine ⟨fun hw => ⟨hw.whole, hw.core_lt, fun i _ => hw.distinct i⟩, ?_⟩
  rintro ⟨hwhole, hcore, hdistinct⟩
  refine ⟨hwhole, hcore, fun i => ?_⟩
  rcases Nat.lt_or_ge i (records bytes).length with hlt | hge
  · exact hdistinct i hlt
  · simp [block_eq_nil hge]

instance (cores : Nat) (bytes : List UInt8) : Decidable (WellFormed cores bytes) :=
  decidable_of_iff _ wellFormed_iff.symm

/-- A well-formed stream has no bad record. -/
theorem WellFormed.isBad {bytes : List UInt8} (hw : WellFormed cores bytes) :
    isBad cores (records bytes) i = false := by
  rw [← Bool.not_eq_true]
  intro hbad
  obtain ⟨r, hr⟩ : ∃ r, (records bytes)[i]? = some r :=
    ⟨_, List.getElem?_eq_getElem (lt_length_of_isBad hbad)⟩
  have hcore := hw.core_lt r (List.mem_of_getElem? hr)
  rcases (isBad_iff hr).mp hbad with hout | ⟨old, hold⟩
  · omega
  · -- The record and those before it are the beginning of their block.
    have hmod : i % cores + 1 ≤ cores := Nat.mod_lt i (by omega)
    have hstart : before cores (records bytes) i ++ [r] <+:
        block cores (records bytes) (i / cores) := by
      rw [← take_succ_before hr]
      exact List.take_prefix_take_left hmod
    have hnodup := (hstart.sublist.map Prod.fst).nodup (hw.distinct (i / cores))
    rw [List.map_append, List.nodup_append] at hnodup
    exact hnodup.2.2 r.1 (List.mem_map.mpr ⟨_, hold, rfl⟩) r.1 (by simp) rfl

theorem WellFormed.firstBad_eq {bytes : List UInt8} (hw : WellFormed cores bytes) :
    firstBad cores (records bytes) = (records bytes).length :=
  firstBad_eq_length fun _ _ => hw.isBad

theorem refusal_eq_none (hgood : ∀ k < rs.length, isBad cores rs k = false) :
    refusal cores rs = none := by
  simp [refusal, firstBad_eq_length hgood]

end Cosim.Stream

namespace Cosim.Snapshot.Holds

variable {s : Snapshot} {cores : Nat} {puts : List (Nat × CoreState)}

/-- The records of a snapshot, in core order. -/
theorem records_eq (h : s.Holds cores puts) : s.records = Stream.states cores puts := by
  have hsize : s.slots.size = cores := h.cores_eq
  refine List.ext_getElem? fun core => ?_
  simp only [records, Stream.states, List.getElem?_map]
  by_cases hcore : core < cores
  · rw [List.getElem?_range hcore]
    have hslot : s.slots.toList[core]? = some s.slots[core] := by
      simp [hsize ▸ hcore]
    rw [hslot, Option.map_some, Option.map_some]
    congr 2
    cases hlookup : puts.lookup core with
    | some state =>
      have hmem : (core, state) ∈ puts := by
        obtain ⟨l₁, l₂, rfl, -⟩ := List.lookup_eq_some_iff.mp hlookup
        simp
      have := (h.mem_iff core state).mpr hmem
      rwa [Array.getElem?_eq_getElem (hsize ▸ hcore), Option.some.injEq] at this
    | none =>
      cases hs : s.slots[core] with
      | none => rfl
      | some state =>
        have hmem := (h.mem_iff core state).mp
          (by rw [Array.getElem?_eq_getElem (hsize ▸ hcore), hs])
        have := List.lookup_eq_none_iff.mp hlookup (core, state) hmem
        simp at this
  · have hout : s.slots.toList.length ≤ core := by
      rw [Array.length_toList, hsize]
      omega
    rw [List.getElem?_eq_none hout, List.getElem?_eq_none (by simpa using hcore)]
    rfl

end Cosim.Snapshot.Holds
