import Cosim.Snapshot
import Mathlib.Data.List.Count

/-!
# Snapshots by what was put into them

`Snapshot.Holds` ties a snapshot to the list of records filed since it was last
empty: the slots hold these records and nothing else, and the number of filled
slots is the length of the list.  Everything the workers rely on is read off
that list.

* `Holds.put_ok` and `Holds.put_error` say what filing one more record does, and
  when it is refused.
* `Holds.complete_iff` says when every core has reported.
* `holds_reset` and `holds_create` give the empty snapshot.
* `has_put`, `filled_eq_countP` and `complete_iff_all` say the same of single cores.
-/

namespace Cosim.Snapshot

/-- The snapshot has so many cores and holds exactly the listed records. -/
structure Holds (s : Snapshot) (cores : Nat) (puts : List (Nat × CoreState)) : Prop where
  cores_eq : s.cores = cores
  filled_eq : s.filled = puts.length
  mem_iff : ∀ core state, s.slots[core]? = some (some state) ↔ (core, state) ∈ puts

/-- Slots that are all empty hold nothing. -/
theorem holds_replicate (seq : UInt64) (cores : Nat) :
    Holds { seq, slots := Array.replicate cores none } cores [] where
  cores_eq := by simp [Snapshot.cores]
  filled_eq := by simp [filled, List.countP_replicate]
  mem_iff := by
    intro core state
    simp [Array.getElem?_replicate]

/-- A new snapshot is empty. -/
theorem holds_create {cores : Int} {s : Snapshot} (h : create cores = .ok s) :
    s.Holds cores.toNat [] := by
  unfold create at h
  split at h
  · cases h
    exact holds_replicate 0 cores.toNat
  · cases h

/-- A snapshot that is reset is empty. -/
theorem holds_reset {s : Snapshot} {cores : Nat} (h : s.cores = cores) :
    s.reset.Holds cores [] := by
  subst h
  exact holds_replicate s.seq s.cores

namespace Holds

variable {s s' : Snapshot} {cores : Nat} {puts : List (Nat × CoreState)}

/-- A core has reported exactly when one of the records is its own. -/
theorem has_iff (h : s.Holds cores puts) {core : Int} (hcore : 0 ≤ core) :
    s.has core = true ↔ ∃ state, (core.toNat, state) ∈ puts := by
  simp only [has, hcore, decide_true, Bool.true_and, Option.isSome_iff_exists]
  refine exists_congr fun state => ?_
  rw [← h.mem_iff, Array.getD_eq_getD_getElem?]
  cases s.slots[core.toNat]? <;> simp

/-- Every core has reported exactly when there are as many records as cores. -/
theorem complete_iff (h : s.Holds cores puts) : s.complete = true ↔ puts.length = cores := by
  simp [complete, h.cores_eq, h.filled_eq]

/-- The record of a core that has reported. -/
theorem record_eq (h : s.Holds cores puts) {core : Nat} {state : CoreState}
    (hmem : (core, state) ∈ puts) : s.record core = state := by
  have hslot := (h.mem_iff core state).mpr hmem
  simp [record, Array.getD_eq_getD_getElem?, hslot]

/-- In a complete snapshot the record of every core is one that was filed. -/
theorem record_mem (h : s.Holds cores puts) (hlen : puts.length = cores) {core : Nat}
    (hcore : core < cores) : (core, s.record core) ∈ puts := by
  have hsize : s.slots.size = cores := h.cores_eq
  have hall : s.slots.toList.countP Option.isSome = s.slots.toList.length := by
    rw [Array.length_toList, hsize, ← hlen]
    exact h.filled_eq
  have hslot : s.slots[core]? = some s.slots[core] := Array.getElem?_eq_getElem (by omega)
  have hsome := List.countP_eq_length.mp hall s.slots[core] (by simp)
  obtain ⟨state, hstate⟩ := Option.isSome_iff_exists.mp hsome
  rw [hstate] at hslot
  have hmem := (h.mem_iff core state).mp hslot
  rwa [h.record_eq hmem]

/-- An empty snapshot has the zero record for every core. -/
theorem record_of_nil (h : s.Holds cores []) (core : Nat) : s.record core = {} := by
  unfold record
  rw [Array.getD_eq_getD_getElem?]
  cases hslot : s.slots[core]? with
  | none => rfl
  | some slot =>
    cases slot with
    | none => rfl
    | some state => exact absurd ((h.mem_iff core state).mp hslot) (by simp)

/-- The number that the exchange gives does not touch the records. -/
theorem with_seq (h : s.Holds cores puts) (seq : UInt64) : { s with seq }.Holds cores puts :=
  ⟨h.cores_eq, h.filled_eq, h.mem_iff⟩

/-- A record that is filed names a core in range that had not reported, and the
snapshot holds it from then on. -/
theorem put_ok (h : s.Holds cores puts) {core : Int} {state : CoreState}
    (hput : s.put core state = .ok s') :
    0 ≤ core ∧ core < cores ∧ (∀ old, (core.toNat, old) ∉ puts) ∧
      s'.Holds cores (puts ++ [(core.toNat, state)]) := by
  unfold put at hput
  split at hput
  · cases hput
  rename_i hrange
  rw [h.cores_eq] at hrange
  split at hput
  · cases hput
  rename_i hnew
  cases hput
  have hnonneg : 0 ≤ core := by omega
  have hbound : core.toNat < s.slots.size := by
    have := h.cores_eq
    unfold Snapshot.cores at this
    omega
  have hfresh : ∀ old, (core.toNat, old) ∉ puts := by
    intro old hold
    exact hnew ((h.has_iff hnonneg).mpr ⟨old, hold⟩)
  refine ⟨hnonneg, by omega, hfresh, ?_, ?_, ?_⟩
  · rw [← h.cores_eq]
    simp [Snapshot.cores]
  · have hempty : s.slots[core.toNat].isSome = false := by
      cases hslot : s.slots[core.toNat] with
      | none => rfl
      | some old =>
        refine absurd ((h.mem_iff core.toNat old).mp ?_) (hfresh old)
        rw [Array.getElem?_eq_getElem hbound, hslot]
    have hcount := h.filled_eq
    unfold filled at hcount ⊢
    rw [Array.set!_eq_setIfInBounds, Array.toList_setIfInBounds,
      List.countP_set (by simpa using hbound)]
    simp [hempty, hcount]
  · intro c st
    rw [Array.set!_eq_setIfInBounds, Array.getElem?_setIfInBounds, List.mem_append, ← h.mem_iff]
    by_cases hc : core.toNat = c
    · subst hc
      have hnone : s.slots[core.toNat]? ≠ some (some st) := fun hs =>
        hfresh st ((h.mem_iff _ _).mp hs)
      rw [if_pos rfl, if_pos hbound, or_iff_right hnone]
      simp [eq_comm]
    · have hc' : c ≠ core.toNat := fun hh => hc hh.symm
      simp [hc, hc']

/-- A record is refused for a core out of range, or else for a core that has
reported already. -/
theorem put_error (h : s.Holds cores puts) {core : Int} {state : CoreState} {e : Error}
    (hput : s.put core state = .error e) :
    (e = .coreRange core cores ∧ (core < 0 ∨ cores ≤ core)) ∨
      (e = .duplicateCore core.toNat ∧ 0 ≤ core ∧ core < cores ∧
        ∃ old, (core.toNat, old) ∈ puts) := by
  unfold put at hput
  rw [h.cores_eq] at hput
  split at hput
  · cases hput
    rename_i hrange
    exact .inl ⟨rfl, hrange⟩
  rename_i hrange
  split at hput
  · cases hput
    rename_i hhas
    have hnonneg : 0 ≤ core := by omega
    exact .inr ⟨rfl, hnonneg, by omega, (h.has_iff hnonneg).mp hhas⟩
  · cases hput

end Holds

/-! ## Slots -/

variable {s s' : Snapshot} {core other : Int} {state : CoreState}

/-- After a put that succeeds, its core has reported, and otherwise all is as it was. -/
theorem has_put (hput : s.put core state = .ok s') :
    s'.has other = (s.has other || other == core) := by
  unfold put at hput
  split at hput
  · cases hput
  rename_i hrange
  split at hput
  · cases hput
  cases hput
  have hbound : core.toNat < s.slots.size := by
    unfold cores at hrange
    omega
  unfold has
  rw [Array.set!_eq_setIfInBounds, Array.getD_eq_getD_getElem?, Array.getD_eq_getD_getElem?,
    Array.getElem?_setIfInBounds]
  by_cases hsame : other = core
  · subst hsame
    simp [hbound]
    omega
  · by_cases hnonneg : 0 ≤ other
    · rw [if_neg (by omega), beq_false_of_ne hsame, Bool.or_false]
    · simp [hnonneg, hsame]

theorem has_reset (s : Snapshot) (core : Int) : s.reset.has core = false := by
  simp only [has, reset, Array.getD_eq_getD_getElem?, Array.getElem?_replicate]
  split <;> simp

theorem core_lt_of_has (h : s.has core = true) : 0 ≤ core ∧ core < s.cores := by
  simp only [has, Bool.and_eq_true, decide_eq_true_eq] at h
  refine ⟨h.1, ?_⟩
  by_contra hout
  have hnone : s.slots[core.toNat]? = none := by
    refine Array.getElem?_eq_none ?_
    unfold cores at hout
    omega
  simp [Array.getD_eq_getD_getElem?, hnone] at h

/-- The number of filled slots is the number of cores that have reported. -/
theorem filled_eq_countP (s : Snapshot) :
    s.filled = (List.range s.cores).countP fun core : Nat => s.has core := by
  have hslots : s.slots.toList.map Option.isSome =
      (List.range s.cores).map fun core : Nat => s.has core := by
    refine List.ext_getElem (by simp [cores]) fun core hcore _ => ?_
    rw [List.length_map, Array.length_toList] at hcore
    simp [has, Array.getD_eq_getD_getElem?, hcore]
  have hcount := congrArg (List.countP id) hslots
  rw [List.countP_map, List.countP_map] at hcount
  exact hcount

theorem complete_iff_all (s : Snapshot) :
    s.complete = true ↔ ∀ core : Nat, core < s.cores → s.has core = true := by
  have hcount := List.countP_eq_length (l := List.range s.cores) (p := fun core : Nat => s.has core)
  rw [← filled_eq_countP, List.length_range] at hcount
  simp only [complete, beq_iff_eq, hcount, List.mem_range]

end Cosim.Snapshot
