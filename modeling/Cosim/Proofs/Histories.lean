import Cosim.Proofs.Stream
import Mathlib.Data.List.Perm.Subperm

/-!
# What one core reports

A stream of records is read in two ways.  The assembler cuts it into blocks, one record of
each core to a block; the golden trace sorts it by core.  In a stream that the assembler
accepts the two agree: the record of a core in block `k` is number `k` of that core.

* `wellFormed_iff_accepted` says which streams the workers accept.
* `history` is what one core reports, and `WellFormed.getElem?_history` says where it stands
  in the blocks.
* `records_cons` reads a stream record by record, from the front.
-/

namespace Cosim.Stream

variable {cores core i k : Nat} {rs : List Record} {bytes : List UInt8}

/-! ## Streams without an error -/

theorem not_isBad_of_refusal (haccepted : refusal cores rs = none) (hk : k < rs.length) :
    isBad cores rs k = false := by
  have hnone : (List.range rs.length).find? (isBad cores rs) = none := by
    by_contra hfound
    obtain ⟨j, hj⟩ := Option.ne_none_iff_exists'.mp hfound
    have hlt := List.mem_range.mp (List.mem_of_find?_eq_some hj)
    simp [refusal, firstBad, hj, hlt] at haccepted
  simpa using List.find?_eq_none.mp hnone k (List.mem_range.mpr hk)

/-- A block without a bad record has every core at most once. -/
theorem nodup_block (hgood : ∀ k < rs.length, isBad cores rs k = false) :
    ((block cores rs i).map Prod.fst).Nodup := by
  refine List.pairwise_iff_getElem.mpr fun a b ha hb hab hsame => ?_
  simp only [List.length_map, block, List.length_take, List.length_drop] at ha hb
  -- The later of two records of one core would be bad.
  have hlater : rs[i * cores + b]? = some rs[i * cores + b] := List.getElem?_eq_getElem (by omega)
  have hbefore : before cores rs (i * cores + b) = (rs.drop (i * cores)).take b := by
    rw [before, Nat.add_mod, Nat.mul_mod_left, Nat.zero_add, Nat.mod_mod,
      Nat.mod_eq_of_lt (by omega), Nat.add_comm, Nat.add_mul_div_right b i (by omega),
      Nat.div_eq_of_lt (by omega), Nat.zero_add]
  have hbad : isBad cores rs (i * cores + b) = true := by
    refine (isBad_iff hlater).mpr (.inr ⟨rs[i * cores + a].2, ?_⟩)
    simp only [block, List.getElem_map, List.getElem_take, List.getElem_drop] at hsame
    rw [hbefore, ← hsame]
    refine List.mem_iff_getElem.mpr ⟨a, by simp; omega, ?_⟩
    simp
  rw [hgood _ (by omega)] at hbad
  cases hbad

/-- The workers accept the well-formed streams. -/
theorem wellFormed_iff_accepted :
    WellFormed cores bytes ↔ chunkSize ∣ bytes.length ∧ refusal cores (records bytes) = none := by
  refine ⟨fun hw => ⟨hw.whole, refusal_eq_none fun _ _ => hw.isBad⟩, ?_⟩
  rintro ⟨hwhole, haccepted⟩
  have hgood : ∀ k < (records bytes).length, isBad cores (records bytes) k = false :=
    fun k hk => not_isBad_of_refusal haccepted hk
  refine ⟨hwhole, fun r hr => ?_, fun i => nodup_block hgood⟩
  obtain ⟨k, hk⟩ := List.mem_iff_getElem?.mp hr
  have hlt := (List.getElem?_eq_some_iff.mp hk).1
  by_contra hout
  have hbad := (isBad_iff hk).mpr (.inl (Nat.le_of_not_lt hout))
  rw [hgood k hlt] at hbad
  cases hbad

/-! ## Histories -/

/-- The states that a core reports, in order. -/
def history (core : Nat) (rs : List Record) : List CoreState :=
  (rs.filter (·.1 == core)).map Prod.snd

@[simp] theorem history_nil (core : Nat) : history core [] = [] := rfl

theorem history_cons (core : Nat) (r : Record) (rs : List Record) :
    history core (r :: rs) = (if r.1 = core then [r.2] else []) ++ history core rs := by
  by_cases hcore : r.1 = core <;> simp [history, hcore]

theorem history_append (core : Nat) (rs rs' : List Record) :
    history core (rs ++ rs') = history core rs ++ history core rs' := by
  simp [history]

/-- A core that nobody names has no history. -/
theorem history_eq_nil (h : core ∉ rs.map Prod.fst) : history core rs = [] := by
  rw [history, List.filter_eq_nil_iff.mpr, List.map_nil]
  intro r hr hsame
  exact h (List.mem_map.mpr ⟨r, hr, by simpa using hsame⟩)

/-- Where a core reports at most once, its history is that report. -/
theorem history_of_nodup (hnodup : (rs.map Prod.fst).Nodup) :
    history core rs = (rs.lookup core).toList := by
  induction rs with
  | nil => rfl
  | cons r rest ih =>
    obtain ⟨hnot, hrest⟩ := List.nodup_cons.mp hnodup
    rw [history_cons]
    by_cases hcore : r.1 = core
    · subst hcore
      rw [history_eq_nil hnot, if_pos rfl, List.lookup_cons_self]
      rfl
    · rw [if_neg hcore, List.nil_append, ih hrest, List.lookup_cons]
      simp [beq_false_of_ne (Ne.symm hcore)]

/-- In a block that has as many records as there are cores, every core reports. -/
theorem lookup_of_full (hnodup : (rs.map Prod.fst).Nodup) (hlt : ∀ r ∈ rs, r.1 < cores)
    (hfull : rs.length = cores) (hcore : core < cores) : ∃ s, rs.lookup core = some s := by
  have hsub : rs.map Prod.fst ⊆ List.range cores := by
    intro c hc
    obtain ⟨r, hr, rfl⟩ := List.mem_map.mp hc
    exact List.mem_range.mpr (hlt r hr)
  have hperm : (rs.map Prod.fst).Perm (List.range cores) :=
    (List.subperm_of_subset hnodup hsub).perm_of_length_le (by simp [hfull])
  have hmem := hperm.mem_iff.mpr (List.mem_range.mpr hcore)
  by_contra hnone
  obtain ⟨r, hr, rfl⟩ := List.mem_map.mp hmem
  have hmissing := List.lookup_eq_none_iff.mp (Option.eq_none_iff_forall_ne_some.mpr
    fun s hs => hnone ⟨s, hs⟩) r hr
  simp at hmissing

/-- Every complete block reports one state for each core. -/
theorem length_of_mem_blocks {reported : List CoreState} (hmem : reported ∈ blocks cores rs) :
    reported.length = cores := by
  obtain ⟨i, -, rfl⟩ := List.mem_map.mp hmem
  exact length_states cores _

/-- Block `k` has the `k`-th report of each core. -/
theorem WellFormed.history_block (hw : WellFormed cores bytes)
    (hk : k < (records bytes).length / cores) (hcore : core < cores) :
    ∃ s, (states cores (block cores (records bytes) k))[core]? = some s ∧
      history core (block cores (records bytes) k) = [s] := by
  have hlt : ∀ r ∈ block cores (records bytes) k, r.1 < cores := fun r hr =>
    hw.core_lt r (List.mem_of_mem_drop (List.mem_of_mem_take hr))
  obtain ⟨s, hs⟩ := lookup_of_full (hw.distinct k) hlt (length_block hk) hcore
  refine ⟨s, ?_, by rw [history_of_nodup (hw.distinct k), hs]; rfl⟩
  simp [states, hcore, hs]

/-- After `k` blocks every core has reported `k` times. -/
theorem WellFormed.length_history (hw : WellFormed cores bytes)
    (hk : k ≤ (records bytes).length / cores) (hcore : core < cores) :
    (history core ((records bytes).take (k * cores))).length = k := by
  induction k with
  | zero => simp
  | succ k ih =>
    obtain ⟨s, -, hs⟩ := hw.history_block (k := k) (by omega) hcore
    have hsplit : (records bytes).take ((k + 1) * cores) =
        (records bytes).take (k * cores) ++ block cores (records bytes) k := by
      rw [Nat.succ_mul, List.take_add, block]
    rw [hsplit, history_append, List.length_append, ih (by omega), hs, List.length_singleton]

/-- The state of a core in block `k` is number `k` of its history. -/
theorem WellFormed.getElem?_history (hw : WellFormed cores bytes)
    (hk : k < (records bytes).length / cores) (hcore : core < cores) :
    (history core (records bytes))[k]? = (states cores (block cores (records bytes) k))[core]? := by
  obtain ⟨s, hstate, hs⟩ := hw.history_block hk hcore
  have hlength := hw.length_history (Nat.le_of_lt hk) hcore
  have hsplit : records bytes = (records bytes).take (k * cores) ++
      (block cores (records bytes) k ++ (records bytes).drop (k * cores + cores)) := by
    rw [block, ← List.drop_drop, List.take_append_drop, List.take_append_drop]
  rw [hstate]
  conv_lhs => rw [hsplit]
  rw [history_append, history_append, hs, List.getElem?_append_right (by omega), hlength,
    Nat.sub_self]
  rfl

/-! ## Record by record -/

/-- The records of a stream, from the front. -/
theorem records_cons (hlong : chunkSize ≤ bytes.length) :
    records bytes = parse (bytes.take chunkSize) :: records (bytes.drop chunkSize) := by
  have hcount : bytes.length / chunkSize = (bytes.drop chunkSize).length / chunkSize + 1 := by
    rw [List.length_drop, ← Nat.sub_add_cancel hlong, Nat.add_div_right _ (by decide)]
    simp
  rw [records, hcount, List.range_succ_eq_map, List.map_cons, List.map_map, records]
  simp only [Nat.mul_zero, List.drop_zero, List.cons.injEq, true_and]
  refine List.map_congr_left fun i _ => ?_
  simp only [Function.comp, List.drop_drop, Nat.mul_succ, Nat.add_comm]

/-- A record is read from the front of what is left. -/
theorem parse_take (bytes : List UInt8) :
    parse (bytes.take chunkSize) =
      ((bytes.getD recordSize 0).toNat, CoreState.ofBytes (bytes.take recordSize)) := by
  simp only [parse, List.getD_eq_getElem?_getD, List.take_take]
  rw [List.getElem?_take_of_lt (by decide)]
  rfl

end Cosim.Stream
